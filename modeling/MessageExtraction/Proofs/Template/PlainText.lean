import MessageExtraction.Proofs.Markup.TextContent
import MessageExtraction.Proofs.Template.Messages

/-!
# Texts without markup

A text without markup reaches the catalog, the interpolations or a script in one and the same form,
whether it is the message of a marked element, the text of a plain element or the content of a
script. Entities are kept as they are written. The code point that stands for ampersands while
markup is read is not: where the text holds it, an ampersand comes out. Every other text comes out
as it is.

White space alone may shrink in the tree, but it yields nothing either way.

## Main definitions

* `IsPlainElement` -- an element that is scanned for what its attributes and its texts hold.

## Main results

* `restoreEntities_eq_self_iff` -- which texts come out as they are.
* `scan_withoutMarkup` -- what a text without markup yields in the three places.
-/

namespace MessageExtraction.Template

open Markup

/-! ## What comes out of a text -/

section

variable {t : Text}

/-- Ampersands come out as they are, and so do the code points that stand for them. -/
theorem restoreEntities_protectEntities_eq (t : Text) :
    restoreEntities (protectEntities t) = restoreEntities t := by
  rw [restoreEntities, protectEntities, List.map_map]
  refine List.map_congr_left fun c _ => ?_
  rw [Function.comp_apply]
  split
  · next hc =>
    obtain rfl := CodePoint.is_iff.mp hc
    decide
  · rfl

/-- A text comes out as it is exactly if it does not hold the sentinel. -/
theorem restoreEntities_eq_self_iff : restoreEntities t = t ↔ sentinel ∉ t := by
  refine ⟨fun h hmem => ?_, restoreEntities_of_not_mem⟩
  have hall : ∀ c ∈ t, (if c = sentinel then CodePoint.ofChar '&' else c) = c :=
    List.map_inj_left.mp (h.trans (List.map_id t).symm)
  have hand := hall sentinel hmem
  rw [if_pos rfl] at hand
  exact absurd hand (by decide)

theorem restoreEntities_of_space (h : IsSpace t) : restoreEntities t = t :=
  restoreEntities_of_not_mem fun hmem => h.all (p := fun c => c ≠ sentinel) (by decide) _ hmem rfl

theorem not_lt_of_protectEntities (h : ∀ c ∈ t, c.is '<' = false) :
    ∀ c ∈ protectEntities t, c.is '<' = false := by
  intro c hc
  obtain ⟨d, hd, rfl⟩ := List.mem_map.mp hc
  split
  · decide
  · exact h d hd

/-- What the tree keeps of a text comes out as the text does, unless both are white space. -/
theorem restoreEntities_shrink (preserved : Bool) (t : Text) :
    restoreEntities (shrink preserved (protectEntities t)) = restoreEntities t ∨
      IsSpace t ∧ IsSpace (shrink preserved (protectEntities t)) := by
  by_cases hspace : IsSpace (protectEntities t)
  · exact .inr ⟨isSpace_of_protectEntities hspace, isSpace_shrink hspace preserved⟩
  · rw [shrink_of_not_isSpace hspace, restoreEntities_protectEntities_eq]
    exact .inl rfl

/-- A text yields what its interpolations do, as it comes out. -/
theorem textEvents_shrink (d : Delimiters) (file : Text) (line : Int) (preserved : Bool)
    (t : Text) :
    textEvents d file line (shrink preserved (protectEntities t)) = textEvents d file line t := by
  rcases restoreEntities_shrink preserved t with heq | ⟨hspace, hkept⟩
  · rw [textEvents, heq, textEvents]
  · rw [textEvents_of_space d file line hkept, textEvents_of_space d file line hspace]

end

/-! ## A plain element -/

/-- An element whose attributes and texts are scanned: it is not marked as a message and holds no
script. -/
structure IsPlainElement (name : Text) (attributes : List Attribute) : Prop where
  isTagName : IsTagName name
  arePlain : ArePlain attributes
  not_void : name ∉ voidNames
  not_script : name.is "script" = false
  unmarked : name ≠ translateName ∧ ∀ a ∈ attributes,
    a.name ≠ translateName ∧ a.name ≠ longForm ++ translateName

section

variable {document name t : Text} {attributes : List Attribute} (s : Setting) (file : Text)
  (offset : Int)

/-- A document of one element with a text yields what the element does. -/
theorem scan_of_parse? (h : parse? (protectEntities document) =
    some [.element name attributes 1 (keptTexts name t)]) :
    scan s file offset document =
      (PlacedElement.mk name attributes 1 (keptTexts name t) (lineCount document)).events s file
        offset (scan s file) := by
  have hnone (after : Int) : elementsOfNodes after (keptTexts name t) = [] := by
    rw [keptTexts]
    split <;> rfl
  have htexts (after : Int) (nodes : List Node) :
      textsWithLines after [.element name attributes 1 nodes] = [] := rfl
  rw [scan_eq, h]
  dsimp only
  rw [nodesEvents, htexts, elementsOfNodes, elementsOfNode, elementsOfNodes, hnone,
    List.flatMap_nil, List.nil_append, List.append_nil, List.flatMap_singleton, lineOfNodes]

theorem protectEntities_printText (hname : IsTagName name) (hattributes : ArePlain attributes)
    (t : Text) : protectEntities (printText name attributes t) =
      printText name (attributes.map protectValue) (protectEntities t) := by
  rw [printText, protectEntities_append, protectEntities_append,
    protectEntities_printStartTag hname hattributes.isPlain, protectEntities_writeEndTag hname,
    printText]

theorem valueEvents_protectEntities (d : Delimiters) (line : Int) (value : Text) :
    valueEvents d file line (protectEntities value) = valueEvents d file line value := by
  have hempty : (protectEntities value).isEmpty = value.isEmpty := List.isEmpty_map
  rw [valueEvents, hempty, restoreEntities_protectEntities_eq, valueEvents]

/-- Entities do not matter to how an element is scanned. -/
theorem IsPlainElement.role_eq (h : IsPlainElement name attributes) (line : Nat)
    (children : List Node) (after : Int) :
    (PlacedElement.mk name (attributes.map protectValue) line children after).role = .plain := by
  have hnone {label : Text} (hlabel : ∀ a ∈ attributes, a.name ≠ label) :
      (attributeValue? (attributes.map protectValue) label).isSome = false := by
    rw [attributeValue?, Option.isSome_map, Option.isSome_eq_false_iff, Option.isNone_iff_eq_none,
      List.find?_eq_none]
    intro b hb heq
    obtain ⟨a, ha, rfl⟩ := List.mem_map.mp hb
    exact hlabel a ha (of_decide_eq_true heq)
  have hmarked : (PlacedElement.mk name (attributes.map protectValue) line children
      after).isMarked = false := by
    simp only [PlacedElement.isMarked, PlacedElement.attribute?, h.unmarked.1, decide_false,
      hnone fun a ha => (h.unmarked.2 a ha).1, hnone fun a ha => (h.unmarked.2 a ha).2,
      Bool.or_false]
  rw [PlacedElement.role, hmarked, h.not_script]
  rfl

/-- The text of an element yields what its interpolations do, on the line on which it begins. -/
theorem flatMap_textsWithLines_keptTexts (d : Delimiters) (line : Int) (t : Text) :
    ((textsWithLines (line + Text.lineFeeds t) (keptTexts name (protectEntities t))).flatMap
      fun (t, line) => textEvents d file (line + offset) t) =
    textEvents d file (line + offset) t := by
  rw [keptTexts]
  split
  · next hempty =>
    have hnil : t = [] := by simpa [protectEntities] using hempty
    have hspace : IsSpace t := hnil ▸ fun _ hc => absurd hc List.not_mem_nil
    rw [textEvents_of_space d file _ hspace, textsWithLines, List.flatMap_nil]
  · rw [textsWithLines, textsWithLines, lineOfNodes, List.flatMap_singleton]
    dsimp only
    rw [textEvents_shrink]
    -- white space yields nothing on any line
    by_cases hspace : IsSpace (protectEntities t)
    · have hspace := isSpace_of_protectEntities hspace
      rw [textEvents_of_space d file _ hspace, textEvents_of_space d file _ hspace]
    · rw [shrink_of_not_isSpace hspace, lineFeeds_protectEntities, Int.add_sub_cancel]

/-- An end tag is on one line. -/
theorem lineFeeds_writeEndTag (h : IsTagName name) : Text.lineFeeds (writeEndTag name) = 0 := by
  have hname : Text.lineFeeds name = 0 := by
    refine List.countP_eq_zero.mpr fun c hc hfeed => ?_
    have hblank := (h.plain c hc).1
    rw [eq_of_beq hfeed] at hblank
    cases hblank
  rw [writeEndTag, lineFeeds_append, lineFeeds_append, hname]
  rfl

/-- A plain element yields what its attributes and its text do. -/
theorem scan_plainElement (h : IsPlainElement name attributes) (ht : ∀ c ∈ t, c.is '<' = false) :
    scan s file offset (printText name attributes t) =
      (attributes.flatMap fun a => valueEvents s.delimiters file (1 + offset) a.value) ++
        textEvents s.delimiters file (lineAfter (printStartTag name attributes) + offset) t := by
  have hparse := parse?_printText h.isTagName (arePlain_protectValue h.arePlain) h.not_void
    (not_lt_of_protectEntities ht)
  rw [← protectEntities_printText h.isTagName h.arePlain] at hparse
  have hfeeds : (lineCount (printText name attributes t) : Int) =
      lineAfter (printStartTag name attributes) + Text.lineFeeds t := by
    rw [lineCount, printText, lineFeeds_append, lineFeeds_append, lineFeeds_writeEndTag h.isTagName,
      lineAfter]
    push_cast
    omega
  have hattributes : ((attributes.map protectValue).flatMap fun a =>
      valueEvents s.delimiters file (1 + offset) a.value) =
      attributes.flatMap fun a => valueEvents s.delimiters file (1 + offset) a.value := by
    rw [List.flatMap_map]
    exact List.flatMap_congr fun a _ => valueEvents_protectEntities file _ _ a.value
  rw [scan_of_parse? s file offset hparse, PlacedElement.events, h.role_eq]
  dsimp only
  rw [PlacedElement.plainEvents, hfeeds, flatMap_textsWithLines_keptTexts]
  exact congrArg (· ++ _) hattributes

/-! ## A script and a marked element -/

theorem rawContent_keptTexts (name t : Text) : rawContent (keptTexts name t) =
    keptContent (preservingNames.contains name) t := by
  rw [keptTexts, keptContent]
  split
  · rfl
  · exact List.append_nil _

theorem innerMarkup_keptTexts (name t : Text) : innerMarkup (keptTexts name t) =
    keptContent (preservingNames.contains name) t := by
  rw [keptTexts, keptContent]
  split
  · rfl
  · exact List.append_nil _

/-- What is kept of a text comes out as the text does, unless both are white space. -/
theorem restoreEntities_keptContent (preserved : Bool) (t : Text) :
    restoreEntities (keptContent preserved (protectEntities t)) = restoreEntities t ∨
      IsSpace t ∧ IsSpace (restoreEntities (keptContent preserved (protectEntities t))) := by
  rw [keptContent]
  split
  · next hempty =>
    have hnil : t = [] := by simpa [protectEntities] using hempty
    exact .inl (by rw [hnil])
  · refine (restoreEntities_shrink preserved t).imp_right fun h => ⟨h.1, ?_⟩
    rw [restoreEntities_of_space h.2]
    exact h.2

/-- A script yields what its text does as it comes out. -/
theorem scan_scriptElement (ht : ∀ c ∈ t, c.is '<' = false) :
    scan s file offset (printText "script" [] t) =
      Script.scan s.markers file offset (restoreEntities t) := by
  have hname : IsTagName "script" := by decide +kernel
  have hvoid : Text.ofString "script" ∉ voidNames := by decide +kernel
  have hplain : ArePlain [] := by decide
  have hparse := parse?_printText hname hplain hvoid (not_lt_of_protectEntities ht)
  rw [← List.map_nil (f := protectValue), ← protectEntities_printText hname hplain] at hparse
  have hevents (children : List Node) (after : Int) :
      (PlacedElement.mk "script" [] 1 children after).events s file offset (scan s file) =
        Script.scan s.markers file (offset + 1 - 1) (restoreEntities (rawContent children)) := rfl
  rw [scan_of_parse? s file offset hparse, List.map_nil, hevents, rawContent_keptTexts,
    Int.add_sub_cancel]
  rcases restoreEntities_keptContent (preservingNames.contains "script") t with heq | ⟨ht, hkept⟩
  · rw [heq]
  · rw [Script.scan_of_space _ _ _ hkept, restoreEntities_of_space ht,
      Script.scan_of_space _ _ _ ht]

/-- A marked paragraph yields one message. -/
theorem scan_markedText (ht : ∀ c ∈ t, c.is '<' = false) :
    ∃ message, scan s file offset (markedOpening ++ t ++ writeEndTag "p") = [.candidate message] ∧
      message.reference = ⟨file, some (1 + offset)⟩ ∧
      message.msgid = Text.strip (restoreEntities t) := by
  have hvoid : Text.ofString "p" ∉ voidNames := by decide +kernel
  have hdistinct : (markedAttributes.map Attribute.name).Nodup := by simp [markedAttributes]
  have hprotect : protectEntities (markedOpening ++ t ++ writeEndTag "p") =
      markedOpening ++ protectEntities t ++ writeEndTag "p" := by
    have hopening : protectEntities markedOpening = markedOpening := by decide +kernel
    rw [protectEntities_append, protectEntities_append, hopening,
      protectEntities_writeEndTag isTagName_p]
  have hparse : parse? (protectEntities (markedOpening ++ t ++ writeEndTag "p")) =
      some [.element "p" markedAttributes 1 (keptTexts "p" (protectEntities t))] := by
    rw [hprotect, parse?, read?, List.append_assoc, readFrom?_markedOpening,
      readFrom?_text_endTag isTagName_p (not_lt_of_protectEntities ht), Option.map_some,
      Option.map_some]
    exact congrArg some (Builder.build_text hvoid hdistinct)
  have hevents (children : List Node) (after : Int) :
      (PlacedElement.mk "p" markedAttributes 1 children after).events s file offset (scan s file) =
        [plainCandidate file (1 + offset) (restoreEntities (innerMarkup children))] := rfl
  refine ⟨_, (scan_of_parse? s file offset hparse).trans (hevents _ _), rfl, ?_⟩
  rw [innerMarkup_keptTexts]
  change Text.strip (restoreEntities (keptContent _ _)) = _
  rcases restoreEntities_keptContent (preservingNames.contains "p") t with heq | ⟨ht, hkept⟩
  · rw [heq]
  · rw [Text.strip_of_blank (isBlank_of_isSpace hkept), restoreEntities_of_space ht,
      Text.strip_of_blank (isBlank_of_isSpace ht)]

/-- A text that is blank is blank as it comes out. -/
theorem strip_restoreEntities_of_blank (h : Text.strip t = []) :
    Text.strip (restoreEntities t) = [] := by
  have hblank := Text.blank_of_strip_eq_nil h
  have hsentinel : sentinel ∉ t := fun hmem => by
    have hs := hblank sentinel hmem
    cases hs
  rwa [restoreEntities_of_not_mem hsentinel]

/-- A text without markup comes out in one form wherever it stands. As the content of a marked
paragraph it is the message, without the blanks at its ends, and no message if it is blank. As the
text of a plain element its interpolations are looked for, and as the content of a script it is
scanned as one. What comes out is the text itself exactly if it does not hold the sentinel, for
which an ampersand comes out. -/
theorem scan_withoutMarkup (ht : ∀ c ∈ t, c.is '<' = false) :
    (∃ message, scan s file offset (markedOpening ++ t ++ writeEndTag "p") =
        [.candidate message] ∧
      message.reference = ⟨file, some (1 + offset)⟩ ∧
      message.msgid = Text.strip (restoreEntities t) ∧
      (Text.strip t = [] → ∀ catalog : Catalog, catalog.add message = (catalog, none))) ∧
    (∀ name attributes, IsPlainElement name attributes →
      scan s file offset (printText name attributes t) =
        (attributes.flatMap fun a => valueEvents s.delimiters file (1 + offset) a.value) ++
          (s.delimiters.expressions (restoreEntities t)).flatMap
            (expressionEvents file (lineAfter (printStartTag name attributes) + offset))) ∧
    scan s file offset (printText "script" [] t) =
      Script.scan s.markers file offset (restoreEntities t) ∧
    (restoreEntities t = t ↔ sentinel ∉ t) := by
  obtain ⟨message, hscan, hreference, hmsgid⟩ := scan_markedText s file offset ht
  refine ⟨⟨message, hscan, hreference, hmsgid, fun hblank catalog => ?_⟩,
    fun name attributes h => scan_plainElement s file offset h ht,
    scan_scriptElement s file offset ht, restoreEntities_eq_self_iff⟩
  exact Catalog.add_of_blank (hmsgid.trans (strip_restoreEntities_of_blank hblank))

end

/-- A translated literal with an entity between braces. -/
def literalWithEntity : Text :=
  "\n\x7b\x7b'&amp;' | translate\x7d\x7d"

theorem isPlainElement_b : IsPlainElement "b" [] where
  isTagName := by decide +kernel
  arePlain := by decide
  not_void := by decide +kernel
  not_script := by decide +kernel
  unmarked := ⟨by decide +kernel, fun _ ha => absurd ha List.not_mem_nil⟩

/-- The entity comes out as it is written, in a message and in the interpolation of a text. -/
theorem scan_literalWithEntity :
    (∀ c ∈ literalWithEntity, c.is '<' = false) ∧ IsPlainElement "b" [] ∧
    (∃ message, scan doubleBraces "t.html" 0
        (markedOpening ++ literalWithEntity ++ writeEndTag "p") = [.candidate message] ∧
      message.msgid = Text.ofString "\x7b\x7b'&amp;' | translate\x7d\x7d") ∧
    scan doubleBraces "t.html" 0 (printText "b" [] literalWithEntity) =
      expressionEvents "t.html" 1 "'&amp;' | translate" := by
  have hplain : ∀ c ∈ literalWithEntity, c.is '<' = false := by decide +kernel
  obtain ⟨⟨message, hscan, -, hmsgid, -⟩, hb, -, hself⟩ :=
    scan_withoutMarkup doubleBraces "t.html" 0 hplain
  have hsame := hself.mpr (by decide +kernel)
  rw [hsame] at hmsgid hb
  refine ⟨hplain, isPlainElement_b, ⟨message, hscan, ?_⟩, ?_⟩
  · rw [hmsgid]
    decide +kernel
  · have hexpressions : doubleBraces.delimiters.expressions literalWithEntity =
        [Text.ofString "'&amp;' | translate"] := by decide +kernel
    have hfeeds : lineAfter (printStartTag "b" []) = 1 := by decide +kernel
    rw [hb "b" [] isPlainElement_b, hexpressions, hfeeds, List.flatMap_nil, List.nil_append,
      List.flatMap_singleton]
    rfl

/-- The code point that stands for ampersands comes out as an ampersand. -/
theorem scan_sentinel :
    (∀ c ∈ [sentinel], c.is '<' = false) ∧ Text.strip [sentinel] = [sentinel] ∧
    scan doubleBraces "t.html" 0 (markedOpening ++ [sentinel] ++ writeEndTag "p") =
      [plainCandidate "t.html" 1 (Text.ofChar '&')] := by
  decide +kernel

end MessageExtraction.Template
