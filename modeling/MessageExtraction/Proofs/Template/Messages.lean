import MessageExtraction.Proofs.Catalog.Entries
import MessageExtraction.Proofs.Markup.Content
import MessageExtraction.Proofs.Template.BlankContent

/-!
# The message of a marked element

The message of an element is its content as markup is written back: its texts, elements and entities
as they are in the source, but the attributes of a tag in the order of their names, a declared
character encoding replaced, and white space between tags shrunk. Content that is tidy in these
respects is the message as it stands, whatever white space there is at its two ends.

## Main definitions

* `Template.markedParagraph` -- a paragraph that is marked as a message, with its content.
* `Template.writtenAll` -- content as it is written back.
* `Template.TidyWithin` -- content that is tidy but for white space at its two ends.

## Main results

* `scan_markedParagraph` -- what scanning a marked paragraph yields.
* `msgid_markedParagraph` -- its message, and when it is the content of the source.
* `scan_unsortedLink` -- a message that is not the content of the source.
-/

namespace MessageExtraction.Template

open Markup

/-- An attribute with the sentinel for every ampersand in its value. -/
def protectValue (a : Attribute) : Attribute :=
  { a with value := protectEntities a.value }

mutual

/-- A part of a content with the sentinel for every ampersand. -/
def protectContent : Content → Content
  | .text t => .text (protectEntities t)
  | .void name attributes => .void name (attributes.map protectValue)
  | .element name attributes children =>
    .element name (attributes.map protectValue) (protectAll children)

/-- Content with the sentinel for every ampersand. -/
def protectAll : List Content → List Content
  | [] => []
  | c :: cs => protectContent c :: protectAll cs

end

/-- Attributes as they are written back: in the order of their names, and with the encoding of the
output for a declared one. -/
def writtenAttributes (name : Text) (attributes : List Attribute) : List Attribute :=
  (attributes.mergeSort fun a b => a.name < b.name || a.name = b.name).map fun a =>
    ⟨a.name, restoreEntities (writtenValue name (attributes.map protectValue) (protectValue a))⟩

mutual

/-- A part of a content as it is written back. -/
def writtenContent : Content → Content
  | .text t => .text (shrink false t)
  | .void name attributes => .void name (writtenAttributes name attributes)
  | .element name attributes children =>
    .element name (writtenAttributes name attributes) (writtenAll children)

/-- Content as it is written back. -/
def writtenAll : List Content → List Content
  | [] => []
  | c :: cs => writtenContent c :: writtenAll cs

end

/-! ## Content while markup is read -/

@[simp] theorem map_name_protectValue (attributes : List Attribute) :
    (attributes.map protectValue).map Attribute.name = attributes.map Attribute.name :=
  List.map_map

theorem protectEntities_ofChar (ch : Char) (h : (CodePoint.ofChar ch).is '&' = false) :
    protectEntities (Text.ofChar ch) = Text.ofChar ch :=
  protectEntities_of_plain fun c hc => by rwa [List.mem_singleton.mp hc]

theorem protectEntities_printStartTag {name : Text} (hname : IsTagName name)
    {attributes : List Attribute} (h : ∀ a ∈ attributes, IsPlain a) :
    protectEntities (printStartTag name attributes) =
      printStartTag name (attributes.map protectValue) := by
  have hattribute (a : Attribute) (ha : IsPlain a) :
      protectEntities (printAttribute a) = printAttribute (protectValue a) := by
    simp only [printAttribute, protectEntities_append, protectEntities_of_plain ha.plain,
      protectEntities_ofChar ' ' (by decide), protectEntities_ofChar '=' (by decide),
      protectEntities_ofChar '\x22' (by decide), protectValue]
  have hattributes : protectEntities (attributes.flatMap printAttribute) =
      (attributes.map protectValue).flatMap printAttribute := by
    rw [protectEntities, List.map_flatMap, List.flatMap_map]
    exact List.flatMap_congr fun a ha => hattribute a (h a ha)
  simp only [printStartTag, protectEntities_append, hattributes,
    protectEntities_of_plain fun c hc => (hname.plain c hc).2,
    protectEntities_ofChar '<' (by decide), protectEntities_ofChar '>' (by decide)]

theorem protectEntities_writeEndTag {name : Text} (hname : IsTagName name) :
    protectEntities (writeEndTag name) = writeEndTag name := by
  simp only [writeEndTag, protectEntities_append,
    protectEntities_of_plain fun c hc => (hname.plain c hc).2,
    protectEntities_ofChar '>' (by decide)]
  rfl

mutual

theorem print_protectContent : ∀ c : Content, c.WellFormed →
    (protectContent c).print = protectEntities c.print
  | .text _, _ => rfl
  | .void _ _, h => (protectEntities_printStartTag h.1 h.2.1.isPlain).symm
  | .element name attributes children, h => by
    rw [protectContent, Content.print, Content.print, protectEntities_append,
      protectEntities_append, protectEntities_printStartTag h.1 h.2.1.isPlain,
      protectEntities_writeEndTag h.1,
      printAll_protectAll children h.2.2.2.2.2]

/-- While markup is read, written content is content with sentinels that is written. -/
theorem printAll_protectAll : ∀ cs : List Content, AllWellFormed cs →
    printAll (protectAll cs) = protectEntities (printAll cs)
  | [], _ => rfl
  | c :: cs, h => by
    rw [protectAll, printAll, printAll, protectEntities_append, print_protectContent c h.1,
      printAll_protectAll cs h.2.2]

end

theorem isPlain_protectValue {a : Attribute} (h : IsPlain a) : IsPlain (protectValue a) where
  name_ne_nil := h.name_ne_nil
  continues := h.continues
  lower_eq := h.lower_eq
  plain := h.plain
  value c hc := by
    obtain ⟨d, hd, rfl⟩ := List.mem_map.mp hc
    split
    · decide
    · exact h.value d hd

theorem arePlain_protectValue {attributes : List Attribute} (h : ArePlain attributes) :
    ArePlain (attributes.map protectValue) where
  isPlain a ha := by
    obtain ⟨b, hb, rfl⟩ := List.mem_map.mp ha
    exact isPlain_protectValue (h.isPlain b hb)
  distinct := by
    rw [map_name_protectValue]
    exact h.distinct

theorem isText_protectContent (c : Content) : (protectContent c).isText = c.isText := by
  cases c <;> rfl

mutual

theorem wellFormed_protectContent : ∀ c : Content, c.WellFormed → (protectContent c).WellFormed
  | .text t, h => by
    refine ⟨fun hnil => h.1 (List.map_eq_nil_iff.mp hnil), fun c hc => ?_⟩
    obtain ⟨d, hd, rfl⟩ := List.mem_map.mp hc
    split
    · decide
    · exact h.2 d hd
  | .void _ _, h => ⟨h.1, arePlain_protectValue h.2.1, h.2.2⟩
  | .element _ _ children, h =>
    ⟨h.1, arePlain_protectValue h.2.1, h.2.2.1, h.2.2.2.1, h.2.2.2.2.1,
      allWellFormed_protectAll children h.2.2.2.2.2⟩

theorem allWellFormed_protectAll : ∀ cs : List Content, AllWellFormed cs →
    AllWellFormed (protectAll cs)
  | [], _ => trivial
  | c :: cs, h => by
    refine ⟨wellFormed_protectContent c h.1, fun htext d hd => ?_,
      allWellFormed_protectAll cs h.2.2⟩
    cases cs with
    | nil => cases hd
    | cons e es =>
      obtain rfl := Option.some.inj hd
      rw [isText_protectContent] at htext ⊢
      exact h.2.1 htext e rfl

end

/-! ## Content as it is written back -/

/-- Declaring a character encoding writes no quotation mark. -/
theorem declareCharset_plain (atStart : Bool) {t : Text} (h : ∀ c ∈ t, c.is '\x22' = false) :
    ∀ c ∈ declareCharset atStart t, c.is '\x22' = false := by
  fun_induction declareCharset atStart t with
  | case1 => exact fun _ hc => absurd hc List.not_mem_nil
  | case2 atStart c t afterBreak blanks declared rest hrest kept value ih =>
    intro d hd
    rcases List.mem_append.mp hd with hd | hd
    · rcases List.mem_append.mp hd with hd | hd
      · exact h d (List.mem_of_mem_take hd)
      · exact (by decide : ∀ d ∈ outputEncoding, d.is '\x22' = false) d hd
    · exact ih (fun e he => h e (List.mem_cons_of_mem c (List.mem_of_mem_drop he))) d hd
  | case3 atStart c t afterBreak blanks declared hnone ih =>
    obtain ⟨hc, ht⟩ := List.forall_mem_cons.mp h
    exact List.forall_mem_cons.mpr ⟨hc, ih ht⟩

theorem writtenValue_plain (name : Text) (attributes : List Attribute) {a : Attribute}
    (h : ∀ c ∈ a.value, c.is '\x22' = false) :
    ∀ c ∈ writtenValue name attributes a, c.is '\x22' = false := by
  rw [writtenValue]
  split
  · split
    · decide
    · split
      · exact declareCharset_plain true h
      · exact h
  · exact h

theorem quotedValue_plain {value : Text} (h : ∀ c ∈ value, c.is '\x22' = false) :
    quotedValue value = Text.ofChar '\x22' ++ value ++ Text.ofChar '\x22' := by
  have hany : (value.any fun c => c.is '\x22') = false := by
    rw [List.any_eq_false]
    intro c hc
    rw [h c hc]
    exact Bool.false_ne_true
  rw [quotedValue, hany, if_neg Bool.false_ne_true]

theorem restoreEntities_ofChar (ch : Char) (h : CodePoint.ofChar ch ≠ sentinel) :
    restoreEntities (Text.ofChar ch) = Text.ofChar ch :=
  restoreEntities_of_not_mem fun hmem => h (List.mem_singleton.mp hmem).symm

/-- A start tag is written back with its attributes as they are written back. -/
theorem restoreEntities_writeStartTag {name : Text} (hname : sentinel ∉ name)
    {attributes : List Attribute} (h : ∀ a ∈ attributes, IsPlain a ∧ sentinel ∉ a.name) :
    restoreEntities (writeStartTag name (attributes.map protectValue)) =
      printStartTag name (writtenAttributes name attributes) := by
  have hsorted : (attributes.map protectValue).mergeSort
      (fun a b => a.name < b.name || a.name = b.name) =
      (attributes.mergeSort fun a b => a.name < b.name || a.name = b.name).map protectValue :=
    (List.map_mergeSort (f := protectValue) fun _ _ _ _ => rfl).symm
  have hattribute (a : Attribute) (ha : a ∈ attributes) :
      restoreEntities (Text.ofChar ' ' ++ a.name ++ Text.ofChar '=' ++
        quotedValue (writtenValue name (attributes.map protectValue) (protectValue a))) =
      printAttribute ⟨a.name, restoreEntities
        (writtenValue name (attributes.map protectValue) (protectValue a))⟩ := by
    obtain ⟨hplain, hsentinel⟩ := h a ha
    rw [quotedValue_plain (writtenValue_plain name _ (isPlain_protectValue hplain).value)]
    simp only [printAttribute, restoreEntities_append, restoreEntities_of_not_mem hsentinel,
      restoreEntities_ofChar ' ' (by decide), restoreEntities_ofChar '=' (by decide),
      restoreEntities_ofChar '\x22' (by decide)]
  have hattributes : restoreEntities (((attributes.map protectValue).mergeSort
      (fun a b => a.name < b.name || a.name = b.name)).flatMap fun a =>
        Text.ofChar ' ' ++ a.name ++ Text.ofChar '=' ++
          quotedValue (writtenValue name (attributes.map protectValue) a)) =
      (writtenAttributes name attributes).flatMap printAttribute := by
    rw [hsorted, restoreEntities, List.map_flatMap, writtenAttributes, List.flatMap_map,
      List.flatMap_map]
    exact List.flatMap_congr fun a ha => hattribute a (List.mem_mergeSort.mp ha)
  rw [writeStartTag]
  simp only [restoreEntities_append, hattributes, printStartTag, restoreEntities_of_not_mem hname,
    restoreEntities_ofChar '<' (by decide), restoreEntities_ofChar '>' (by decide)]

theorem restoreEntities_shrink_protectEntities {t : Text} (h : sentinel ∉ t) :
    restoreEntities (shrink false (protectEntities t)) = shrink false t := by
  by_cases hspace : IsSpace t
  · rw [protectEntities_of_plain (hspace.all (p := fun c => c.is '&' = false) (by decide))]
    refine restoreEntities_of_not_mem fun hmem => ?_
    exact (isSpace_shrink hspace false).all (p := fun c => c ≠ sentinel) (by decide) _ hmem rfl
  · rw [shrink_of_not_isSpace fun hprotected => hspace (isSpace_of_protectEntities hprotected),
      shrink_of_not_isSpace hspace, restoreEntities_protectEntities h]

theorem not_mem_of_printStartTag {c : CodePoint} {name : Text} {attributes : List Attribute}
    (h : c ∉ printStartTag name attributes) : c ∉ name ∧ ∀ a ∈ attributes, c ∉ a.name := by
  refine ⟨fun hname => h ?_, fun a ha hname => h ?_⟩
  · simp [printStartTag, hname]
  · have hattribute : c ∈ printAttribute a := by simp [printAttribute, hname]
    simp only [printStartTag, List.mem_append, List.mem_flatMap]
    exact .inl (.inr ⟨a, ha, hattribute⟩)

mutual

theorem restoreEntities_write_node : ∀ c : Content, c.WellFormed → sentinel ∉ c.print →
    ∀ line, restoreEntities ((protectContent c).node line).write = (writtenContent c).print
  | .text _, _, hsentinel, _ => restoreEntities_shrink_protectEntities hsentinel
  | .void name attributes, h, hsentinel, line => by
    obtain ⟨hname, hattributes⟩ := not_mem_of_printStartTag hsentinel
    rw [protectContent, Content.node, Node.write, List.isEmpty_nil, Bool.true_and,
      if_pos (List.contains_iff_mem.mpr h.2.2), innerMarkup, List.append_nil, List.append_nil]
    exact restoreEntities_writeStartTag hname fun a ha => ⟨h.2.1.isPlain a ha, hattributes a ha⟩
  | .element name attributes children, h, hsentinel, line => by
    obtain ⟨-, hplain, hvoid, -, -, hchildren⟩ := h
    rw [Content.print, List.mem_append, List.mem_append, not_or, not_or] at hsentinel
    obtain ⟨⟨htag, hinner⟩, hend⟩ := hsentinel
    obtain ⟨hname, hattributes⟩ := not_mem_of_printStartTag htag
    have hnot : voidNames.contains name = false := by
      rwa [← Bool.not_eq_true, List.contains_iff_mem]
    rw [protectContent, Content.node, Node.write, hnot, Bool.and_false, if_neg Bool.false_ne_true,
      restoreEntities_append, restoreEntities_append, restoreEntities_of_not_mem hend,
      restoreEntities_innerMarkup_nodesOf children hchildren hinner,
      restoreEntities_writeStartTag hname fun a ha => ⟨hplain.isPlain a ha, hattributes a ha⟩]
    rfl

/-- The markup of the content of an element is its content as it is written back. -/
theorem restoreEntities_innerMarkup_nodesOf : ∀ cs : List Content, AllWellFormed cs →
    sentinel ∉ printAll cs → ∀ line,
    restoreEntities (innerMarkup (nodesOf line (protectAll cs))) = printAll (writtenAll cs)
  | [], _, _, _ => rfl
  | c :: cs, h, hsentinel, line => by
    rw [printAll, List.mem_append, not_or] at hsentinel
    rw [protectAll, nodesOf, innerMarkup, restoreEntities_append,
      restoreEntities_write_node c h.1 hsentinel.1,
      restoreEntities_innerMarkup_nodesOf cs h.2.2 hsentinel.2, writtenAll, printAll]

end

/-! ## A marked paragraph -/

/-- The start tag of a paragraph that is marked as a message. -/
def markedOpening : Text :=
  "<p translate>"

/-- A paragraph that is marked as a message, with its content. -/
def markedParagraph (cs : List Content) : Text :=
  markedOpening ++ printAll cs ++ writeEndTag "p"

/-- The attributes of its start tag. -/
def markedAttributes : List Attribute :=
  [⟨translateName, []⟩]

theorem read_markedOpening (rest : Text) :
    StartTag.read (Text.ofString "p translate>" ++ rest) =
      .tag ⟨"p", markedAttributes, false⟩ rest := by
  have hname : readAttribute? ' ' (Text.ofString "translate>" ++ rest) =
      some (⟨translateName, []⟩, 8) := rfl
  have hend : readAttribute? 'e' (CodePoint.ofChar '>' :: rest) = none := by
    rw [readAttribute?, if_neg (by rw [Bool.and_eq_true]; exact fun h => absurd h.1 (by decide))]
  have hattributes : readAttributes ' ' (Text.ofString "translate>" ++ rest) =
      (markedAttributes, CodePoint.ofChar '>' :: rest) := by
    rw [show Text.ofString "translate>" ++ rest =
      CodePoint.ofChar 't' :: (Text.ofString "ranslate>" ++ rest) from rfl] at hname ⊢
    rw [readAttributes, hname]
    dsimp only
    rw [show ((Text.ofString "ranslate>" ++ rest).take 8).getLastD (CodePoint.ofChar 't') = 'e'
        from rfl,
      show (Text.ofString "ranslate>" ++ rest).drop 8 = CodePoint.ofChar '>' :: rest from rfl,
      readAttributes, hend]
    rfl
  have hlength : tagNameLength? (Text.ofString "p translate>" ++ rest) = some 1 := rfl
  rw [StartTag.read, hlength]
  dsimp only
  rw [show (Text.ofString "p translate>" ++ rest).drop
      (1 + gapLength ((Text.ofString "p translate>" ++ rest).drop 1)) =
      Text.ofString "translate>" ++ rest from rfl,
    show ((Text.ofString "p translate>" ++ rest).take
      (1 + gapLength ((Text.ofString "p translate>" ++ rest).drop 1))).getLastD
        (CodePoint.ofChar '<') = ' ' from rfl, hattributes]
  rfl

theorem isTagName_p : IsTagName (Text.ofString "p") := by
  decide +kernel

theorem readFrom?_markedOpening (rest : Text) :
    readFrom? none 1 (markedOpening ++ rest) =
      (readFrom? none 1 rest).map ([.startTag ⟨"p", markedAttributes, false⟩ 1] ++ ·) := by
  refine readFrom?_append (by decide) ?_
  have hpiece : readPiece none 1 (CodePoint.ofChar '<' :: (Text.ofString "p translate>" ++ rest)) =
      .events [.startTag ⟨"p", markedAttributes, false⟩ 1] markedOpening.length none := by
    have hread := read_markedOpening rest
    have hlength : (CodePoint.ofChar '<' :: (Text.ofString "p translate>" ++ rest)).length -
        rest.length = markedOpening.length := by
      rw [show CodePoint.ofChar '<' :: (Text.ofString "p translate>" ++ rest) =
        markedOpening ++ rest from rfl, List.length_append, Nat.add_sub_cancel]
    rw [show Text.ofString "p translate>" ++ rest =
      CodePoint.ofChar 'p' :: (Text.ofString " translate>" ++ rest) from rfl] at hread hlength ⊢
    rw [readPiece, List.drop_succ_cons, List.drop_zero]
    dsimp only
    rw [if_pos (by decide), hread]
    dsimp only
    rw [hlength, if_neg (by decide +kernel)]
  rw [show markedOpening ++ rest = CodePoint.ofChar '<' :: (Text.ofString "p translate>" ++ rest)
    from rfl, readNext_lt, hpiece]

theorem read?_markedParagraph {cs : List Content} (h : AllWellFormed cs) :
    read? (markedParagraph cs) =
      some (.startTag ⟨"p", markedAttributes, false⟩ 1 :: (eventsOf 1 cs ++ [.endTag "p"])) := by
  have hend (line : Nat) : readFrom? none line (writeEndTag (Text.ofString "p")) =
      some [.endTag "p"] := by
    have hread := readFrom?_endTag isTagName_p line []
    rw [List.append_nil, readFrom?] at hread
    exact hread
  have hmarkup : ∃ t, writeEndTag (Text.ofString "p") = CodePoint.ofChar '<' :: t := ⟨_, rfl⟩
  rw [read?, markedParagraph, List.append_assoc, readFrom?_markedOpening,
    readFrom?_printAll cs h 1 _ hmarkup, hend]
  rfl

/-- A marked paragraph is read into its element. -/
theorem parse?_markedParagraph {cs : List Content} (h : AllWellFormed cs) :
    parse? (markedParagraph cs) = some [.element "p" markedAttributes 1 (nodesOf 1 cs)] := by
  have hvoid : Text.ofString "p" ∉ voidNames := by decide +kernel
  have hdistinct : (markedAttributes.map Attribute.name).Nodup := by
    simp [markedAttributes]
  have hopened := Builder.add_startTag_of_not_void (b := {}) hvoid hdistinct 1
  have hinner := adds_eventsOf cs h 1
    (b := ({} : Builder).add (.startTag ⟨"p", markedAttributes, false⟩ 1))
    (fun _ _ _ => by rw [hopened]; rfl) (by rw [hopened]; decide +kernel)
    (by rw [hopened]; exact fun _ hn => absurd hn List.not_mem_nil)
  rw [parse?, read?_markedParagraph h, Option.map_some, build, List.foldl_cons, List.foldl_append]
  exact congrArg some (Builder.finish_of_adds (Builder.adds_element hvoid hdistinct hinner).1)

theorem protectEntities_markedParagraph {cs : List Content} (h : AllWellFormed cs) :
    protectEntities (markedParagraph cs) = markedParagraph (protectAll cs) := by
  have hopening : protectEntities markedOpening = markedOpening := by decide +kernel
  rw [markedParagraph, protectEntities_append, protectEntities_append, hopening,
    protectEntities_writeEndTag isTagName_p, ← printAll_protectAll cs h, markedParagraph]

/-- Scanning a marked paragraph yields its content as it is written back, and then what the elements
in it yield. -/
theorem scan_markedParagraph (s : Setting) (file : Text) (offset : Int) {cs : List Content}
    (h : AllWellFormed cs) (hsentinel : sentinel ∉ printAll cs) :
    scan s file offset (markedParagraph cs) =
      plainCandidate file (1 + offset) (printAll (writtenAll cs)) ::
        (elementsOfNodes (lineCount (markedParagraph cs)) (nodesOf 1 (protectAll cs))).flatMap
          fun e => e.events s file offset (scan s file) := by
  rw [scan_eq, protectEntities_markedParagraph h,
    parse?_markedParagraph (allWellFormed_protectAll cs h)]
  dsimp only
  have htexts (after : Int) (nodes : List Node) :
      textsWithLines after [.element "p" markedAttributes 1 nodes] = [] := rfl
  have hevents (after : Int) (nodes : List Node) :
      (PlacedElement.mk "p" markedAttributes 1 nodes after).events s file offset (scan s file) =
        [plainCandidate file (1 + offset) (restoreEntities (innerMarkup nodes))] := rfl
  rw [nodesEvents, htexts, elementsOfNodes, elementsOfNode, elementsOfNodes, List.append_nil,
    List.flatMap_nil, List.nil_append, List.flatMap_cons, hevents,
    restoreEntities_innerMarkup_nodesOf cs h hsentinel]
  rfl

/-! ## Tidy content -/

/-- The attributes of a tag stand in the order of their names, and none of them declares a character
encoding. -/
structure AreTidy (name : Text) (attributes : List Attribute) : Prop where
  sorted : attributes.Pairwise fun a b => a.name < b.name
  noCharset : name.is "meta" = true →
    ∀ a ∈ attributes, a.name.is "charset" = false ∧ a.name.is "content" = false

instance (name : Text) (attributes : List Attribute) : Decidable (AreTidy name attributes) :=
  decidable_of_iff ((attributes.Pairwise fun a b => a.name < b.name) ∧ (name.is "meta" = true →
      ∀ a ∈ attributes, a.name.is "charset" = false ∧ a.name.is "content" = false))
    ⟨fun ⟨hsorted, hmeta⟩ => ⟨hsorted, hmeta⟩, fun ⟨hsorted, hmeta⟩ => ⟨hsorted, hmeta⟩⟩

mutual

/-- A part of a content is written back as it is: white space alone is one space or one line feed,
and attributes are tidy. -/
def Tidy : Content → Prop
  | .text t => IsSpace t → t = Text.ofChar ' ' ∨ t = Text.ofChar '\n'
  | .void name attributes => AreTidy name attributes
  | .element name attributes children => AreTidy name attributes ∧ AllTidy children

/-- All parts of a content are tidy. -/
def AllTidy : List Content → Prop
  | [] => True
  | c :: cs => Tidy c ∧ AllTidy cs

end

mutual

/-- Whether a part of a content is tidy. -/
def decideTidy : (c : Content) → Decidable (Tidy c)
  | .text t => inferInstanceAs (Decidable (IsSpace t → t = Text.ofChar ' ' ∨ t = Text.ofChar '\n'))
  | .void name attributes => inferInstanceAs (Decidable (AreTidy name attributes))
  | .element _ _ children =>
    have := decideAllTidy children
    inferInstanceAs (Decidable (_ ∧ _))

/-- Whether all parts of a content are tidy. -/
def decideAllTidy : (cs : List Content) → Decidable (AllTidy cs)
  | [] => isTrue trivial
  | c :: cs =>
    have := decideTidy c
    have := decideAllTidy cs
    inferInstanceAs (Decidable (_ ∧ _))

end

instance (cs : List Content) : Decidable (AllTidy cs) :=
  decideAllTidy cs

/-- Content is tidy but for white space at its two ends. -/
def TidyWithin (cs : List Content) : Prop :=
  ∃ first inner last, cs = first ++ inner ++ last ∧ AllTidy inner ∧
    ∀ c ∈ first ++ last, ∃ t, c = .text t ∧ IsSpace t

theorem writtenAttributes_of_tidy {name : Text} {attributes : List Attribute}
    (h : AreTidy name attributes) (hsentinel : ∀ a ∈ attributes, sentinel ∉ a.value) :
    writtenAttributes name attributes = attributes := by
  have hvalue (a : Attribute) (ha : a ∈ attributes) :
      writtenValue name (attributes.map protectValue) (protectValue a) =
        protectEntities a.value := by
    rw [writtenValue]
    split
    · next hmeta =>
      obtain ⟨hcharset, hcontent⟩ := h.noCharset hmeta a ha
      simp only [protectValue, hcharset, hcontent, Bool.false_and, Bool.false_eq_true, if_false]
    · rfl
  rw [writtenAttributes, List.mergeSort_of_pairwise (h.sorted.imp fun hlt => by simp [hlt])]
  refine (List.map_congr_left fun a ha => ?_).trans (List.map_id attributes)
  rw [hvalue a ha, restoreEntities_protectEntities (hsentinel a ha), id]

theorem not_mem_value_of_printStartTag {c : CodePoint} {name : Text} {attributes : List Attribute}
    (h : c ∉ printStartTag name attributes) : ∀ a ∈ attributes, c ∉ a.value := by
  intro a ha hvalue
  have hattribute : c ∈ printAttribute a := by simp [printAttribute, hvalue]
  refine h ?_
  simp only [printStartTag, List.mem_append, List.mem_flatMap]
  exact .inl (.inr ⟨a, ha, hattribute⟩)

mutual

theorem writtenContent_of_tidy : ∀ c : Content, Tidy c → sentinel ∉ c.print → writtenContent c = c
  | .text t, h, _ => by
    rw [writtenContent]
    by_cases hspace : IsSpace t
    · rcases h hspace with rfl | rfl <;> rfl
    · rw [shrink_of_not_isSpace hspace]
  | .void name attributes, h, hsentinel => by
    rw [writtenContent, writtenAttributes_of_tidy h (not_mem_value_of_printStartTag hsentinel)]
  | .element name attributes children, h, hsentinel => by
    rw [Content.print, List.mem_append, List.mem_append, not_or, not_or] at hsentinel
    rw [writtenContent, writtenAll_of_tidy children h.2 hsentinel.1.2,
      writtenAttributes_of_tidy h.1 (not_mem_value_of_printStartTag hsentinel.1.1)]

/-- Tidy content is written back as it is. -/
theorem writtenAll_of_tidy : ∀ cs : List Content, AllTidy cs → sentinel ∉ printAll cs →
    writtenAll cs = cs
  | [], _, _ => rfl
  | c :: cs, h, hsentinel => by
    rw [printAll, List.mem_append, not_or] at hsentinel
    rw [writtenAll, writtenContent_of_tidy c h.1 hsentinel.1,
      writtenAll_of_tidy cs h.2 hsentinel.2]

end

theorem writtenAll_append (cs ds : List Content) :
    writtenAll (cs ++ ds) = writtenAll cs ++ writtenAll ds := by
  induction cs with
  | nil => rfl
  | cons c cs ih => rw [List.cons_append, writtenAll, writtenAll, ih, List.cons_append]

theorem printAll_append (cs ds : List Content) :
    printAll (cs ++ ds) = printAll cs ++ printAll ds := by
  induction cs with
  | nil => rfl
  | cons c cs ih => rw [List.cons_append, printAll, printAll, ih, List.append_assoc]

theorem isBlank_of_isSpace {t : Text} (h : IsSpace t) : ∀ c ∈ t, c.isBlank = true :=
  h.all (p := fun c => c.isBlank = true) (by decide)

/-- White space stays white space. -/
theorem blank_of_spaces {cs : List Content} (h : ∀ c ∈ cs, ∃ t, c = .text t ∧ IsSpace t) :
    (∀ c ∈ printAll cs, c.isBlank = true) ∧ ∀ c ∈ printAll (writtenAll cs), c.isBlank = true := by
  induction cs with
  | nil => exact ⟨fun _ hc => absurd hc List.not_mem_nil, fun _ hc => absurd hc List.not_mem_nil⟩
  | cons c cs ih =>
    obtain ⟨⟨t, rfl, ht⟩, hcs⟩ := List.forall_mem_cons.mp h
    obtain ⟨hprint, hwritten⟩ := ih hcs
    exact ⟨List.forall_mem_append.mpr ⟨isBlank_of_isSpace ht, hprint⟩,
      List.forall_mem_append.mpr ⟨isBlank_of_isSpace (isSpace_shrink ht false), hwritten⟩⟩

/-- Content that is tidy but for its ends is written back as it is but for blanks at the ends. -/
theorem strip_printAll_writtenAll {cs : List Content} (h : TidyWithin cs)
    (hsentinel : sentinel ∉ printAll cs) :
    Text.strip (printAll (writtenAll cs)) = Text.strip (printAll cs) := by
  obtain ⟨first, inner, last, rfl, hinner, hends⟩ := h
  obtain ⟨hfirst, hlast⟩ := List.forall_mem_append.mp hends
  have hkept : writtenAll inner = inner :=
    writtenAll_of_tidy inner hinner fun hmem => hsentinel (by simp [printAll_append, hmem])
  rw [writtenAll_append, writtenAll_append, printAll_append, printAll_append, printAll_append,
    printAll_append, hkept,
    Text.strip_append_of_blank (blank_of_spaces hfirst).2 (blank_of_spaces hlast).2,
    Text.strip_append_of_blank (blank_of_spaces hfirst).1 (blank_of_spaces hlast).1]

/-- Blank content is written back as blank content. -/
theorem blank_writtenAll {cs : List Content} (h : ∀ c ∈ printAll cs, c.isBlank = true) :
    ∀ c ∈ printAll (writtenAll cs), c.isBlank = true := by
  induction cs with
  | nil => exact fun _ hc => absurd hc List.not_mem_nil
  | cons c cs ih =>
    obtain ⟨hc, hcs⟩ := List.forall_mem_append.mp h
    refine List.forall_mem_append.mpr ⟨?_, ih hcs⟩
    cases c with
    | text t =>
      by_cases hspace : IsSpace t
      · exact isBlank_of_isSpace (isSpace_shrink hspace false)
      · rw [writtenContent, Content.print, shrink_of_not_isSpace hspace]
        exact hc
    | void name attributes =>
      exact absurd (hc (CodePoint.ofChar '<') (by simp [Content.print, printStartTag, Text.ofChar]))
        (by decide)
    | element name attributes children =>
      exact absurd (hc (CodePoint.ofChar '<') (by simp [Content.print, printStartTag, Text.ofChar]))
        (by decide)

/-- What scanning a marked paragraph yields first is a candidate on its line. Its message is the
content as it is written back, without blanks at the ends. This is the content of the source where
that is tidy but for its ends, and a blank content brings no message. -/
theorem msgid_markedParagraph (s : Setting) (file : Text) (offset : Int) {cs : List Content}
    (h : AllWellFormed cs) (hsentinel : sentinel ∉ printAll cs) :
    ∃ message, scan s file offset (markedParagraph cs) = .candidate message ::
        (elementsOfNodes (lineCount (markedParagraph cs)) (nodesOf 1 (protectAll cs))).flatMap
          (fun e => e.events s file offset (scan s file)) ∧
      message.reference = ⟨file, some (1 + offset)⟩ ∧
      message.msgid = Text.strip (printAll (writtenAll cs)) ∧
      (TidyWithin cs → message.msgid = Text.strip (printAll cs)) ∧
      (Text.strip (printAll cs) = [] →
        ∀ catalog : Catalog, catalog.add message = (catalog, none)) := by
  refine ⟨_, scan_markedParagraph s file offset h hsentinel, rfl, rfl,
    fun htidy => strip_printAll_writtenAll htidy hsentinel, fun hblank catalog => ?_⟩
  exact Catalog.add_of_blank
    (Text.strip_of_blank (blank_writtenAll (Text.blank_of_strip_eq_nil hblank)))

/-- A word in bold between two texts with entities. -/
def boldWord : List Content :=
  [.text "Fish &amp; ", .element "b" [⟨"class", "x"⟩, ⟨"title", "a&b"⟩] [.text "chips"],
    .void "br" [], .text "\n\n"]

/-- White space at the end and entities anywhere do not matter. -/
theorem msgid_boldWord :
    ∃ message events, scan doubleBraces "t.html" 0 (markedParagraph boldWord) =
        .candidate message :: events ∧
      message.msgid = Text.ofString "Fish &amp; <b class=\"x\" title=\"a&b\">chips</b><br>" := by
  have hwell : AllWellFormed boldWord := by decide +kernel
  have hsentinel : sentinel ∉ printAll boldWord := by decide +kernel
  have htidy : TidyWithin boldWord := by
    refine ⟨[], boldWord.take 3, boldWord.drop 3, rfl, by decide +kernel, fun c hc => ?_⟩
    obtain rfl := List.mem_singleton.mp hc
    exact ⟨_, rfl, by decide⟩
  obtain ⟨message, hscan, -, -, hmsgid, -⟩ :=
    msgid_markedParagraph doubleBraces "t.html" 0 hwell hsentinel
  refine ⟨message, _, hscan, ?_⟩
  rw [hmsgid htidy]
  decide +kernel

/-- A link whose attributes are not in the order of their names. -/
def unsortedLink : List Content :=
  [.element "a" [⟨"title", "x"⟩, ⟨"href", "y"⟩] [.text "z"]]

/-- Two things that are out of order change places. -/
theorem mergeSort_pair {α : Type} {le : α → α → Bool} {a b : α} (h : le a b = false) :
    [a, b].mergeSort le = [b, a] := by
  simp [List.mergeSort, List.MergeSort.Internal.splitInTwo, h]

/-- The attributes of a link are written back in the order of their names. -/
theorem scan_unsortedLink :
    markedParagraph unsortedLink =
      Text.ofString "<p translate><a title=\"x\" href=\"y\">z</a></p>" ∧
    Text.strip (printAll unsortedLink) = Text.ofString "<a title=\"x\" href=\"y\">z</a>" ∧
    scan doubleBraces "t.html" 0 (markedParagraph unsortedLink) =
      [plainCandidate "t.html" 1 "<a href=\"y\" title=\"x\">z</a>"] := by
  have hwell : AllWellFormed unsortedLink := by decide +kernel
  have hsentinel : sentinel ∉ printAll unsortedLink := by decide +kernel
  have hsorted : writtenAttributes "a" [⟨"title", "x"⟩, ⟨"href", "y"⟩] =
      [⟨"href", "y"⟩, ⟨"title", "x"⟩] := by
    rw [writtenAttributes, mergeSort_pair (by decide)]
    decide +kernel
  have hwritten : printAll (writtenAll unsortedLink) =
      Text.ofString "<a href=\"y\" title=\"x\">z</a>" := by
    simp only [unsortedLink, writtenAll, writtenContent, hsorted]
    decide +kernel
  refine ⟨by decide +kernel, by decide +kernel, ?_⟩
  rw [scan_markedParagraph doubleBraces "t.html" 0 hwell hsentinel, hwritten]
  refine congrArg (plainCandidate "t.html" 1 _ :: ·) ?_
  decide +kernel

end MessageExtraction.Template
