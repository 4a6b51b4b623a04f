import MessageExtraction.Proofs.Markup.Content

/-!
# Elements whose content is a text

An element whose content is a text without markup is read into that text and nothing else, whether
the content of the element is raw or not. The tree keeps the text as it is unless it is white space
that shrinks, and it keeps no empty text.

## Main definitions

* `Markup.printText` -- an element with a text, written plainly.
* `Markup.keptTexts` -- what the tree keeps of the text.

## Main results

* `parse?_printText` -- the tree of an element with a text.
-/

namespace MessageExtraction.Markup

/-- An element whose content is a text as it is written plainly. -/
def printText (name : Text) (attributes : List Attribute) (t : Text) : Text :=
  printStartTag name attributes ++ t ++ writeEndTag name

/-- The events of a text, which are none if it is empty. -/
def textOrNothing (t : Text) : List Event :=
  if t.isEmpty then [] else [.text t]

/-- What the tree keeps of a text in an element. -/
def keptTexts (name t : Text) : List Node :=
  if t.isEmpty then [] else [.text (shrink (preservingNames.contains name) t)]

/-! ## Reading -/

section

variable {name t : Text} {attributes : List Attribute}

/-- A text and an end tag are read into the text and the end of the element. -/
theorem readFrom?_text_endTag (hname : IsTagName name) (ht : ∀ c ∈ t, c.is '<' = false)
    (line : Nat) : readFrom? none line (t ++ writeEndTag name) =
      some (textOrNothing t ++ [.endTag name]) := by
  have hend (line : Nat) : readFrom? none line (writeEndTag name) = some [.endTag name] := by
    have hread := readFrom?_endTag hname line []
    rw [List.append_nil, readFrom?] at hread
    exact hread
  cases t with
  | nil => exact hend line
  | cons c t =>
    have hmarkup : writeEndTag name = CodePoint.ofChar '<' :: (writeEndTag name).drop 1 := rfl
    have hread := readFrom?_text (List.cons_ne_nil c t) ht line ((writeEndTag name).drop 1)
    rw [← hmarkup, hend] at hread
    exact hread

/-- What is not found at the code points of a text is found after them. -/
theorem search_append {pattern : Text → Option Nat}
    (h : ∀ c ∈ t, ∀ u, pattern (c :: u) = none) (rest : Text) :
    search pattern (t ++ rest) = (search pattern rest).map fun (i, n) => (i + t.length, n) := by
  induction t with
  | nil => exact (Option.map_id_fun' .. ▸ rfl)
  | cons c t ih =>
    rw [List.cons_append, search, h c (List.mem_cons_self ..),
      ih fun d hd => h d (List.mem_cons_of_mem c hd)]
    dsimp only
    rw [Option.map_map]
    rfl

/-- The end of a raw element begins with a `<`. -/
theorem endsRaw_of_ne_lt {c : CodePoint} (h : c.is '<' = false) (name u : Text) :
    endsRaw name (c :: u) = false := by
  have hne : CodePoint.ofChar '<' ≠ c := by
    rintro rfl
    cases h
  rw [endsRaw, Text.after?, if_neg hne]

/-- The end tag of a raw element is its end. -/
theorem readNext_rawEndTag (hraw : name ∈ rawNames) (line : Nat) :
    endsRaw name (writeEndTag name) = true ∧ readNext (some name) line (writeEndTag name) =
      .events [.endTag name] (writeEndTag name).length none := by
  simp only [rawNames, List.map_cons, List.map_nil, List.mem_cons, List.not_mem_nil, or_false]
    at hraw
  rcases hraw with rfl | rfl
  · exact ⟨rfl, rfl⟩
  · exact ⟨rfl, rfl⟩

/-- The end of the content of a raw element is found at its end tag. -/
theorem search_endsRaw (hraw : name ∈ rawNames) (ht : ∀ c ∈ t, c.is '<' = false) :
    search (fun u => if endsRaw name u then some 1 else none) (t ++ writeEndTag name) =
      some (t.length, 1) := by
  have hmarkup : writeEndTag name = CodePoint.ofChar '<' :: (writeEndTag name).drop 1 := rfl
  have hend : search (fun u => if endsRaw name u then some 1 else none) (writeEndTag name) =
      some (0, 1) := by
    rw [hmarkup, search, ← hmarkup, (readNext_rawEndTag hraw 1).1, if_pos rfl]
  have hnone : ∀ c ∈ t, ∀ u, (if endsRaw name (c :: u) then some 1 else none) = none :=
    fun c hc u => by rw [endsRaw_of_ne_lt (ht c hc), if_neg Bool.false_ne_true]
  rw [search_append hnone, hend, Option.map_some]
  exact congrArg (fun n => some (n, 1)) (Nat.zero_add _)

/-- Raw text is read as a text. -/
theorem readNext_rawText (hraw : name ∈ rawNames) (hne : t ≠ []) (ht : ∀ c ∈ t, c.is '<' = false)
    (line : Nat) : readNext (some name) line (t ++ writeEndTag name) =
      .events [.text t] t.length (some name) := by
  obtain ⟨n, hn⟩ := Nat.exists_eq_succ_of_ne_zero (mt List.length_eq_zero_iff.mp hne)
  have htake : (t ++ writeEndTag name).take (n + 1) = t := List.take_left' hn
  rw [readNext, search_endsRaw hraw ht, Option.map_some, hn]
  exact congrArg (fun u => Piece.events [.text u] (n + 1) (some name)) htake

/-- Raw text and an end tag are read into the text and the end of the element. -/
theorem readFrom?_rawText_endTag (hraw : name ∈ rawNames) (ht : ∀ c ∈ t, c.is '<' = false)
    (line : Nat) : readFrom? (some name) line (t ++ writeEndTag name) =
      some (textOrNothing t ++ [.endTag name]) := by
  have hend (line : Nat) : readFrom? (some name) line (writeEndTag name) = some [.endTag name] := by
    have hnext : readNext (some name) line (writeEndTag name ++ []) =
        .events [.endTag name] (writeEndTag name).length none := by
      rw [List.append_nil]
      exact (readNext_rawEndTag hraw line).2
    have hread := readFrom?_append (List.cons_ne_nil _ _) hnext
    rw [List.append_nil, readFrom?] at hread
    exact hread
  cases t with
  | nil => exact hend line
  | cons c t =>
    have hne := List.cons_ne_nil c t
    rw [readFrom?_append hne (readNext_rawText hraw hne ht line), hend]
    rfl

/-! ## Building -/

namespace Builder

/-- What is added by a text is kept as a text unless it is empty. -/
theorem adds_textOrNothing {b : Builder} (hpending : b.pending = [])
    (hpassed : ∀ n ∈ b.passedOver, n ∈ voidNames) (t : Text) :
    b.Adds (if t.isEmpty then [] else [.text (shrink b.preserves t)])
      ((textOrNothing t).foldl add b) := by
  rw [textOrNothing]
  split
  · exact ⟨rfl, hpassed⟩
  · next hne => exact adds_text hpending hpassed (mt List.isEmpty_iff.mpr hne)

/-- The events of an element with a text build the element. -/
theorem build_text (hvoid : name ∉ voidNames) (hdistinct : (attributes.map Attribute.name).Nodup) :
    build (.startTag ⟨name, attributes, false⟩ 1 :: (textOrNothing t ++ [.endTag name])) =
      [.element name attributes 1 (keptTexts name t)] := by
  have hopened := add_startTag_of_not_void (b := {}) hvoid hdistinct 1
  have hpreserves : (({} : Builder).add (.startTag ⟨name, attributes, false⟩ 1)).preserves =
      preservingNames.contains name := by
    rw [hopened]
    exact Bool.or_false _
  have hinner := adds_textOrNothing
    (b := ({} : Builder).add (.startTag ⟨name, attributes, false⟩ 1)) (by rw [hopened]; rfl)
    (by rw [hopened]; exact fun _ hn => absurd hn List.not_mem_nil) t
  rw [hpreserves] at hinner
  rw [build, List.foldl_cons, List.foldl_append]
  exact finish_of_adds (adds_element hvoid hdistinct hinner).1

end Builder

/-- An element with a text is read into its tree. -/
theorem parse?_printText (hname : IsTagName name) (hattributes : ArePlain attributes)
    (hvoid : name ∉ voidNames) (ht : ∀ c ∈ t, c.is '<' = false) :
    parse? (printText name attributes t) =
      some [.element name attributes 1 (keptTexts name t)] := by
  have hread : read? (printText name attributes t) =
      some (.startTag ⟨name, attributes, false⟩ 1 :: (textOrNothing t ++ [.endTag name])) := by
    rw [read?, printText, List.append_assoc, readFrom?_anyStartTag hname hattributes.isPlain]
    by_cases hraw : name ∈ rawNames
    · rw [if_pos hraw, readFrom?_rawText_endTag hraw ht]
      rfl
    · rw [if_neg hraw, readFrom?_text_endTag hname ht]
      rfl
  rw [parse?, hread, Option.map_some, Builder.build_text hvoid hattributes.distinct]

end

end MessageExtraction.Markup
