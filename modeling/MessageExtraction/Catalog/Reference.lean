import MessageExtraction.Text.Digit

/-!
# References

A reference says in which file a message stands, and on which line when the
line is known. In text a colon joins the two. The text is split at its last
colon, if digits and nothing else follow it and a file name precedes it.

## Main definitions

* `Reference` -- a file and an optional line.
* `Reference.render` -- the text of a reference.
* `Reference.split` -- the file and the line in the text of a reference.

## Main results

* `Reference.mem_render_iff` -- what the text of a reference holds besides the file.
* `Reference.joinParts_split` -- splitting a text and joining its parts gives it back.
-/

namespace MessageExtraction

/-- Where a message stands. -/
structure Reference where
  file : Text
  line : Option Int
deriving DecidableEq

namespace Reference

/-- The text of a reference, with or without its line. -/
def render (lineNumbers : Bool) (r : Reference) : Text :=
  match r.line with
  | some line => if lineNumbers then r.file ++ Text.ofChar ':' ++ Text.ofInt line else r.file
  | none => r.file

/-- A line adds a colon, digits and perhaps a minus sign to the file. -/
theorem mem_render_iff {c : CodePoint} (hdigit : c.isAsciiDigit = false) (hcolon : c ≠ ':')
    (hminus : c ≠ '-') (lineNumbers : Bool) (r : Reference) :
    c ∈ r.render lineNumbers ↔ c ∈ r.file := by
  rw [render]
  split
  · split
    · next line _ _ =>
      have hline : c ∉ Text.ofInt line := Text.not_mem_ofInt hdigit hminus line
      simp [Text.ofChar, hcolon, hline]
    · rfl
  · rfl

/-- What stands before and after the last colon of a text. -/
def splitLastColon? (t : Text) : Option (Text × Text) :=
  let tail := t.reverse.takeWhile fun c => !c.is ':'
  if tail.length = t.length then none
  else some (t.take (t.length - tail.length - 1), tail.reverse)

/-- The file and the digits of the line in the text of a reference. -/
def split (t : Text) : Text × Text :=
  match splitLastColon? t with
  | some (file, line) =>
    if !file.isEmpty && !line.isEmpty && line.all CodePoint.isDigit then (file, line) else (t, [])
  | none => (t, [])

/-- The text of a file and the digits of a line. -/
def joinParts (file line : Text) : Text :=
  if line.isEmpty then file else file ++ Text.ofChar ':' ++ line

theorem eq_of_splitLastColon? {t file line : Text} (h : splitLastColon? t = some (file, line)) :
    t = file ++ Text.ofChar ':' ++ line := by
  have hparts := List.takeWhile_append_dropWhile (p := fun c : CodePoint => !c.is ':')
    (l := t.reverse)
  rw [splitLastColon?] at h
  generalize t.reverse.takeWhile (fun c => !c.is ':') = tail at h hparts
  cases hrest : t.reverse.dropWhile fun c => !c.is ':' with
  | nil =>
    rw [hrest, List.append_nil] at hparts
    rw [if_pos (by rw [hparts, List.length_reverse])] at h
    cases h
  | cons c before =>
    have hcolon : c.is ':' = true := by
      have hhead := List.head_dropWhile_not (fun c : CodePoint => !c.is ':')
        (hrest ▸ List.cons_ne_nil c before)
      simpa only [hrest, List.head_cons, Bool.not_eq_false'] using hhead
    have ht : t = before.reverse ++ (c :: tail.reverse) := by
      rw [hrest] at hparts
      simpa using (congrArg List.reverse hparts).symm
    have hlength : t.length = before.length + (tail.length + 1) := by
      rw [ht]
      simp
    rw [if_neg (by omega)] at h
    obtain ⟨rfl, rfl⟩ := Prod.mk.inj (Option.some.inj h)
    have hfile : t.take (t.length - tail.length - 1) = before.reverse := by
      rw [ht]
      exact List.take_left' (by rw [← ht, List.length_reverse]; omega)
    rw [hfile, Text.ofChar, ← CodePoint.is_iff.mp hcolon, ht]
    simp

/-- Splitting a text and joining its parts gives it back. -/
theorem joinParts_split (t : Text) : joinParts (split t).1 (split t).2 = t := by
  rw [split]
  split
  · next file line h =>
    split
    · next hparts =>
      simp only [Bool.and_eq_true, Bool.not_eq_true'] at hparts
      rw [joinParts, hparts.1.2, if_neg (by simp), eq_of_splitLastColon? h]
    · rfl
  · rfl

end Reference

end MessageExtraction
