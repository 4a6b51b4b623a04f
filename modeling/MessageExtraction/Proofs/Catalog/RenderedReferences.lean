import Mathlib.Data.Set.Function
import MessageExtraction.Catalog.Reference
import MessageExtraction.Proofs.Text.DigitRows

/-!
# References and their texts

The digits of a line hold no colon, so the last colon of the text of a reference is the one before its
line, whatever colons and digits stand in the name of the file. Splitting the text gives back the file
and the digits, and references with lines have different texts.

## Main definitions

* `Reference.IsPlaced` -- a reference has a file name and a line.

## Main results

* `Reference.split_eq_iff` -- which texts are split.
* `Reference.file_eq_of_render_eq` -- references of different files have different texts.
* `Reference.split_render_joinParts` -- a reference is read back from its text, and a text from its
  parts.
-/

namespace MessageExtraction

namespace Reference

variable {t file line : Text}

/-- A reference has a file name and a line. -/
def IsPlaced (r : Reference) : Prop :=
  r.file ≠ [] ∧ ∃ n : Nat, r.line = some (n : Int)

/-! ## The last colon -/

/-- A text without a colon is what follows the last colon of a text that it ends. -/
theorem splitLastColon?_append (file : Text) (h : CodePoint.ofChar ':' ∉ line) :
    splitLastColon? (file ++ Text.ofChar ':' ++ line) = some (file, line) := by
  have htail : ((file ++ Text.ofChar ':' ++ line).reverse.takeWhile fun c => !c.is ':') =
      line.reverse := by
    rw [List.reverse_append, List.takeWhile_append_of_pos]
    · rw [List.reverse_append]
      exact List.append_nil _
    · intro c hc
      rw [Bool.not_eq_true', ← Bool.not_eq_true, CodePoint.is_iff]
      rintro rfl
      exact h (List.mem_reverse.mp hc)
  have hlength : (file ++ Text.ofChar ':' ++ line).length = file.length + line.length + 1 := by
    simp only [List.length_append, Text.ofChar, List.length_singleton]
    omega
  rw [splitLastColon?, htail, List.length_reverse, hlength, if_neg (by omega), List.reverse_reverse,
    List.append_assoc, List.take_left' (by omega)]

theorem colon_not_mem_of_all_isDigit (h : line.all CodePoint.isDigit = true) :
    CodePoint.ofChar ':' ∉ line := by
  intro hmem
  have hcolon : CodePoint.isDigit (CodePoint.ofChar ':') = true := List.all_eq_true.mp h _ hmem
  revert hcolon
  decide

theorem all_isDigit_ofNat (n : Nat) : (Text.ofNat n).all CodePoint.isDigit = true := by
  refine List.all_eq_true.mpr fun c hc => ?_
  rw [CodePoint.isDigit, Decimal.isDecimalDigit_of_mem_ofNat hc, Bool.true_or]

/-- A text is split into a file and a line exactly if a colon joins them in it, the line is made of
digits and neither is empty. -/
theorem split_eq_iff (hline : line ≠ []) :
    split t = (file, line) ↔
      t = file ++ Text.ofChar ':' ++ line ∧ file ≠ [] ∧ line.all CodePoint.isDigit = true := by
  constructor
  · intro h
    rw [split] at h
    split at h
    · next file' line' hparts =>
      split at h
      · next hdigits =>
        cases h
        simp only [Bool.and_eq_true, Bool.not_eq_true', List.isEmpty_eq_false_iff] at hdigits
        exact ⟨eq_of_splitLastColon? hparts, hdigits.1.1, hdigits.2⟩
      · exact absurd (congrArg Prod.snd h).symm hline
    · exact absurd (congrArg Prod.snd h).symm hline
  · rintro ⟨rfl, hfile, hdigits⟩
    rw [split, splitLastColon?_append file (colon_not_mem_of_all_isDigit hdigits)]
    simp [hfile, hline, hdigits]

/-! ## Texts of references -/

theorem colon_not_mem_ofInt (n : Int) : CodePoint.ofChar ':' ∉ Text.ofInt n :=
  Text.not_mem_ofInt (by decide) (by decide) n

/-- References with lines in different files have different texts. -/
theorem file_eq_of_render_eq {lineNumbers : Bool} {file' : Text} {m n : Int}
    (h : render lineNumbers ⟨file, some m⟩ = render lineNumbers ⟨file', some n⟩) : file = file' := by
  cases lineNumbers with
  | false => exact h
  | true =>
    have hsplit := congrArg splitLastColon? h
    change splitLastColon? (file ++ Text.ofChar ':' ++ Text.ofInt m) =
      splitLastColon? (file' ++ Text.ofChar ':' ++ Text.ofInt n) at hsplit
    rw [splitLastColon?_append file (colon_not_mem_ofInt m),
      splitLastColon?_append file' (colon_not_mem_ofInt n)] at hsplit
    exact (Prod.mk.inj (Option.some.inj hsplit)).1

/-- A reference is split into its file and the digits of its line. -/
theorem split_render (hfile : file ≠ []) (n : Nat) :
    split (render true ⟨file, some (n : Int)⟩) = (file, Text.ofNat n) :=
  (split_eq_iff (List.isEmpty_eq_false_iff.mp (Decimal.isEmpty_ofNat n))).mpr
    ⟨rfl, hfile, all_isDigit_ofNat n⟩

/-- References that have a file name and a line are told apart by their texts. -/
theorem injOn_render : Set.InjOn (render true) { r | r.IsPlaced } := by
  rintro ⟨file, _⟩ ⟨hfile, m, rfl⟩ ⟨file', _⟩ ⟨hfile', n, rfl⟩ h
  have hparts : (file, Text.ofNat m) = (file', Text.ofNat n) := by
    rw [← split_render hfile m, ← split_render hfile' n, h]
  obtain ⟨rfl, hline⟩ := Prod.mk.inj hparts
  rw [Decimal.ofNat_injective hline]

/-- The text of a reference that has a file name and a line is split into the two, so that no other
such reference has this text. A text is made of the parts that it is split into. -/
theorem split_render_joinParts :
    (∀ (file : Text) (n : Nat), file ≠ [] →
      split (render true ⟨file, some (n : Int)⟩) = (file, Text.ofNat n)) ∧
    Set.InjOn (render true) { r | r.IsPlaced } ∧
    ∀ t : Text, joinParts (split t).1 (split t).2 = t :=
  ⟨fun _ n hfile => split_render hfile n, injOn_render, joinParts_split⟩

/-- A file name that ends like a reference is not taken for one. -/
theorem split_render_fileWithDigits :
    Text.ofString "a.js:12" ≠ [] ∧
      split (render true ⟨"a.js:12", some (3 : Nat)⟩) =
        (Text.ofString "a.js:12", Text.ofString "3") := by
  have hfile : Text.ofString "a.js:12" ≠ [] := by decide
  exact ⟨hfile, split_render_joinParts.1 _ 3 hfile⟩

-- digits of any script are split off, and a text without a file is left whole
example : split "a.js:٣" = (Text.ofString "a.js", Text.ofString "٣") ∧
    split ":3" = (Text.ofString ":3", []) := by
  decide +kernel

end Reference

end MessageExtraction
