import MessageExtraction.Expression.Decimal

/-!
# Rows of digits

The digits of a number are a row of decimal digits that is not empty, and the number is read back
from it. So different numbers have different digits.

## Main results

* `Decimal.isDecimalDigit_of_mem_ofNat` -- a number is written in decimal digits.
* `Decimal.digitsValue_ofNat` -- a number is read back from its digits.
* `Decimal.ofNat_injective` -- different numbers have different digits.
-/

namespace MessageExtraction.Decimal

theorem digit?_ofChar {ch : Char} (h : ch.isDigit) :
    (CodePoint.ofChar ch).digit? = some (ch.toNat - '0'.toNat) := by
  have hrange : 48 ≤ ch.toNat ∧ ch.toNat < 48 + 10 := by
    simp only [Char.isDigit, ge_iff_le, Bool.and_eq_true, decide_eq_true_eq,
      UInt32.le_iff_toNat_le] at h
    exact ⟨h.1, Nat.lt_succ_of_le h.2⟩
  simp [CodePoint.digit?, CodePoint.digitZeros, CodePoint.ofChar, hrange]

theorem isDecimalDigit_of_mem_ofNat {n : Nat} {c : CodePoint} (h : c ∈ Text.ofNat n) :
    c.isDecimalDigit := by
  obtain ⟨ch, hch, rfl⟩ := List.mem_map.mp h
  have hdigit : ch.isDigit := Nat.isDigit_of_mem_toDigits (by decide) (by decide) hch
  rw [CodePoint.isDecimalDigit, digit?_ofChar hdigit]
  rfl

/-- A row of ASCII digits is read as the number that it denotes in base ten. -/
theorem foldl_map_ofChar {chars : List Char} (h : ∀ ch ∈ chars, ch.isDigit) (init : Nat) :
    (chars.map CodePoint.ofChar).foldl (fun n c => 10 * n + c.digit?.getD 0) init =
      Nat.ofDigitChars 10 chars init := by
  induction chars generalizing init with
  | nil => rfl
  | cons ch chars ih =>
    obtain ⟨hch, hchars⟩ := List.forall_mem_cons.mp h
    rw [List.map_cons, List.foldl_cons, digit?_ofChar hch, ih hchars, Nat.ofDigitChars_cons]
    rfl

/-- The digits of a number denote it. -/
theorem digitsValue_ofNat (n : Nat) : digitsValue (Text.ofNat n) = n := by
  have hdigits : ∀ ch ∈ Nat.toDigits 10 n, ch.isDigit :=
    fun _ hch => Nat.isDigit_of_mem_toDigits (by decide) (by decide) hch
  rw [digitsValue, Text.ofNat, foldl_map_ofChar hdigits, Nat.ofDigitChars_ten_toDigits]

/-- Different numbers have different digits. -/
theorem ofNat_injective {m n : Nat} (h : Text.ofNat m = Text.ofNat n) : m = n := by
  rw [← digitsValue_ofNat m, h, digitsValue_ofNat]

/-- The digits of a number begin with one. -/
theorem exists_ofNat (n : Nat) : ∃ c t, Text.ofNat n = c :: t ∧ c.isDecimalDigit := by
  have hne : Text.ofNat n ≠ [] := fun h => Nat.toDigits_ne_nil (List.map_eq_nil_iff.mp h)
  obtain ⟨c, t, ht⟩ := List.exists_cons_of_ne_nil hne
  exact ⟨c, t, ht, isDecimalDigit_of_mem_ofNat (by rw [ht]; exact List.mem_cons_self)⟩

theorem isEmpty_ofNat (n : Nat) : (Text.ofNat n).isEmpty = false := by
  obtain ⟨c, t, ht, -⟩ := exists_ofNat n
  rw [ht]
  rfl

end MessageExtraction.Decimal
