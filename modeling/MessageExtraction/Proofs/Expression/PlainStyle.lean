import MessageExtraction.Proofs.Expression.Printing
import MessageExtraction.Proofs.Text.DigitRows

/-!
# A style that keeps every decimal

The numeral of a decimal is its coefficient with its exponent, `15e-1` for one
and a half, so that the very same decimal is read back. Strings stand between
double quotation marks, with a backslash only where one is needed.

## Main definitions

* `Decimal.numeral` -- the coefficient and the exponent.
* `Style.plain` -- the style.

## Main statements

* `Decimal.scan_numeral` -- a numeral is read back as its decimal.
-/

namespace MessageExtraction

namespace Decimal

/-! ## Rows of digits -/

theorem takeWhile_ofNat_append (n : Nat) {t : Text}
    (h : t.takeWhile CodePoint.isDecimalDigit = []) :
    (Text.ofNat n ++ t).takeWhile CodePoint.isDecimalDigit = Text.ofNat n := by
  rw [List.takeWhile_append_of_pos fun _ => isDecimalDigit_of_mem_ofNat, h, List.append_nil]

theorem takeWhile_ofNat (n : Nat) :
    (Text.ofNat n).takeWhile CodePoint.isDecimalDigit = Text.ofNat n := by
  have h := takeWhile_ofNat_append n (t := []) rfl
  rwa [List.append_nil] at h

/-! ## Numerals -/

/-- The numeral of a decimal: its coefficient with its exponent. -/
def numeral (d : Decimal) : Text :=
  Text.ofNat d.coefficient ++ CodePoint.ofChar 'e' :: Text.ofInt d.exponent

/-- The signs at the start of digits. -/
theorem takeWhile_sign_ofNat (n : Nat) :
    ((Text.ofNat n).takeWhile fun c => c.isAny ['+', '-']) = [] := by
  obtain ⟨c, t, ht, hdigit⟩ := exists_ofNat n
  have hsign : c.isAny ['+', '-'] = false := by
    refine Bool.eq_false_iff.mpr fun hc => ?_
    simp only [CodePoint.isAny, List.any_cons, List.any_nil, Bool.or_false, Bool.or_eq_true] at hc
    rcases hc with hc | hc <;>
      · rw [CodePoint.is_iff.mp hc] at hdigit
        cases hdigit
  rw [ht, List.takeWhile_cons, hsign]
  rfl

theorem scanExponent_ofInt (k : Int) :
    scanExponent (CodePoint.ofChar 'e' :: Text.ofInt k) = (k, (Text.ofInt k).length + 1) := by
  have he : (CodePoint.ofChar 'e').isAny ['e', 'E'] = true := rfl
  cases k with
  | ofNat n =>
    simp only [scanExponent, he, if_true, Text.ofInt, takeWhile_sign_ofNat, List.length_nil,
      List.drop_zero, takeWhile_ofNat, isEmpty_ofNat, digitsValue_ofNat]
    simp [Nat.add_comm]
  | negSucc n =>
    have hminus : (CodePoint.ofChar '-').isAny ['+', '-'] = true := rfl
    have his : (CodePoint.ofChar '-').is '-' = true := rfl
    have hlength : 1 + 1 + (Text.ofNat (n + 1)).length = (Text.ofNat (n + 1)).length + 1 + 1 := by
      omega
    simp only [scanExponent, he, if_true, Text.ofInt, List.takeWhile_cons, hminus,
      takeWhile_sign_ofNat, List.length_cons, List.length_nil, List.drop_succ_cons, List.drop_zero,
      takeWhile_ofNat, isEmpty_ofNat, digitsValue_ofNat]
    simp [his, Int.negSucc_eq, ← hlength]

/-- A numeral is read back as its decimal. -/
theorem scan_numeral (d : Decimal) : scan d.numeral = some (d, d.numeral.length) := by
  have hwhole : d.numeral.takeWhile CodePoint.isDecimalDigit = Text.ofNat d.coefficient :=
    takeWhile_ofNat_append _ rfl
  have hdrop : d.numeral.drop (Text.ofNat d.coefficient).length =
      CodePoint.ofChar 'e' :: Text.ofInt d.exponent := List.drop_left
  have hfraction : scanFraction (CodePoint.ofChar 'e' :: Text.ofInt d.exponent) = ([], 0) := rfl
  simp only [scan, hwhole, hdrop, hfraction, isEmpty_ofNat, Bool.false_and, Nat.add_zero,
    scanExponent_ofInt, List.append_nil, digitsValue_ofNat, List.length_nil]
  simp [numeral]

end Decimal

namespace Expression

/-- Every decimal by its coefficient and exponent, every string between double quotation marks. -/
def Style.plain : Style where
  numeral := Decimal.numeral
  value := id
  scan_numeral := Decimal.scan_numeral
  bits_value _ := rfl
  mark _ := CodePoint.ofChar '\x22'
  isMark _ := .inr rfl
  body := escape (CodePoint.ofChar '\x22')
  quotes_body := quotes_escape (.inr rfl)
  spacesBefore := 1
  spacesAfter := 1

end Expression

end MessageExtraction
