import Mathlib.Algebra.Group.Nat.Defs
import Mathlib.Data.List.Basic
import Mathlib.Data.List.TakeWhile
import MessageExtraction.Proofs.Failing
import MessageExtraction.Script.Literal

/-!
# Escapes without a value

A literal is cut into fragments, and each of them has a value, with one exception: an escape between
braces whose number lies beyond the last code point. A number of fixed length cannot lie there.

## Main definitions

* `Script.hexNumber` -- the number that hexadecimal digits stand for.
* `Script.OutOfRange` -- an escape between braces beyond the last code point.
* `Script.FaultyLiteral` -- a literal with such an escape.

## Main results

* `fails_fragmentValue_iff` -- which fragments have no value.
* `fails_literalValue_iff` -- which literals have no value.
-/

namespace MessageExtraction

namespace Script

/-- All code points of a text are hexadecimal digits. -/
def AreHexDigits (digits : Text) : Prop :=
  ∀ c ∈ digits, c.hexValue?.isSome = true

instance : DecidablePred AreHexDigits :=
  fun digits => inferInstanceAs (Decidable (∀ c ∈ digits, c.hexValue?.isSome = true))

/-- The number that hexadecimal digits stand for after others. -/
def hexNumberFrom (value : Nat) (digits : Text) : Nat :=
  digits.foldl (fun value c => 16 * value + c.hexValue?.getD 0) value

/-- The number that hexadecimal digits stand for. -/
def hexNumber (digits : Text) : Nat :=
  hexNumberFrom 0 digits

/-- A fragment is an escape between braces whose number lies beyond the last code point. -/
def OutOfRange (fragment : Text) : Prop :=
  ∃ digits, fragment = Text.ofString "\\u\x7b" ++ digits ++ Text.ofChar '\x7d' ∧ digits ≠ [] ∧
    AreHexDigits digits ∧ 0x110000 ≤ hexNumber digits

/-- A string literal with an escape whose number lies beyond the last code point. -/
def FaultyLiteral (literal : Text) : Prop :=
  ∃ fragment ∈ fragments (literal.drop 1).dropLast, OutOfRange fragment

/-! ## Hexadecimal digits -/

theorem hexValue?_eq_some {c : CodePoint} {n : Nat} (h : c.hexValue? = some n) :
    n < 16 ∧ (48 ≤ c.val ∧ c.val ≤ 57 ∨ 97 ≤ c.val ∧ c.val ≤ 102 ∨ 65 ≤ c.val ∧ c.val ≤ 70) := by
  simp only [CodePoint.hexValue?, CodePoint.between, Bool.and_eq_true, decide_eq_true_eq,
    Char.reduceToNat] at h
  repeat' split at h
  all_goals first | cases h; done | (have hn := Option.some.inj h; omega)

theorem is_eq_false_of_isHexDigit {c : CodePoint} {ch : Char} (h : c.hexValue?.isSome = true)
    (hch : (CodePoint.ofChar ch).hexValue? = none) : c.is ch = false := by
  rw [← Bool.not_eq_true, CodePoint.is_iff]
  rintro rfl
  rw [hch] at h
  cases h

theorem plainDigit_of_isHexDigit {c : CodePoint} (h : c.hexValue?.isSome = true) :
    plainDigit c = c := by
  obtain ⟨n, hn⟩ := Option.isSome_iff_exists.mp h
  have hrange := (hexValue?_eq_some hn).2
  rw [plainDigit, if_pos (by omega)]

theorem not_space_of_isHexDigit {c : CodePoint} (h : c.hexValue?.isSome = true) :
    (c.between '\t' '\r' || c.is ' ') = false := by
  obtain ⟨n, hn⟩ := Option.isSome_iff_exists.mp h
  have hrange := (hexValue?_eq_some hn).2
  rw [is_eq_false_of_isHexDigit h (by decide), Bool.or_false, ← Bool.not_eq_true]
  simp only [CodePoint.between, Bool.and_eq_true, decide_eq_true_eq, Char.reduceToNat]
  omega

theorem stripWhile_eq_self {p : CodePoint → Bool} {t : Text} (h : ∀ c ∈ t, p c = false) :
    Text.stripWhile p t = t := by
  have hkept {u : Text} (hu : ∀ c ∈ u, p c = false) : u.dropWhile p = u :=
    List.dropWhile_eq_self_iff.mpr fun hpos => by simp [hu _ (List.getElem_mem hpos)]
  rw [Text.stripWhile, hkept h, Text.dropEndWhile,
    hkept fun c hc => h c (List.mem_reverse.mp hc), List.reverse_reverse]

theorem hexNumberFrom_cons {value n : Nat} {c : CodePoint} (hn : c.hexValue? = some n) (t : Text) :
    hexNumberFrom value (c :: t) = hexNumberFrom (16 * value + n) t := by
  rw [hexNumberFrom, List.foldl_cons, hn, Option.getD_some, hexNumberFrom]

theorem hexNumberFrom_lt {value : Nat} {digits : Text} (h : AreHexDigits digits) :
    hexNumberFrom value digits < (value + 1) * 16 ^ digits.length := by
  induction digits generalizing value with
  | nil => simp [hexNumberFrom]
  | cons c t ih =>
    obtain ⟨hc, ht⟩ := List.forall_mem_cons.mp h
    obtain ⟨n, hn⟩ := Option.isSome_iff_exists.mp hc
    have hlt := (hexValue?_eq_some hn).1
    rw [hexNumberFrom_cons hn, List.length_cons, Nat.pow_succ', ← Nat.mul_assoc]
    exact Nat.lt_of_lt_of_le (ih ht) (Nat.mul_le_mul_right _ (by omega))

/-- The number of up to four digits is that of a code point. -/
theorem hexNumber_lt_of_length_le {digits : Text} (h : AreHexDigits digits)
    (hlength : digits.length ≤ 4) : hexNumber digits < 0x110000 := by
  have hlt := @hexNumberFrom_lt 0 digits h
  have hpow := Nat.pow_le_pow_right (n := 16) (by decide) hlength
  rw [hexNumber]
  omega

/-- Hexadecimal digits are read as their number. -/
theorem hexDigits?_eq {value : Nat} {afterDigit : Bool} {digits : Text} (h : AreHexDigits digits)
    (hne : afterDigit = true ∨ digits ≠ []) :
    hexDigits? value afterDigit digits = some (hexNumberFrom value digits) := by
  induction digits generalizing value afterDigit with
  | nil =>
    obtain rfl := hne.resolve_right fun hnil => hnil rfl
    rfl
  | cons c t ih =>
    obtain ⟨hc, ht⟩ := List.forall_mem_cons.mp h
    obtain ⟨n, hn⟩ := Option.isSome_iff_exists.mp hc
    rw [hexDigits?, is_eq_false_of_isHexDigit hc (by decide), if_neg Bool.false_ne_true, hn]
    dsimp only
    rw [ih ht (.inl rfl), hexNumberFrom_cons hn]

/-- Nothing in hexadecimal digits is taken for blanks, a sign or a mark. -/
theorem hexNumber?_eq {digits : Text} (h : AreHexDigits digits) (hne : digits ≠ []) :
    hexNumber? digits = some (hexNumber digits : Int) := by
  have hplain : digits.map plainDigit = digits :=
    (List.map_congr_left fun c hc => plainDigit_of_isHexDigit (h c hc)).trans (List.map_id _)
  rw [hexNumber?]
  dsimp only
  rw [hplain, stripWhile_eq_self fun c hc => not_space_of_isHexDigit (h c hc)]
  have hread := @hexDigits?_eq 0 false digits h (.inr hne)
  obtain ⟨c, t, rfl⟩ := List.exists_cons_of_ne_nil hne
  obtain ⟨hc, ht⟩ := List.forall_mem_cons.mp h
  have hminus : c.is '-' = false := is_eq_false_of_isHexDigit hc (by decide)
  have hplus : c.is '+' = false := is_eq_false_of_isHexDigit hc (by decide)
  cases t with
  | nil =>
    simp only [hminus, hplus, hread, hexNumber, Bool.false_eq_true, if_false]
    rfl
  | cons d t =>
    have hd := ht d List.mem_cons_self
    have hmark : d.isAny ['x', 'X'] = false := by
      rw [CodePoint.isAny, List.any_cons, List.any_cons, List.any_nil,
        is_eq_false_of_isHexDigit hd (by decide), is_eq_false_of_isHexDigit hd (by decide)]
      rfl
    simp only [hminus, hplus, hmark, hread, hexNumber, Bool.and_false, Bool.false_eq_true, if_false]
    rfl

/-! ## Escapes -/

theorem fails_codePointOf_iff {n : Nat} : Fails (codePointOf n) ↔ 0x110000 ≤ n := by
  rw [codePointOf, wordLimit]
  split
  · next h =>
    simp only [Bool.or_eq_true, decide_eq_true_eq] at h
    exact iff_of_true (fails_error _) (by omega)
  · rw [if_neg (by omega), Int.toNat_natCast, CodePoint.ofNat?]
    by_cases hn : n < 0x110000
    · rw [dif_pos hn]
      exact iff_of_false (not_fails_ok _) (Nat.not_le.mpr hn)
    · rw [dif_neg hn]
      exact iff_of_true (fails_error _) (Nat.not_lt.mp hn)

/-- An escape that begins with neither of the letters for numbers has a value. -/
theorem not_fails_unescapeBody_of_not_number {c : CodePoint} (h : c.isAny ['u', 'x'] = false)
    (rest : Text) : ¬ Fails (unescapeBody (c :: rest)) := by
  have hu : c.is 'u' = false := (Bool.or_eq_false_iff.mp h).1
  rw [unescapeBody]
  simp only [hu, h, Bool.false_and, Bool.false_eq_true, if_false]
  repeat' split
  all_goals exact not_fails_ok _

/-- An escape of one code point has a value. -/
theorem not_fails_unescapeBody_singleton (c : CodePoint) : ¬ Fails (unescapeBody [c]) := by
  rw [unescapeBody]
  simp only [Text.startsWith, Text.after?, Option.isSome_none, List.isEmpty_nil, Bool.and_false,
    Bool.false_and, Bool.not_true, Bool.false_eq_true, if_false, if_true]
  repeat' split
  all_goals exact not_fails_ok _

theorem startsWith_brace_eq_false {digits : Text} (h : AreHexDigits digits) :
    Text.startsWith digits ['\x7b'] = false := by
  cases digits with
  | nil => rfl
  | cons d t =>
    have hd : d.is '\x7b' = false := is_eq_false_of_isHexDigit (h d List.mem_cons_self) (by decide)
    rw [Text.startsWith, Text.after?, if_neg]
    · rfl
    · exact fun heq => Bool.false_ne_true (hd.symm.trans (CodePoint.is_iff.mpr heq.symm))

/-- An escape with a number of up to four digits has a value. -/
theorem not_fails_unescapeBody_of_length_le (c : CodePoint) {digits : Text}
    (h : AreHexDigits digits) (hne : digits ≠ []) (hlength : digits.length ≤ 4) :
    ¬ Fails (unescapeBody (c :: digits)) := by
  have hbrace := startsWith_brace_eq_false h
  obtain ⟨d, hd⟩ : ∃ d, codePointOf (hexNumber digits) = .ok d := by
    cases hd : codePointOf (hexNumber digits) with
    | ok d => exact ⟨d, rfl⟩
    | error e =>
      exact absurd (fails_codePointOf_iff.mp ⟨e, hd⟩)
        (Nat.not_le.mpr (hexNumber_lt_of_length_le h hlength))
  rw [unescapeBody]
  simp only [hbrace, hexNumber?_eq h hne, hd, Bool.and_false, Bool.false_and, Bool.false_eq_true,
    if_false]
  repeat' split
  all_goals exact not_fails_ok _

/-- An escape between braces has the value that its number names. -/
theorem unescapeBody_braced {digits : Text} (h : AreHexDigits digits) (hne : digits ≠ []) :
    unescapeBody ('u' :: '\x7b' :: (digits ++ Text.ofChar '\x7d')) =
      (codePointOf (hexNumber digits)).map fun c => [c] := by
  have hlast : Text.endsWith (CodePoint.ofChar '\x7b' :: (digits ++ Text.ofChar '\x7d'))
      ['\x7d'] = true := by
    rw [Text.endsWith, ← List.cons_append, List.reverse_append]
    rfl
  have hinner : ((CodePoint.ofChar '\x7b' :: (digits ++ Text.ofChar '\x7d')).drop 1).dropLast =
      digits := List.dropLast_concat
  have hfirst : (CodePoint.ofChar 'u').is 'u' &&
      Text.startsWith (CodePoint.ofChar '\x7b' :: (digits ++ Text.ofChar '\x7d')) ['\x7b'] :=
    rfl
  rw [unescapeBody, if_neg (by decide), hfirst, hlast, Bool.and_true, if_pos rfl, hinner,
    hexNumber?_eq h hne]

/-- An escape between braces has a value unless its number is too great. -/
theorem fails_unescapeBody_braced_iff {digits : Text} (h : AreHexDigits digits)
    (hne : digits ≠ []) :
    Fails (unescapeBody ('u' :: '\x7b' :: (digits ++ Text.ofChar '\x7d'))) ↔
      0x110000 ≤ hexNumber digits := by
  rw [unescapeBody_braced h hne]
  exact fails_map_iff.trans fails_codePointOf_iff

/-- What belongs to an escape: something that is no number, a single code point, a number of fixed
length or one between braces. -/
inductive EscapeBody : Text → Prop
  | plain {c : CodePoint} (h : c.isAny ['u', 'x'] = false) (rest : Text) : EscapeBody (c :: rest)
  | single (c : CodePoint) : EscapeBody [c]
  | number (c : CodePoint) {digits : Text} (h : AreHexDigits digits) (hne : digits ≠ [])
      (hlength : digits.length ≤ 4) : EscapeBody (c :: digits)
  | braced {digits : Text} (h : AreHexDigits digits) (hne : digits ≠ []) :
      EscapeBody ('u' :: '\x7b' :: (digits ++ Text.ofChar '\x7d'))

theorem EscapeBody.ne_nil {body : Text} (h : EscapeBody body) : body ≠ [] := by
  cases h <;> exact List.cons_ne_nil _ _

theorem areHexDigits_takeWhile (t : Text) :
    AreHexDigits (t.takeWhile fun c => c.hexValue?.isSome) :=
  List.all_eq_true.mp List.all_takeWhile

theorem areHexDigits_take {t : Text} {n : Nat}
    (h : n ≤ (t.takeWhile fun c => c.hexValue?.isSome).length) : AreHexDigits (t.take n) := by
  obtain ⟨rest, hrest⟩ := List.takeWhile_prefix (l := t) fun c => c.hexValue?.isSome
  intro c hc
  rw [← hrest, List.take_append_of_le_length h] at hc
  exact areHexDigits_takeWhile t c (List.mem_of_mem_take hc)

/-- As many hexadecimal digits as an escape of fixed length has. -/
theorem escapeBody_take_digits (c : CodePoint) {t : Text} {n : Nat}
    (h : n ≤ (t.takeWhile fun c => c.hexValue?.isSome).length) (hpos : n ≠ 0) (hn : n ≤ 4) :
    EscapeBody (c :: t.take n) := by
  have hlength : (t.take n).length = n :=
    List.length_take_of_le (Nat.le_trans h (List.takeWhile_prefix _).length_le)
  refine .number c (areHexDigits_take h) (fun hnil => hpos ?_) (by rwa [hlength])
  rw [← hlength, hnil, List.length_nil]

/-- Hexadecimal digits between braces. -/
theorem escapeBody_take_braced {t digits : Text}
    (hdigits : digits = t.takeWhile fun c => c.hexValue?.isSome) (hpos : 0 < digits.length)
    (hclose : Text.startsWith (t.drop digits.length) ['\x7d'] = true) :
    EscapeBody ('u' :: '\x7b' :: t.take (digits.length + 1)) := by
  obtain ⟨rest, hrest⟩ := Option.isSome_iff_exists.mp hclose
  have hdigits' : t.take digits.length = digits :=
    hdigits ▸ List.prefix_iff_eq_take.mp (List.takeWhile_prefix _) |>.symm
  have htake : t.take (digits.length + 1) = digits ++ Text.ofChar '\x7d' := by
    rw [List.take_add, hdigits', Text.after?_eq_some.mp hrest]
    rfl
  rw [htake]
  refine .braced (hdigits ▸ areHexDigits_takeWhile t) (List.length_pos_iff.mp hpos)

theorem escapeBody_take (c : CodePoint) (t : Text) :
    EscapeBody ((c :: t).take (escapeLength (c :: t))) := by
  rw [escapeLength]
  dsimp only
  split
  · next hoctal =>
    rw [Nat.add_comm, List.take_succ_cons]
    refine .plain ?_ _
    simp only [CodePoint.between, CodePoint.isAny, CodePoint.is, List.any_cons, List.any_nil,
      Bool.and_eq_true, Bool.or_false, Bool.or_eq_false_iff, decide_eq_true_eq, beq_eq_false_iff_ne,
      Char.reduceToNat] at hoctal ⊢
    omega
  · split
    · next hx =>
      simp only [Bool.and_eq_true, decide_eq_true_eq] at hx
      exact escapeBody_take_digits c hx.2 (by decide) (by decide)
    · split
      · next hu =>
        simp only [Bool.and_eq_true, decide_eq_true_eq] at hu
        exact escapeBody_take_digits c hu.2 (by decide) (by decide)
      · split
        · next hu =>
          split
          · next hbraced =>
            simp only [Bool.and_eq_true, decide_eq_true_eq] at hu hbraced
            obtain rfl := CodePoint.is_iff.mp hu.1
            obtain ⟨body, hbody⟩ := Option.isSome_iff_exists.mp hu.2
            obtain rfl := Text.after?_eq_some.mp hbody
            rw [Nat.add_comm 1] at hbraced
            exact escapeBody_take_braced rfl hbraced.1 hbraced.2
          · exact .single c
        · split
          · next hreturn =>
            simp only [Bool.and_eq_true] at hreturn
            obtain rfl := CodePoint.is_iff.mp hreturn.1
            exact .plain (by decide) _
          · exact .single c

theorem fails_unescapeBody_iff {body : Text} (h : EscapeBody body) :
    Fails (unescapeBody body) ↔ OutOfRange ('\\' :: body) := by
  have hback : OutOfRange ('\\' :: body) → Fails (unescapeBody body) := by
    rintro ⟨digits, hbody, hne, hdigits, hrange⟩
    obtain rfl := (List.cons.inj hbody).2
    exact (fails_unescapeBody_braced_iff hdigits hne).mpr hrange
  refine ⟨fun hfails => ?_, hback⟩
  cases h with
  | plain hc rest => exact absurd hfails (not_fails_unescapeBody_of_not_number hc rest)
  | single c => exact absurd hfails (not_fails_unescapeBody_singleton c)
  | number c hdigits hne hlength =>
    exact absurd hfails (not_fails_unescapeBody_of_length_le c hdigits hne hlength)
  | @braced digits hdigits hne =>
    exact ⟨digits, rfl, hne, hdigits, (fails_unescapeBody_braced_iff hdigits hne).mp hfails⟩

/-- A fragment is a single code point, or a backslash with what belongs to it. -/
theorem fragment_cases {body fragment : Text} (h : fragment ∈ fragments body) :
    (∃ c, fragment = [c]) ∨
      ∃ c t, fragment = CodePoint.ofChar '\\' :: c :: t ∧ EscapeBody (c :: t) := by
  fun_induction fragments body with
  | case1 => exact absurd h List.not_mem_nil
  | case2 c t n ih =>
    rcases List.mem_cons.mp h with rfl | h
    · cases hc : c.is '\\' with
      | false => exact .inl ⟨c, by simp [n, hc]⟩
      | true =>
        obtain rfl := CodePoint.is_iff.mp hc
        cases t with
        | nil => exact .inl ⟨_, rfl⟩
        | cons d t =>
          have hbody := escapeBody_take d t
          obtain ⟨e, rest, hcons⟩ := List.exists_cons_of_ne_nil hbody.ne_nil
          rw [hcons] at hbody
          exact .inr ⟨e, rest, congrArg (List.cons _) hcons, hbody⟩
    · exact ih h

/-- A fragment has a value unless it is an escape whose number is too great. -/
theorem fails_fragmentValue_iff {body fragment : Text} (h : fragment ∈ fragments body) :
    Fails (fragmentValue fragment) ↔ OutOfRange fragment := by
  rcases fragment_cases h with ⟨c, rfl⟩ | ⟨c, t, rfl, hbody⟩
  · refine iff_of_false (not_fails_ok _) ?_
    rintro ⟨digits, hfragment, -⟩
    cases hfragment
  · exact fails_unescapeBody_iff hbody

/-- A literal has a value unless the number of an escape in it is too great. -/
theorem fails_literalValue_iff {literal : Text} :
    Fails (literalValue literal) ↔ FaultyLiteral literal := by
  rw [literalValue, fails_bind_iff_or fun values => iff_of_false (not_fails_pure _) not_false,
    or_false, fails_mapM_iff, FaultyLiteral]
  exact exists_congr fun fragment => and_congr_right fails_fragmentValue_iff

end Script

end MessageExtraction
