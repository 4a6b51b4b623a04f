import MessageExtraction.Expression.Token

/-!
# Words

A text that one lexeme takes whole is a word. It stays one when a space or a
semicolon comes after it, since no lexeme goes on with either.

## Main definitions

* `EndsWord` -- nothing, or a space or a semicolon and anything after it.
* `Word` -- a lexeme and the text that spells it.
* `Word.Reads` -- the text of a word is read as its lexeme.

## Main statements

* `lexeme?_append` -- a word is read as its lexeme whatever comes after its end.
-/

namespace MessageExtraction

open Expression

/-- Where a word ends: at the end of the text, a space or a semicolon. -/
def Text.EndsWord : Text → Prop
  | [] => True
  | c :: _ => c.is ' ' ∨ c.is ';'

/-- What ends a word is the end of the text, a space or a semicolon. -/
theorem Text.EndsWord.eq_or {rest : Text} (h : rest.EndsWord) :
    rest = [] ∨ (∃ t, rest = CodePoint.ofChar ' ' :: t) ∨ ∃ t, rest = CodePoint.ofChar ';' :: t := by
  cases rest with
  | nil => exact .inl rfl
  | cons c t =>
    rcases h with hc | hc
    · exact .inr (.inl ⟨t, by rw [CodePoint.is_iff.mp hc]⟩)
    · exact .inr (.inr ⟨t, by rw [CodePoint.is_iff.mp hc]⟩)

section

variable {rest : Text} (h : rest.EndsWord)

include h

/-- What neither a space nor a semicolon satisfies, the end of a word does not satisfy. -/
theorem takeWhile_append_of_endsWord {p : CodePoint → Bool} (hspace : p ' ' = false)
    (hsemicolon : p ';' = false) (t : Text) : (t ++ rest).takeWhile p = t.takeWhile p := by
  induction t with
  | nil =>
    rcases h.eq_or with rfl | ⟨u, rfl⟩ | ⟨u, rfl⟩
    · rfl
    · simp [hspace]
    · simp [hsemicolon]
  | cons c t ih => simp only [List.cons_append, List.takeWhile_cons, ih]

namespace Decimal

theorem scanExponent_append (t : Text) : scanExponent (t ++ rest) = scanExponent t := by
  cases t with
  | nil => rcases h.eq_or with rfl | ⟨u, rfl⟩ | ⟨u, rfl⟩ <;> rfl
  | cons c t =>
    have hsign := takeWhile_append_of_endsWord h (p := fun c => c.isAny ['+', '-']) rfl rfl t
    have hle : (t.takeWhile fun c => c.isAny ['+', '-']).length ≤ t.length :=
      (List.takeWhile_prefix _).length_le
    have hdigits := takeWhile_append_of_endsWord h (p := CodePoint.isDecimalDigit) rfl rfl
      (t.drop (t.takeWhile fun c => c.isAny ['+', '-']).length)
    simp only [scanExponent, List.cons_append, hsign, List.drop_append_of_le_length hle, hdigits]

theorem scanFraction_append (t : Text) : scanFraction (t ++ rest) = scanFraction t := by
  cases t with
  | nil => rcases h.eq_or with rfl | ⟨u, rfl⟩ | ⟨u, rfl⟩ <;> rfl
  | cons c t =>
    have hdigits := takeWhile_append_of_endsWord h (p := CodePoint.isDecimalDigit) rfl rfl t
    simp only [scanFraction, List.cons_append, hdigits]

omit h in
theorem scanFraction_le (t : Text) : (scanFraction t).2 ≤ t.length := by
  cases t with
  | nil => exact Nat.le_refl 0
  | cons c t =>
    have hle : (t.takeWhile CodePoint.isDecimalDigit).length ≤ t.length :=
      (List.takeWhile_prefix _).length_le
    rw [scanFraction]
    split
    · change 1 + (t.takeWhile CodePoint.isDecimalDigit).length ≤ t.length + 1
      omega
    · exact Nat.zero_le _

/-- The numeral at the start of a text does not go on past the end of a word. -/
theorem scan_append (t : Text) : scan (t ++ rest) = scan t := by
  have hwhole := takeWhile_append_of_endsWord h (p := CodePoint.isDecimalDigit) rfl rfl t
  have hle : (t.takeWhile CodePoint.isDecimalDigit).length ≤ t.length :=
    (List.takeWhile_prefix _).length_le
  have hfraction := scanFraction_append h (t.drop (t.takeWhile CodePoint.isDecimalDigit).length)
  have hle' : (t.takeWhile CodePoint.isDecimalDigit).length +
      (scanFraction (t.drop (t.takeWhile CodePoint.isDecimalDigit).length)).2 ≤ t.length := by
    have := scanFraction_le (t.drop (t.takeWhile CodePoint.isDecimalDigit).length)
    rw [List.length_drop] at this
    omega
  simp only [scan, hwhole, List.drop_append_of_le_length hle, hfraction,
    List.drop_append_of_le_length hle', scanExponent_append h]

end Decimal

end

namespace Expression

/-! ## Lexemes -/

theorem quotedBody_append {mark : CodePoint} {t body after : Text}
    (h : quotedBody mark t = some (body, after)) (rest : Text) :
    quotedBody mark (t ++ rest) = some (body, after ++ rest) := by
  fun_induction quotedBody mark t generalizing body after with
  | case1 => cases h
  | case2 =>
    cases h
    cases rest <;> simp [quotedBody]
  | case3 => cases h
  | case4 =>
    cases h
    simp [quotedBody]
  | case5 c d t hmark hbackslash ih =>
    obtain ⟨⟨body', after'⟩, hbody, heq⟩ := Option.map_eq_some_iff.mp h
    cases heq
    simp [quotedBody, hmark, hbackslash, ih hbody]
  | case6 c d t hmark hbackslash ih =>
    obtain ⟨⟨body', after'⟩, hbody, heq⟩ := Option.map_eq_some_iff.mp h
    cases heq
    have h' := ih hbody
    simp only [List.cons_append] at h'
    simp [quotedBody, hmark, hbackslash, h']

theorem Symbol.exists_of_scan {t : Text} {s : Symbol} (h : Symbol.scan t = some s) :
    ∃ after, t = s.text ++ after := by
  have hstarts : t.startsWith s.text := by
    rw [Symbol.scan] at h
    simpa using List.find?_some h
  obtain ⟨after, hafter⟩ := Option.isSome_iff_exists.mp hstarts
  exact ⟨after, Text.after?_eq_some.mp hafter⟩

/-- A symbol that is a word is the longest one at the start of the text. -/
theorem Symbol.scan_text_append {rest : Text} (h : rest.EndsWord) (s : Symbol) :
    Symbol.scan (s.text ++ rest) = some s := by
  rcases h.eq_or with rfl | ⟨u, rfl⟩ | ⟨u, rfl⟩ <;> cases s <;> rfl

/-- A text that is one lexeme is read as that lexeme whatever comes after its end. -/
theorem lexeme?_append {t rest : Text} {l : Lexeme} (h : lexeme? t = some (l, t.length))
    (hrest : rest.EndsWord) : lexeme? (t ++ rest) = some (l, t.length) := by
  cases t with
  | nil => cases h
  | cons c t =>
    have hscan := Decimal.scan_append hrest (c :: t)
    rw [List.cons_append] at hscan ⊢
    rw [lexeme?] at h ⊢
    rw [hscan]
    split at h
    · exact h
    · split at h
      · next hquote =>
        obtain ⟨⟨body, after⟩, hbody, hresult⟩ := Option.map_eq_some_iff.mp h
        rw [if_pos hquote, quotedBody_append hbody]
        exact congrArg some hresult
      · next hquote =>
        rw [if_neg hquote]
        split at h
        · next hname =>
          rw [if_pos hname, takeWhile_append_of_endsWord hrest rfl rfl]
          exact h
        · next hname =>
          rw [if_neg hname]
          obtain ⟨s, hs, hresult⟩ := Option.map_eq_some_iff.mp h
          have htext : c :: t = s.text := by
            obtain ⟨after, hafter⟩ := Symbol.exists_of_scan hs
            have hlength : s.spelling.length = (c :: t).length := congrArg Prod.snd hresult
            have hzero : after = [] := by
              rw [hafter, List.length_append, Symbol.text, List.length_map] at hlength
              exact List.eq_nil_of_length_eq_zero (by omega)
            rw [hafter, hzero, List.append_nil]
          rw [← List.cons_append, ← hresult, htext, Symbol.scan_text_append hrest]
          rfl

/-- A symbol begins with no blank. -/
theorem Symbol.exists_text (s : Symbol) : ∃ c t, s.text = c :: t ∧ ¬c.isBlank := by
  cases s <;> exact ⟨_, _, rfl, Bool.false_ne_true⟩

theorem Symbol.scan_of_isBlank {c : CodePoint} (h : c.isBlank) (t : Text) :
    Symbol.scan (c :: t) = none := by
  refine List.find?_eq_none.mpr fun s _ hstarts => ?_
  obtain ⟨after, hafter⟩ := Option.isSome_iff_exists.mp hstarts
  obtain ⟨d, u, hs, hblank⟩ := s.exists_text
  rw [Text.after?_eq_some, hs] at hafter
  cases hafter
  exact hblank h

/-- No digit is blank. -/
theorem not_isBlank_of_isDecimalDigit {c : CodePoint} (h : c.isDecimalDigit) : ¬c.isBlank := by
  have hapart : ∀ z ∈ CodePoint.digitZeros, ∀ r ∈ CodePoint.blankRanges,
      z + 9 < r.1 ∨ r.2 < z := by decide
  intro hblank
  simp only [CodePoint.isBlank, CodePoint.inRanges, List.any_eq_true, Bool.and_eq_true,
    decide_eq_true_eq] at hblank
  obtain ⟨r, hr, hlow, hhigh⟩ := hblank
  simp only [CodePoint.isDecimalDigit, CodePoint.digit?, Option.isSome_map, List.find?_isSome,
    Bool.and_eq_true, decide_eq_true_eq] at h
  obtain ⟨z, hz, hz₁, hz₂⟩ := h
  rcases hapart z hz r hr with hlt | hlt <;> omega

/-- A numeral begins with a digit or with a point. -/
theorem Decimal.scan_eq_none {c : CodePoint} (hdigit : c.isDecimalDigit = false)
    (hpoint : c.is '.' = false) (t : Text) : Decimal.scan (c :: t) = none := by
  simp [Decimal.scan, Decimal.scanFraction, hdigit, hpoint]

theorem Decimal.scan_of_isBlank {c : CodePoint} (h : c.isBlank) (t : Text) :
    Decimal.scan (c :: t) = none := by
  have hdigit : c.isDecimalDigit = false :=
    Bool.eq_false_iff.mpr fun hdigit => not_isBlank_of_isDecimalDigit hdigit h
  have hpoint : c.is '.' = false := by
    refine Bool.eq_false_iff.mpr fun hpoint => ?_
    rw [CodePoint.is_iff.mp hpoint] at h
    cases h
  exact Decimal.scan_eq_none hdigit hpoint t

theorem not_startsName_of_isBlank {c : CodePoint} (h : c.isBlank) : ¬startsName c := by
  simp only [CodePoint.isBlank, CodePoint.inRanges, CodePoint.blankRanges, List.any_cons,
    List.any_nil, Bool.or_eq_true, Bool.and_eq_true, decide_eq_true_eq, Bool.false_eq_true,
    or_false] at h
  simp only [startsName, CodePoint.isAsciiLetter, CodePoint.between, CodePoint.is, Bool.or_eq_true,
    Bool.and_eq_true, decide_eq_true_eq, beq_iff_eq, Char.reduceToNat]
  omega

/-- No name begins with a digit. -/
theorem not_isDecimalDigit_of_startsName {c : CodePoint} (h : startsName c) :
    c.isDecimalDigit = false := by
  have hzeros : ∀ z ∈ CodePoint.digitZeros, z = 48 ∨ 122 < z := by decide
  refine Bool.eq_false_iff.mpr fun hdigit => ?_
  simp only [CodePoint.isDecimalDigit, CodePoint.digit?, Option.isSome_map, List.find?_isSome,
    Bool.and_eq_true, decide_eq_true_eq] at hdigit
  obtain ⟨z, hz, hlow, hhigh⟩ := hdigit
  simp only [startsName, CodePoint.isAsciiLetter, CodePoint.between, CodePoint.is, Bool.or_eq_true,
    Bool.and_eq_true, decide_eq_true_eq, beq_iff_eq, Char.reduceToNat] at h
  rcases hzeros z hz with rfl | hlt <;> omega

theorem not_is_of_startsName {c : CodePoint} {ch : Char} (h : startsName c)
    (hch : startsName ch = false) : c.is ch = false := by
  refine Bool.eq_false_iff.mpr fun hc => ?_
  rw [CodePoint.is_iff.mp hc, hch] at h
  cases h

/-- A name is read as far as it goes. -/
theorem lexeme?_of_startsName {c : CodePoint} (h : startsName c) (t : Text) :
    lexeme? (c :: t) = some (.name, (t.takeWhile continuesName).length + 1) := by
  have hscan : Decimal.scan (c :: t) = none :=
    Decimal.scan_eq_none (not_isDecimalDigit_of_startsName h) (not_is_of_startsName h rfl) t
  have hquote : (c.is '\x27' || c.is '\x22') = false := by
    rw [not_is_of_startsName h rfl, not_is_of_startsName h rfl, Bool.or_self]
  rw [lexeme?, hscan]
  simp [hquote, h, Nat.add_comm 1]

/-- No lexeme begins with a blank. -/
theorem lexeme?_of_isBlank {c : CodePoint} (h : c.isBlank) (t : Text) :
    lexeme? (c :: t) = none := by
  have hquote : (c.is '\x27' || c.is '\x22') = false := by
    refine Bool.eq_false_iff.mpr fun hquote => ?_
    rcases Bool.or_eq_true_iff.mp hquote with hc | hc <;>
      · rw [CodePoint.is_iff.mp hc] at h
        cases h
  rw [lexeme?, Decimal.scan_of_isBlank h]
  simp [hquote, not_startsName_of_isBlank h, Symbol.scan_of_isBlank h]

/-! ## Words -/

/-- A lexeme and the text that spells it. -/
structure Word where
  lexeme : Lexeme
  text : Text

/-- The word that a token is, wherever it stands. -/
def Token.word (t : Token) : Word :=
  ⟨t.lexeme, t.text⟩

/-- The text of a word is read as its lexeme. -/
def Word.Reads (w : Word) : Prop :=
  lexeme? w.text = some (w.lexeme, w.text.length)

/-- The tokens of a text are the given words, wherever the text stands. -/
def TokenizesAs (t : Text) (ws : List Word) : Prop :=
  ∀ index, ∃ tokens, tokenizeFrom index t = .ok tokens ∧ tokens.map Token.word = ws

theorem tokenizesAs_nil : TokenizesAs [] [] :=
  fun _ => ⟨[], by rw [tokenizeFrom], rfl⟩

/-- A blank before a text adds no word. -/
theorem TokenizesAs.blank {c : CodePoint} {t : Text} {ws : List Word} (hc : c.isBlank)
    (h : TokenizesAs t ws) : TokenizesAs (c :: t) ws := by
  intro index
  obtain ⟨tokens, htokens, hws⟩ := h (index + 1)
  exact ⟨tokens, by rw [tokenizeFrom, if_pos hc, htokens], hws⟩

/-- A lexeme before a text adds its word. -/
theorem TokenizesAs.lexeme {c : CodePoint} {u t : Text} {l : Lexeme} {ws : List Word}
    (hl : lexeme? (c :: (u ++ t)) = some (l, u.length + 1)) (h : TokenizesAs t ws) :
    TokenizesAs (c :: (u ++ t)) (⟨l, c :: u⟩ :: ws) := by
  intro index
  have hblank : ¬c.isBlank := by
    intro hc
    rw [lexeme?_of_isBlank hc] at hl
    cases hl
  obtain ⟨tokens, htokens, hws⟩ := h (index + (u.length + 1))
  refine ⟨⟨l, c :: u, index⟩ :: tokens, ?_, by rw [List.map_cons, hws]; rfl⟩
  rw [tokenizeFrom, if_neg hblank, hl]
  simp [htokens, bind, Except.bind]

/-- A word before what ends it adds itself. -/
theorem TokenizesAs.word {w : Word} {t : Text} {ws : List Word} (hw : w.Reads) (ht : t.EndsWord)
    (h : TokenizesAs t ws) : TokenizesAs (w.text ++ t) (w :: ws) := by
  obtain ⟨l, text⟩ := w
  cases text with
  | nil => cases hw
  | cons c u => exact h.lexeme (lexeme?_append hw ht)

/-- A semicolon adds its word, whatever comes next. -/
theorem TokenizesAs.semicolon {t : Text} {ws : List Word} (h : TokenizesAs t ws) :
    TokenizesAs (';' :: t) (⟨.symbol .semicolon, Symbol.semicolon.text⟩ :: ws) :=
  h.lexeme (u := []) rfl

end Expression

end MessageExtraction
