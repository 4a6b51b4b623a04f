import MessageExtraction.Proofs.Expression.Quoting
import Mathlib.Data.List.TakeWhile

/-!
# The words of the expression language

A word is a numeral, a string between quotation marks, a name or a symbol. What is read at the start
of a text is the longest word that begins there: the numeral, the name and the symbol stop only
where the next code point cannot belong to them, a string ends at its mark, and no two kinds of
words begin alike, except that a point begins numerals and is a symbol.

## Main definitions

* `Decimal.Writes` -- the numerals and what they denote.
* `Word.InLexicon` -- the words.
* `Word.Heads` -- a word is the longest one at the start of a text.

## Main results

* `Word.heads_iff` -- the word that is read is the longest one.
* `lexeme?_eq_none_iff` -- where nothing is read no word begins.
-/

namespace MessageExtraction

namespace Decimal

/-- All code points of a text are decimal digits. -/
def AreDigits (t : Text) : Prop :=
  ∀ c ∈ t, c.isDecimalDigit = true

/-- The exponent part of a numeral: nothing, or a letter, a sign that may be missing, and digits. -/
inductive WritesExponent : Text → Int → Prop
  | none : WritesExponent [] 0
  | some {e : CodePoint} {sign digits : Text} (he : e.isAny ['e', 'E'] = true)
      (hsign : sign = [] ∨ sign = Text.ofChar '+' ∨ sign = Text.ofChar '-')
      (hdigits : AreDigits digits) (hne : digits ≠ []) :
      WritesExponent (e :: (sign ++ digits))
        (if sign = Text.ofChar '-' then -(digitsValue digits : Int) else digitsValue digits)

/-- The fraction of a numeral: nothing, or a point and digits. -/
inductive WritesFraction : Text → (digits : Text) → Prop
  | none : WritesFraction [] []
  | some {digits : Text} (hdigits : AreDigits digits) : WritesFraction ('.' :: digits) digits

/-- A numeral: digits with a fraction and an exponent part. There is a digit before the exponent
part. -/
inductive Writes : Text → Decimal → Prop
  | mk {whole point fraction scale : Text} {e : Int} (hwhole : AreDigits whole)
      (hpoint : WritesFraction point fraction) (hne : whole ≠ [] ∨ fraction ≠ [])
      (hscale : WritesExponent scale e) :
      Writes (whole ++ (point ++ scale)) ⟨digitsValue (whole ++ fraction), e - fraction.length⟩

end Decimal

namespace Expression

/-- The words of the language. -/
inductive Word.InLexicon : Word → Prop
  | number {d : Decimal} {text : Text} (h : d.Writes text) : InLexicon ⟨.number d, text⟩
  | string {mark : CodePoint} {body : Text} (hmark : IsMark mark) (h : IsBody mark body) :
      InLexicon ⟨.string (unescape body), mark :: (body ++ [mark])⟩
  | name {c : CodePoint} {t : Text} (hstart : startsName c = true)
      (hgoes : ∀ d ∈ t, continuesName d = true) : InLexicon ⟨.name, c :: t⟩
  | symbol (s : Symbol) : InLexicon ⟨.symbol s, s.text⟩

/-- A word is the longest one at the start of a text. -/
structure Word.Heads (w : Word) (t : Text) : Prop where
  inLexicon : w.InLexicon
  isPrefix : w.text <+: t
  longest : ∀ v : Word, v.InLexicon → v.text <+: t → v.text.length ≤ w.text.length

end Expression

/-- A text is cut where code points of a kind end. -/
theorem Text.exists_takeWhile (p : CodePoint → Bool) (t : Text) :
    ∃ first rest, t = first ++ rest ∧ (∀ c ∈ first, p c = true) ∧ rest.takeWhile p = [] :=
  ⟨t.takeWhile p, t.dropWhile p, List.takeWhile_append_dropWhile.symm,
    List.all_eq_true.mp List.all_takeWhile,
    List.takeWhile_eq_nil_iff.mpr (List.dropWhile_get_zero_not p t)⟩

/-! ## Numerals -/

namespace Decimal

variable {c : CodePoint} {t u rest digits fraction : Text} {d : Decimal} {e : Int} {n : Nat}

theorem is_eq_false_of_isDecimalDigit (h : c.isDecimalDigit = true) (ch : Char)
    (hch : (CodePoint.ofChar ch).isDecimalDigit = false) : c.is ch = false := by
  rw [← Bool.not_eq_true, CodePoint.is_iff]
  rintro rfl
  rw [hch] at h
  cases h

theorem takeWhile_digits_append (h : AreDigits digits) (t : Text) :
    (digits ++ t).takeWhile CodePoint.isDecimalDigit =
      digits ++ t.takeWhile CodePoint.isDecimalDigit :=
  List.takeWhile_append_of_pos h

/-- The sign before digits ends where they begin. -/
theorem takeWhile_sign_append {sign : Text}
    (hsign : sign = [] ∨ sign = Text.ofChar '+' ∨ sign = Text.ofChar '-')
    (hdigits : AreDigits digits) (hne : digits ≠ []) (t : Text) :
    ((sign ++ (digits ++ t)).takeWhile fun c => c.isAny ['+', '-']) = sign := by
  have hnone : ((digits ++ t).takeWhile fun c => c.isAny ['+', '-']) = [] := by
    obtain ⟨c, digits, rfl⟩ := List.exists_cons_of_ne_nil hne
    have hc := hdigits c List.mem_cons_self
    have hno : c.isAny ['+', '-'] = false := by
      simp [CodePoint.isAny, is_eq_false_of_isDecimalDigit hc '+' (by decide),
        is_eq_false_of_isDecimalDigit hc '-' (by decide)]
    rw [List.cons_append, List.takeWhile_cons, hno, if_neg Bool.false_ne_true]
  have hall : ∀ c ∈ sign, c.isAny ['+', '-'] = true := by
    rcases hsign with rfl | rfl | rfl <;> decide
  rw [List.takeWhile_append_of_pos hall, hnone, List.append_nil]

theorem sign_cases {sign : Text} (h : ∀ c ∈ sign, c.isAny ['+', '-'] = true)
    (hlength : sign.length ≤ 1) :
    sign = [] ∨ sign = Text.ofChar '+' ∨ sign = Text.ofChar '-' := by
  match sign, hlength with
  | [], _ => exact .inl rfl
  | [c], _ =>
    have hc := h c List.mem_cons_self
    simp only [CodePoint.isAny, List.any_cons, List.any_nil, Bool.or_false, Bool.or_eq_true,
      CodePoint.is_iff] at hc
    exact .inr (hc.imp (congrArg fun c => [c]) (congrArg fun c => [c]))

/-- Reading an exponent part whose digits end. -/
theorem scanExponent_eq {sign : Text} (hc : c.isAny ['e', 'E'] = true)
    (hsign : sign = [] ∨ sign = Text.ofChar '+' ∨ sign = Text.ofChar '-')
    (hdigits : AreDigits digits) (hne : digits ≠ [])
    (hrest : rest.takeWhile CodePoint.isDecimalDigit = []) :
    scanExponent (c :: (sign ++ (digits ++ rest))) =
      (if sign = Text.ofChar '-' then -(digitsValue digits : Int) else digitsValue digits,
        1 + sign.length + digits.length) := by
  have hread : (sign.length ≤ 1 && !digits.isEmpty) = true := by
    have hlength : sign.length ≤ 1 := by rcases hsign with rfl | rfl | rfl <;> decide
    simp [hlength, hne]
  have hminus : sign.any (·.is '-') = true ↔ sign = Text.ofChar '-' := by
    rcases hsign with rfl | rfl | rfl <;> decide
  simp only [scanExponent, hc, takeWhile_sign_append hsign hdigits hne, List.drop_left,
    takeWhile_digits_append hdigits, hrest, List.append_nil, hread, hminus, if_true]

/-- What is read as an exponent part is one. -/
theorem scanExponent_spec (t : Text) : ∃ scale rest, t = scale ++ rest ∧
    scale.length = (scanExponent t).2 ∧ WritesExponent scale (scanExponent t).1 := by
  cases t with
  | nil => exact ⟨[], [], rfl, rfl, .none⟩
  | cons c t =>
    obtain ⟨sign, u, rfl, hsign, hu⟩ := Text.exists_takeWhile (fun c => c.isAny ['+', '-']) t
    obtain ⟨digits, rest, rfl, hdigits, hrest⟩ := Text.exists_takeWhile CodePoint.isDecimalDigit u
    by_cases hread : c.isAny ['e', 'E'] = true ∧ sign.length ≤ 1 ∧ digits ≠ []
    · obtain ⟨hc, hlength, hne⟩ := hread
      have hsign := sign_cases hsign hlength
      rw [scanExponent_eq hc hsign hdigits hne hrest]
      exact ⟨c :: (sign ++ digits), rest, by simp, by simp; omega, .some hc hsign hdigits hne⟩
    · have hnone : scanExponent (c :: (sign ++ (digits ++ rest))) = (0, 0) := by
        simp only [scanExponent, List.takeWhile_append_of_pos hsign, hu, List.append_nil,
          List.drop_left, List.takeWhile_append_of_pos hdigits, hrest]
        split
        · next hc =>
          refine if_neg fun h => hread ⟨hc, ?_⟩
          simpa using h
        · rfl
      rw [hnone]
      exact ⟨[], _, rfl, rfl, .none⟩

/-- Reading an exponent part stops at its end or goes on. -/
theorem scanExponent_append_cases (h : WritesExponent t e) (rest : Text) :
    scanExponent (t ++ rest) = (e, t.length) ∨ t.length < (scanExponent (t ++ rest)).2 := by
  cases h with
  | none =>
    obtain ⟨scale, rest', -, hlength, hscale⟩ := scanExponent_spec rest
    generalize hresult : scanExponent rest = result at hlength hscale
    obtain ⟨e, n⟩ := result
    cases hscale with
    | none => exact .inl (hresult.trans (congrArg _ hlength.symm))
    | some => exact .inr (by simp [hresult, ← hlength])
  | @some c sign digits hc hsign hdigits hne =>
    obtain ⟨more, rest, rfl, hmore, hrest⟩ := Text.exists_takeWhile CodePoint.isDecimalDigit rest
    have hall : AreDigits (digits ++ more) := List.forall_mem_append.mpr ⟨hdigits, hmore⟩
    have hread := scanExponent_eq hc hsign hall (List.append_ne_nil_of_left_ne_nil hne more) hrest
    simp only [List.append_assoc] at hread
    simp only [List.cons_append, List.append_assoc, hread]
    cases more with
    | nil => exact .inl (by simp; omega)
    | cons d more => exact .inr (by simp; omega)

/-- After a point, or none, and its digits a text does not go on with more of them. -/
structure EndsFraction (point t : Text) : Prop where
  digits : t.takeWhile CodePoint.isDecimalDigit = []
  point : point = [] → ∀ c ∈ t.head?, c ≠ '.'

/-- A text is cut where the digits before an exponent part end. -/
theorem exists_fraction (t : Text) (h : t.takeWhile CodePoint.isDecimalDigit = []) :
    ∃ point fraction rest, t = point ++ rest ∧ WritesFraction point fraction ∧
      EndsFraction point rest := by
  by_cases hpoint : ∃ u, t = CodePoint.ofChar '.' :: u
  · obtain ⟨u, rfl⟩ := hpoint
    obtain ⟨fraction, rest, rfl, hfraction, hrest⟩ :=
      Text.exists_takeWhile CodePoint.isDecimalDigit u
    exact ⟨_, fraction, rest, (List.cons_append ..).symm, .some hfraction, hrest, nofun⟩
  · refine ⟨[], [], t, rfl, .none, h, fun _ c hc heq => hpoint ?_⟩
    obtain ⟨u, rfl⟩ := List.head?_eq_some_iff.mp hc
    exact ⟨u, by rw [heq]⟩

theorem scanFraction_eq {point : Text} (h : WritesFraction point fraction)
    (hrest : EndsFraction point rest) :
    scanFraction (point ++ rest) = (fraction, point.length) := by
  cases h with
  | none =>
    cases rest with
    | nil => rfl
    | cons c rest =>
      have hc : c.is '.' = false :=
        Bool.eq_false_iff.mpr fun h => hrest.point rfl c rfl (CodePoint.is_iff.mp h)
      rw [List.nil_append, scanFraction, if_neg (by rw [hc]; exact Bool.false_ne_true)]
      rfl
  | some hfraction =>
    have hpoint : (CodePoint.ofChar '.').is '.' = true := rfl
    simp only [List.cons_append, scanFraction, hpoint, takeWhile_digits_append hfraction,
      hrest.digits, List.append_nil, if_true, List.length_cons, Nat.add_comm 1]

/-- Reading a numeral whose digits end. -/
theorem scan_eq {whole point : Text} (hwhole : AreDigits whole)
    (hpoint : WritesFraction point fraction) (hrest : EndsFraction point rest) :
    scan (whole ++ (point ++ rest)) =
      if whole = [] ∧ fraction = [] then none
      else some (⟨digitsValue (whole ++ fraction), (scanExponent rest).1 - fraction.length⟩,
        whole.length + point.length + (scanExponent rest).2) := by
  have hnext : (point ++ rest).takeWhile CodePoint.isDecimalDigit = [] := by
    cases hpoint with
    | none => exact hrest.digits
    | some => rfl
  have hlength : whole.length + point.length = (whole ++ point).length := by simp
  simp only [scan, takeWhile_digits_append hwhole, hnext, List.append_nil, List.drop_left,
    scanFraction_eq hpoint hrest, Bool.and_eq_true, List.isEmpty_iff]
  rw [hlength, ← List.append_assoc, List.drop_left]

theorem scan_eq_some {whole point : Text} (hwhole : AreDigits whole)
    (hpoint : WritesFraction point fraction) (hrest : EndsFraction point rest)
    (hne : whole ≠ [] ∨ fraction ≠ []) :
    scan (whole ++ (point ++ rest)) =
      some (⟨digitsValue (whole ++ fraction), (scanExponent rest).1 - fraction.length⟩,
        whole.length + point.length + (scanExponent rest).2) := by
  rw [scan_eq hwhole hpoint hrest, if_neg (Decidable.not_and_iff_not_or_not.mpr hne)]

/-- What is read as a numeral is one. -/
theorem writes_of_scan (h : scan t = some (d, n)) :
    ∃ text rest, t = text ++ rest ∧ text.length = n ∧ Writes text d := by
  obtain ⟨whole, u, rfl, hwhole, hu⟩ := Text.exists_takeWhile CodePoint.isDecimalDigit t
  obtain ⟨point, fraction, u, rfl, hpoint, hends⟩ := exists_fraction u hu
  rw [scan_eq hwhole hpoint hends] at h
  split at h
  · cases h
  · next hne =>
    obtain ⟨scale, rest, rfl, hlength, hscale⟩ := scanExponent_spec u
    cases h
    refine ⟨whole ++ (point ++ scale), rest, by simp, by simp [hlength]; omega, ?_⟩
    exact .mk hwhole hpoint (Decidable.not_and_iff_not_or_not.mp hne) hscale

/-- Neither an exponent part nor nothing before such a text goes on with digits. -/
theorem endsFraction_of_letter {point : Text} (hc : c.isAny ['e', 'E'] = true) (t : Text) :
    EndsFraction point (c :: t) := by
  simp only [CodePoint.isAny, List.any_cons, List.any_nil, Bool.or_false, Bool.or_eq_true,
    CodePoint.is_iff] at hc
  rcases hc with rfl | rfl
  · exact ⟨rfl, fun _ => by rintro _ ⟨⟩; decide⟩
  · exact ⟨rfl, fun _ => by rintro _ ⟨⟩; decide⟩

/-- Reading a numeral goes on when there are more digits after it. -/
theorem lt_of_scan_append {whole point : Text} (hwhole : AreDigits whole)
    (hpoint : WritesFraction point fraction) (hne : whole ≠ [] ∨ fraction ≠ [])
    (hends : ¬ EndsFraction point rest) :
    ∃ d n, scan (whole ++ (point ++ rest)) = some (d, n) ∧ (whole ++ point).length < n := by
  obtain ⟨more, u, rfl, hmore, hu⟩ := Text.exists_takeWhile CodePoint.isDecimalDigit rest
  cases hpoint with
  | none =>
    -- the digits go on before the point, or the point is still to come
    obtain ⟨point, fraction, rest, rfl, hpoint, hrest⟩ := exists_fraction u hu
    have hne' : whole ++ more ≠ [] ∨ fraction ≠ [] :=
      .inl (List.append_ne_nil_of_left_ne_nil (hne.resolve_right fun h => h rfl) more)
    have hread := scan_eq_some (List.forall_mem_append.mpr ⟨hwhole, hmore⟩) hpoint hrest hne'
    rw [List.append_assoc] at hread
    refine ⟨_, _, hread, ?_⟩
    have hmost : more ≠ [] ∨ point ≠ [] := by
      by_contra hnone
      obtain ⟨rfl, rfl⟩ := not_or.mp hnone |>.imp not_not.mp not_not.mp
      exact hends hrest
    have hlength := hmost.imp List.length_pos_iff.mpr List.length_pos_iff.mpr
    simp only [List.length_append, List.length_nil]
    omega
  | some hfraction =>
    have hends' : EndsFraction (CodePoint.ofChar '.' :: (fraction ++ more)) u := ⟨hu, nofun⟩
    have hall : AreDigits (fraction ++ more) := List.forall_mem_append.mpr ⟨hfraction, hmore⟩
    have hread := scan_eq_some hwhole (.some hall) hends'
      (hne.imp_right fun h => List.append_ne_nil_of_left_ne_nil h more)
    refine ⟨_, _, by simpa using hread, ?_⟩
    have hmost : more ≠ [] := by
      rintro rfl
      exact hends ⟨hu, nofun⟩
    have hlength := List.length_pos_iff.mpr hmost
    simp only [List.length_append, List.length_cons]
    omega

/-- Reading a numeral stops at its end or goes on. -/
theorem scan_append_cases (h : Writes t d) (rest : Text) :
    ∃ d' n, scan (t ++ rest) = some (d', n) ∧ (d' = d ∧ n = t.length ∨ t.length < n) := by
  obtain @⟨whole, point, fraction, scale, e, hwhole, hpoint, hne, hscale⟩ := h
  by_cases hends : EndsFraction point (scale ++ rest)
  · have hread := scan_eq_some hwhole hpoint hends hne
    refine ⟨_, _, by simpa using hread, ?_⟩
    rcases scanExponent_append_cases hscale rest with h | h
    · exact .inl ⟨by rw [h], by simp [h]; omega⟩
    · exact .inr (by simp; omega)
  · -- an exponent part would end the digits
    obtain rfl : scale = [] := by
      cases hscale with
      | none => rfl
      | some hc => exact absurd (endsFraction_of_letter hc _) hends
    obtain ⟨d', n, hread, hlt⟩ := lt_of_scan_append hwhole hpoint hne hends
    exact ⟨d', n, by simpa using hread, .inr (by simpa using hlt)⟩

theorem one_lt_of_scan_point (h : scan ('.' :: t) = some (d, n)) : 1 < n := by
  have hdigit : (CodePoint.ofChar '.').isDecimalDigit = false := rfl
  have hpoint : (CodePoint.ofChar '.').is '.' = true := rfl
  simp only [scan, List.takeWhile_cons, hdigit, Bool.false_eq_true, if_false, List.length_nil,
    List.drop_zero, scanFraction, hpoint, if_true, List.isEmpty_nil, Bool.true_and] at h
  split at h
  · cases h
  · next hne =>
    cases h
    have := List.length_pos_iff.mpr fun h => hne (List.isEmpty_iff.mpr h)
    omega

end Decimal

namespace Expression

variable {t : Text} {l : Lexeme} {n : Nat} {w : Word}

/-! ## Symbols -/

theorem Symbol.mem_all (s : Symbol) : s ∈ all := by
  cases s <;> decide

theorem Symbol.text_injective : ∀ s s' : Symbol, s.text = s'.text → s = s' := by
  intro s s' h
  cases s <;> cases s' <;> first | rfl | exact absurd h (by decide)

/-- The symbol that is read is not shorter than one that begins the text. -/
theorem Symbol.scan_append_cases (s : Symbol) (rest : Text) :
    ∃ s', Symbol.scan (s.text ++ rest) = some s' ∧ (s' = s ∨ s.text.length < s'.text.length) := by
  have hlonger : all.Pairwise fun s s' => s'.text.length ≤ s.text.length := by decide
  have hstarts : (s.text ++ rest).startsWith s.text = true :=
    Text.startsWith_iff_prefix.mpr (List.prefix_append ..)
  obtain ⟨s', hs'⟩ : ∃ s', Symbol.scan (s.text ++ rest) = some s' :=
    Option.isSome_iff_exists.mp (List.find?_isSome.mpr ⟨s, s.mem_all, hstarts⟩)
  refine ⟨s', hs', ?_⟩
  obtain ⟨hstarts', before, after, hall, hbefore⟩ := List.find?_eq_some_iff_append.mp hs'
  have hmem : s ∈ before ++ s' :: after := hall ▸ s.mem_all
  rcases List.mem_append.mp hmem with hmem | hmem
  · have hno := hbefore s hmem
    rw [hstarts] at hno
    cases hno
  · -- what stands later in the list of symbols is not longer
    rcases List.mem_cons.mp hmem with rfl | hmem
    · exact .inl rfl
    · rw [hall] at hlonger
      have hle : s.text.length ≤ s'.text.length :=
        List.rel_of_pairwise_cons (List.pairwise_append.mp hlonger).2.1 hmem
      refine (Nat.lt_or_eq_of_le hle).symm.imp (fun heq => ?_) id
      have hbegins : s.text <+: s'.text := List.prefix_of_prefix_length_le
        (List.prefix_append ..) (Text.startsWith_iff_prefix.mp hstarts') hle
      exact (Symbol.text_injective s s' (hbegins.eq_of_length heq)).symm

/-! ## Lexemes -/

theorem lexeme?_of_scan {d : Decimal} (h : Decimal.scan t = some (d, n)) :
    lexeme? t = some (.number d, n) := by
  cases t with
  | nil => cases h
  | cons c t => rw [lexeme?, h]

/-- What is read is a word at the start of the text. -/
theorem exists_word_of_lexeme? (h : lexeme? t = some (l, n)) :
    ∃ text rest, Word.InLexicon ⟨l, text⟩ ∧ t = text ++ rest ∧ text.length = n := by
  cases t with
  | nil => cases h
  | cons c t =>
    rw [lexeme?] at h
    split at h
    · next d _ hscan =>
      cases h
      obtain ⟨text, rest, ht, hlength, hwrites⟩ := Decimal.writes_of_scan hscan
      exact ⟨text, rest, .number hwrites, ht, hlength⟩
    · split at h
      · next hquote =>
        have hmark : IsMark c :=
          (Bool.or_eq_true_iff.mp hquote).imp CodePoint.is_iff.mp CodePoint.is_iff.mp
        obtain ⟨⟨body, rest⟩, hquoted, heq⟩ := Option.map_eq_some_iff.mp h
        cases heq
        obtain ⟨hbody, rfl⟩ := isBody_of_quotedBody hquoted
        exact ⟨_, rest, .string hmark hbody, by simp, by simp⟩
      · split at h
        · next hname =>
          obtain ⟨name, rest, rfl, hgoes, hrest⟩ := Text.exists_takeWhile continuesName t
          rw [List.takeWhile_append_of_pos hgoes, hrest, List.append_nil] at h
          cases h
          exact ⟨c :: name, rest, .name hname hgoes, rfl, Nat.add_comm ..⟩
        · obtain ⟨s, hs, heq⟩ := Option.map_eq_some_iff.mp h
          cases heq
          obtain ⟨rest, hrest⟩ := Symbol.exists_of_scan hs
          exact ⟨s.text, rest, .symbol s, hrest, by simp [Symbol.text]⟩

/-- Neither strings nor names begin as symbols do, and numerals only with a point. -/
theorem Symbol.exists_head (s : Symbol) : ∃ c t, s.text = c :: t ∧
    (c.is '\x27' || c.is '\x22') = false ∧ startsName c = false ∧ c.isDecimalDigit = false ∧
      (s = .dot ∨ c.is '.' = false) := by
  cases s with
  | dot => exact ⟨_, _, rfl, rfl, rfl, rfl, .inl rfl⟩
  | _ => exact ⟨_, _, rfl, rfl, rfl, rfl, .inr rfl⟩

theorem lexeme?_symbol_append_cases (s : Symbol) (rest : Text) :
    ∃ l n, lexeme? (s.text ++ rest) = some (l, n) ∧
      (l = .symbol s ∧ n = s.text.length ∨ s.text.length < n) := by
  obtain ⟨c, t, hs, hquote, hname, hdigit, hpoint⟩ := s.exists_head
  cases hscan : Decimal.scan (s.text ++ rest) with
  | some result =>
    obtain rfl : s = .dot := by
      refine hpoint.resolve_right fun hpoint => ?_
      rw [hs, List.cons_append, Decimal.scan_eq_none hdigit hpoint] at hscan
      cases hscan
    exact ⟨_, _, lexeme?_of_scan hscan, .inr (Decimal.one_lt_of_scan_point hscan)⟩
  | none =>
    obtain ⟨s', hs', hcases⟩ := s.scan_append_cases rest
    have hread : lexeme? (s.text ++ rest) = some (.symbol s', s'.text.length) := by
      rw [hs, List.cons_append] at hscan hs' ⊢
      rw [lexeme?, hscan]
      simp [hquote, hname, hs', Symbol.text]
    refine ⟨_, _, hread, hcases.imp_left ?_⟩
    rintro rfl
    exact ⟨rfl, rfl⟩

/-- What is read at the start of a word is the word, or is longer. -/
theorem Word.InLexicon.lexeme?_append_cases (h : w.InLexicon) (rest : Text) :
    ∃ l n, lexeme? (w.text ++ rest) = some (l, n) ∧
      (l = w.lexeme ∧ n = w.text.length ∨ w.text.length < n) := by
  cases h with
  | @number d text h =>
    obtain ⟨d', n, hscan, hcases⟩ := Decimal.scan_append_cases h rest
    exact ⟨_, n, lexeme?_of_scan hscan, hcases.imp_left (And.imp_left (congrArg _))⟩
  | @string mark body hmark h =>
    refine ⟨_, _, ?_, .inl ⟨rfl, rfl⟩⟩
    simp [lexeme?_of_isMark hmark, h.quotedBody_eq hmark]
  | @name c t hstart hgoes =>
    have hread := lexeme?_of_startsName hstart (t ++ rest)
    rw [List.takeWhile_append_of_pos hgoes] at hread
    refine ⟨_, _, hread, ?_⟩
    cases rest.takeWhile continuesName with
    | nil => exact .inl ⟨rfl, by simp⟩
    | cons => exact .inr (by simp)
  | symbol s => exact lexeme?_symbol_append_cases s rest

/-- The word that is read is the longest one at the start of the text. -/
theorem Word.heads_iff :
    w.Heads t ↔ w.text <+: t ∧ lexeme? t = some (w.lexeme, w.text.length) := by
  constructor
  · intro h
    refine ⟨h.isPrefix, ?_⟩
    obtain ⟨rest, rfl⟩ := h.isPrefix
    obtain ⟨l, n, hread, ⟨rfl, rfl⟩ | hlt⟩ := h.inLexicon.lexeme?_append_cases rest
    · exact hread
    · obtain ⟨text, rest', hw, heq, rfl⟩ := exists_word_of_lexeme? hread
      exact absurd hlt (Nat.not_lt.mpr (h.longest _ hw ⟨rest', heq.symm⟩))
  · rintro ⟨hbegins, hread⟩
    obtain ⟨text, rest, hw, rfl, hlength⟩ := exists_word_of_lexeme? hread
    obtain ⟨l, u⟩ := w
    obtain rfl : u = text := (List.prefix_of_prefix_length_le hbegins (List.prefix_append ..)
      hlength.ge).eq_of_length hlength.symm
    refine ⟨hw, hbegins, fun v hv ⟨rest', heq⟩ => ?_⟩
    obtain ⟨l', n, hread', hcases⟩ := hv.lexeme?_append_cases rest'
    rw [heq, hread] at hread'
    cases hread'
    rcases hcases with ⟨-, h⟩ | h <;> omega

/-- Nothing is read where no word begins. -/
theorem lexeme?_eq_none_iff : lexeme? t = none ↔ ∀ w : Word, w.InLexicon → ¬ w.text <+: t := by
  constructor
  · rintro hnone w hw ⟨rest, rfl⟩
    obtain ⟨l, n, hread, -⟩ := hw.lexeme?_append_cases rest
    rw [hnone] at hread
    cases hread
  · intro h
    refine Option.eq_none_iff_forall_not_mem.mpr fun ⟨l, n⟩ hread => ?_
    obtain ⟨text, rest, hw, rfl, -⟩ := exists_word_of_lexeme? hread
    exact h _ hw (List.prefix_append ..)

/-- A word is read as itself. -/
theorem Word.InLexicon.reads (h : w.InLexicon) : w.Reads :=
  (Word.heads_iff.mp ⟨h, List.prefix_rfl, fun _ _ => List.IsPrefix.length_le⟩).2

theorem Word.InLexicon.length_pos (h : w.InLexicon) : 0 < w.text.length := by
  refine List.length_pos_iff.mpr fun hnil => ?_
  have hread := h.reads
  rw [Word.Reads, hnil] at hread
  cases hread

end Expression

end MessageExtraction
