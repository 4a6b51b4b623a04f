import MessageExtraction.Proofs.Script.Escapes

/-!
# Ways to write a string literal

Between its marks a literal writes each character of its string as itself or by one of several
escapes, and a backslash before the end of a line writes nothing. Every way of writing is read back,
with one exception. A character beyond the first 65536 that is written by two escapes, one for each
half of its surrogate pair, is read as the two halves: they encode the character in UTF-16, but they
are two code points that no text of characters has.

## Main definitions

* `Script.WritesCharacter` -- the ways to write one character.
* `Script.Writes` -- the ways to write a string between marks.
* `Script.utf16` -- the code units of a text.
* `Script.Escape` -- an escape is read as a value.

## Main results

* `Writes.readsAs` -- what every way of writing is read as.
* `literalValue_of_writes` -- it is the string just where no halves are written.
-/

namespace MessageExtraction.Script

/-- What ends a line after a backslash that continues it. -/
def lineEnds : List Text :=
  [['\n'], ['\r'], ['\r', '\n'], ['\u2028'], ['\u2029']].map (·.map CodePoint.ofChar)

/-- What a backslash before a single character stands for, where it has a meaning of its own. -/
def characterEscapes : List (Char × Char) :=
  [('b', '\x08'), ('f', '\x0c'), ('n', '\n'), ('r', '\r'), ('t', '\t'), ('v', '\x0b'),
    ('\x27', '\x27'), ('\x22', '\x22'), ('\\', '\\')]

/-- The letters that have a meaning after a backslash. -/
def isEscapeLetter (c : CodePoint) : Bool :=
  c.isAny ['b', 'f', 'n', 'r', 't', 'v', 'x', 'u']

/-- Hexadecimal digits that stand for the number of a code point. -/
structure Numbers (digits : Text) (c : CodePoint) : Prop where
  areHexDigits : AreHexDigits digits
  hexNumber_eq : hexNumber digits = c.val

/-- The escape with four digits. -/
def fourDigitEscape (digits : Text) : Text :=
  '\\' :: 'u' :: digits

/-- The ways to write one character between marks, whatever comes next. -/
inductive WritesCharacter (mark : CodePoint) : (written : Text) → CodePoint → Prop
  | raw {c : CodePoint} (hmark : c ≠ mark) (hbackslash : c ≠ '\\')
      (hline : isLineEnd c = false) : WritesCharacter mark [c] c
  | named {letter ch : Char} (h : (letter, ch) ∈ characterEscapes) :
      WritesCharacter mark ['\\', letter] ch
  | twoDigits {digits : Text} {c : CodePoint} (h : Numbers digits c) (hlength : digits.length = 2) :
      WritesCharacter mark ('\\' :: 'x' :: digits) c
  | fourDigits {digits : Text} {c : CodePoint} (h : Numbers digits c)
      (hlength : digits.length = 4) : WritesCharacter mark (fourDigitEscape digits) c
  | braced {digits : Text} {c : CodePoint} (h : Numbers digits c) (hne : digits ≠ []) :
      WritesCharacter mark ('\\' :: 'u' :: '\x7b' :: (digits ++ Text.ofChar '\x7d')) c
  | kept {c : CodePoint} (hletter : isEscapeLetter c = false) (hdigit : c.isAsciiDigit = false)
      (hline : isLineEnd c = false) : WritesCharacter mark ['\\', c] c

/-- The code units that encode a code point in UTF-16. -/
def codeUnits (c : CodePoint) : List Nat :=
  if c.val < 0x10000 then [c.val]
  else [0xD800 + (c.val - 0x10000) / 0x400, 0xDC00 + (c.val - 0x10000) % 0x400]

/-- The code units that encode a text in UTF-16. -/
def utf16 (t : Text) : List Nat :=
  t.flatMap codeUnits

/-- The ways to write a string between marks. The pieces are its characters, except that one which
is written as the two halves of its surrogate pair is replaced by these. -/
inductive Writes (mark : CodePoint) : (body string pieces : Text) → Prop
  | nil : Writes mark [] [] []
  | character {written body string pieces : Text} {c : CodePoint}
      (hc : WritesCharacter mark written c) (h : Writes mark body string pieces) :
      Writes mark (written ++ body) (c :: string) (c :: pieces)
  | null {body string pieces : Text} (hnext : ∀ c ∈ body.head?, c.isAsciiDigit = false)
      (h : Writes mark body string pieces) :
      Writes mark ('\\' :: '0' :: body) ('\x00' :: string) ('\x00' :: pieces)
  | halves {first second body string pieces : Text} {c high low : CodePoint}
      (hfirst : Numbers first high) (hfour : first.length = 4) (hsecond : Numbers second low)
      (hfour' : second.length = 4) (hpair : codeUnits c = [high.val, low.val])
      (h : Writes mark body string pieces) :
      Writes mark (fourDigitEscape first ++ (fourDigitEscape second ++ body)) (c :: string)
        (high :: low :: pieces)
  | continuation {line body string pieces : Text} (hline : line ∈ lineEnds)
      (h : Writes mark body string pieces) : Writes mark ('\\' :: (line ++ body)) string pieces

/-- The escape of a backslash before these code points ends with them, when the given text comes
after it, and has a value. -/
structure Escape (escape rest value : Text) : Prop where
  length_eq : escapeLength (escape ++ rest) = escape.length
  value_eq : unescapeBody escape = .ok value
  ne_nil : escape ≠ []

/-- The fragments of a body have values, which make up a text. -/
def ReadsAs (body value : Text) : Prop :=
  ∃ values, (fragments body).mapM fragmentValue = .ok values ∧ values.flatten = value

section

variable {mark c : CodePoint} {escape rest value body string pieces digits : Text}

/-! ## Fragments -/

theorem readsAs_nil : ReadsAs [] [] :=
  ⟨[], by rw [fragments, mapM_eq_ok_nil_iff], rfl⟩

theorem ReadsAs.raw (hc : c ≠ '\\') (h : ReadsAs rest value) :
    ReadsAs (c :: rest) (c :: value) := by
  obtain ⟨values, hvalues, rfl⟩ := h
  have hno : c.is '\\' = false := Bool.eq_false_iff.mpr fun h => hc (CodePoint.is_iff.mp h)
  refine ⟨[c] :: values, mapM_eq_ok_cons_iff.mpr ⟨[c], fragments rest, ?_, rfl, hvalues⟩, rfl⟩
  rw [fragments]
  simp [hno]

theorem ReadsAs.escaped (hescape : Escape escape rest value) (h : ReadsAs rest string) :
    ReadsAs ('\\' :: (escape ++ rest)) (value ++ string) := by
  obtain ⟨values, hvalues, rfl⟩ := h
  have hbackslash : (CodePoint.ofChar '\\').is '\\' = true := rfl
  refine ⟨value :: values, mapM_eq_ok_cons_iff.mpr
    ⟨'\\' :: escape, fragments rest, ?_, ?_, hvalues⟩, rfl⟩
  · rw [fragments]
    simp [hbackslash, hescape.length_eq]
  · obtain ⟨c, t, rfl⟩ := List.exists_cons_of_ne_nil hescape.ne_nil
    exact hescape.value_eq

theorem literalValue_of_readsAs (h : ReadsAs body value) (mark : CodePoint) :
    literalValue (mark :: (body ++ [mark])) = .ok value := by
  obtain ⟨values, hvalues, rfl⟩ := h
  have hbody : ((mark :: (body ++ [mark])).drop 1).dropLast = body := List.dropLast_concat
  rw [literalValue, hbody, hvalues]
  rfl

/-! ## Where escapes end -/

theorem escapeLength_eq_one (hoctal : c.between '0' '7' = false) (hx : c.is 'x' = false)
    (hu : c.is 'u' = false) (hr : c.is '\r' = false) (t : Text) : escapeLength (c :: t) = 1 := by
  simp [escapeLength, hoctal, hx, hu, hr]

theorem isOctal_eq_false (h : c.isAsciiDigit = false) : c.between '0' '7' = false := by
  simp only [CodePoint.isAsciiDigit, CodePoint.between, Bool.and_eq_false_iff,
    decide_eq_false_iff_not, Char.reduceToNat] at h ⊢
  omega

theorem length_le_takeWhile_append (h : AreHexDigits digits) (t : Text) :
    digits.length ≤ ((digits ++ t).takeWhile fun c => c.hexValue?.isSome).length := by
  rw [List.takeWhile_append_of_pos h, List.length_append]
  exact Nat.le_add_right ..

theorem codePointOf_val (c : CodePoint) : codePointOf (c.val : Int) = .ok c := by
  have hlt := c.isLt
  rw [codePointOf, wordLimit, if_neg (by simp; omega), if_neg (by omega), Int.toNat_natCast,
    CodePoint.ofNat?, dif_pos hlt]

/-- The number of an escape without braces is that of its code point. -/
theorem unescapeBody_digits {letter : CodePoint} (hletter : letter = 'x' ∨ letter = 'u')
    (h : Numbers digits c) (hne : digits ≠ []) : unescapeBody (letter :: digits) = .ok [c] := by
  have hnumber : hexNumber? digits = some (c.val : Int) := by
    rw [hexNumber?_eq h.areHexDigits hne, h.hexNumber_eq]
  have hbrace := startsWith_brace_eq_false h.areHexDigits
  have hline : isLineEnd letter = false := by
    rcases hletter with rfl | rfl <;> rfl
  have hnumbered : letter.isAny ['u', 'x'] = true := by
    rcases hletter with rfl | rfl <;> rfl
  simp [unescapeBody, hline, hbrace, hnumbered, hne, hnumber, codePointOf_val]

theorem escape_twoDigits (h : Numbers digits c) (hlength : digits.length = 2) (rest : Text) :
    Escape ('x' :: digits) rest [c] where
  length_eq := by
    have hoctal : (CodePoint.ofChar 'x').between '0' '7' = false := rfl
    have hx : (CodePoint.ofChar 'x').is 'x' = true := rfl
    have htake := length_le_takeWhile_append h.areHexDigits rest
    rw [hlength] at htake
    simp [escapeLength, hoctal, hx, htake, hlength]
  value_eq := unescapeBody_digits (.inl rfl) h (List.ne_nil_of_length_pos (by omega))
  ne_nil := List.cons_ne_nil _ _

theorem escape_fourDigits (h : Numbers digits c) (hlength : digits.length = 4) (rest : Text) :
    Escape ('u' :: digits) rest [c] where
  length_eq := by
    have hoctal : (CodePoint.ofChar 'u').between '0' '7' = false := rfl
    have hx : (CodePoint.ofChar 'u').is 'x' = false := rfl
    have hu : (CodePoint.ofChar 'u').is 'u' = true := rfl
    have htake := length_le_takeWhile_append h.areHexDigits rest
    rw [hlength] at htake
    simp [escapeLength, hoctal, hx, hu, htake, hlength]
  value_eq := unescapeBody_digits (.inr rfl) h (List.ne_nil_of_length_pos (by omega))
  ne_nil := List.cons_ne_nil _ _

theorem escape_braced (h : Numbers digits c) (hne : digits ≠ []) (rest : Text) :
    Escape ('u' :: '\x7b' :: (digits ++ Text.ofChar '\x7d')) rest [c] where
  length_eq := by
    have hoctal : (CodePoint.ofChar 'u').between '0' '7' = false := rfl
    have hx : (CodePoint.ofChar 'u').is 'x' = false := rfl
    have hu : (CodePoint.ofChar 'u').is 'u' = true := rfl
    have hopen : (CodePoint.ofChar '\x7b').hexValue? = none := rfl
    have hclose : (CodePoint.ofChar '\x7d').hexValue? = none := rfl
    have htake : (digits ++ CodePoint.ofChar '\x7d' :: rest).takeWhile
        (fun c => c.hexValue?.isSome) = digits := by
      rw [List.takeWhile_append_of_pos h.areHexDigits]
      simp [hclose]
    have hpos := List.length_pos_iff.mpr hne
    have hdrop : (CodePoint.ofChar '\x7b' :: (digits ++ CodePoint.ofChar '\x7d' :: rest)).drop
        (1 + digits.length) = CodePoint.ofChar '\x7d' :: rest := by
      rw [Nat.add_comm, List.drop_succ_cons, List.drop_left]
    simp [escapeLength, hoctal, hx, hu, hopen, Text.ofChar, htake, hpos, hdrop, Text.startsWith,
      Text.after?]
  value_eq := by
    rw [unescapeBody_braced h.areHexDigits hne, h.hexNumber_eq, codePointOf_val]
    rfl
  ne_nil := List.cons_ne_nil _ _

theorem escape_named {letter ch : Char} (h : (letter, ch) ∈ characterEscapes) (rest : Text) :
    Escape [CodePoint.ofChar letter] rest [CodePoint.ofChar ch] := by
  simp only [characterEscapes, List.mem_cons, List.not_mem_nil, or_false, Prod.mk.injEq] at h
  rcases h with ⟨rfl, rfl⟩ | ⟨rfl, rfl⟩ | ⟨rfl, rfl⟩ | ⟨rfl, rfl⟩ | ⟨rfl, rfl⟩ | ⟨rfl, rfl⟩ |
    ⟨rfl, rfl⟩ | ⟨rfl, rfl⟩ | ⟨rfl, rfl⟩ <;>
  exact ⟨escapeLength_eq_one rfl rfl rfl rfl rest, rfl, List.cons_ne_nil _ _⟩

theorem escape_kept (hletter : isEscapeLetter c = false) (hdigit : c.isAsciiDigit = false)
    (hline : isLineEnd c = false) (rest : Text) : Escape [c] rest [c] := by
  simp only [isEscapeLetter, CodePoint.isAny, List.any_cons, List.any_nil, Bool.or_false,
    Bool.or_eq_false_iff] at hletter
  obtain ⟨hb, hf, hn, hr, ht, hv, hx, hu⟩ := hletter
  have hreturn : c.is '\r' = false := by
    rw [← Bool.not_eq_true, CodePoint.is_iff]
    rintro rfl
    cases hline
  have hzero : c.is '0' = false := by
    rw [← Bool.not_eq_true, CodePoint.is_iff]
    rintro rfl
    cases hdigit
  refine ⟨escapeLength_eq_one (isOctal_eq_false hdigit) hx hu hreturn rest, ?_,
    List.cons_ne_nil _ _⟩
  simp [unescapeBody, letterEscapes, CodePoint.isAny, hb, hf, hn, hr, ht, hv, hx, hu, hzero, hline]

theorem escape_null (hnext : ∀ c ∈ rest.head?, c.isAsciiDigit = false) :
    Escape ['0'] rest ['\x00'] where
  length_eq := by
    have hoctal : (CodePoint.ofChar '0').between '0' '7' = true := rfl
    have htake : (rest.take 2).takeWhile (fun c => c.between '0' '7') = [] := by
      cases rest with
      | nil => rfl
      | cons d t =>
        simp [isOctal_eq_false (hnext d rfl)]
    simp [escapeLength, hoctal, htake]
  value_eq := rfl
  ne_nil := List.cons_ne_nil _ _

theorem escape_lineEnd {line : Text} (hline : line ∈ lineEnds)
    (hnext : ∀ c ∈ rest.head?, c ≠ '\n') : Escape line rest [] := by
  simp only [lineEnds, List.map_cons, List.map_nil, List.mem_cons, List.not_mem_nil, or_false]
    at hline
  rcases hline with rfl | rfl | rfl | rfl | rfl
  · exact ⟨escapeLength_eq_one rfl rfl rfl rfl rest, rfl, List.cons_ne_nil _ _⟩
  · refine ⟨?_, rfl, List.cons_ne_nil _ _⟩
    have hno : Text.startsWith rest ['\n'] = false := by
      rw [← Bool.not_eq_true, Text.startsWith_iff_prefix]
      rintro ⟨t, rfl⟩
      exact hnext _ rfl rfl
    have hoctal : (CodePoint.ofChar '\r').between '0' '7' = false := rfl
    have hx : (CodePoint.ofChar '\r').is 'x' = false := rfl
    have hu : (CodePoint.ofChar '\r').is 'u' = false := rfl
    simp [escapeLength, hoctal, hx, hu, hno]
  · exact ⟨rfl, rfl, List.cons_ne_nil _ _⟩
  · exact ⟨escapeLength_eq_one rfl rfl rfl rfl rest, rfl, List.cons_ne_nil _ _⟩
  · exact ⟨escapeLength_eq_one rfl rfl rfl rfl rest, rfl, List.cons_ne_nil _ _⟩

/-! ## Ways to write a string -/

/-- No way to write a string begins with a line feed. -/
theorem Writes.head_ne (h : Writes mark body string pieces) : ∀ c ∈ body.head?, c ≠ '\n' := by
  rintro c hc rfl
  cases h with
  | nil => cases hc
  | character hwritten _ =>
    cases hwritten with
    | raw _ _ hline =>
      cases hc
      cases hline
    | named | twoDigits | fourDigits | braced | kept => cases hc
  | null | halves | continuation => cases hc

/-- The way in which a character is written is read as that character. -/
theorem ReadsAs.character {written : Text} (hc : WritesCharacter mark written c)
    (h : ReadsAs rest value) : ReadsAs (written ++ rest) (c :: value) := by
  cases hc with
  | raw _ hbackslash _ => exact h.raw hbackslash
  | named hnamed => exact h.escaped (escape_named hnamed rest)
  | twoDigits hnumber hlength => exact h.escaped (escape_twoDigits hnumber hlength rest)
  | fourDigits hnumber hlength => exact h.escaped (escape_fourDigits hnumber hlength rest)
  | braced hnumber hne => exact h.escaped (escape_braced hnumber hne rest)
  | kept hletter hdigit hline => exact h.escaped (escape_kept hletter hdigit hline rest)

/-- A way to write a string is read as its pieces. -/
theorem Writes.readsAs (h : Writes mark body string pieces) : ReadsAs body pieces := by
  induction h with
  | nil => exact readsAs_nil
  | character hc _ ih => exact ih.character hc
  | null hnext _ ih => exact ih.escaped (escape_null hnext)
  | halves hfirst hfour hsecond hfour' _ _ ih =>
    -- each half is an escape of its own, and nothing joins them
    have hlow := ih.escaped (escape_fourDigits hsecond hfour' _)
    exact hlow.escaped (escape_fourDigits hfirst hfour _)
  | continuation hline h ih => exact ih.escaped (escape_lineEnd hline h.head_ne)

/-- The units of a surrogate pair are its two halves. -/
theorem halves_of_codeUnits {high low : CodePoint} (h : codeUnits c = [high.val, low.val]) :
    (0xD800 ≤ high.val ∧ high.val < 0xDC00) ∧ 0xDC00 ≤ low.val ∧ low.val < 0xE000 := by
  have hlt := c.isLt
  rw [codeUnits] at h
  split at h
  · exact absurd (List.cons.inj h).2.symm (List.cons_ne_nil _ _)
  · obtain ⟨hhigh, h⟩ := List.cons.inj h
    obtain ⟨hlow, -⟩ := List.cons.inj h
    omega

/-- The pieces of a string encode it. -/
theorem Writes.utf16_eq (h : Writes mark body string pieces) : utf16 pieces = utf16 string := by
  induction h with
  | nil => rfl
  | character _ _ ih | null _ _ ih => rw [utf16, utf16, List.flatMap_cons, List.flatMap_cons,
      ← utf16, ← utf16, ih]
  | halves _ _ _ _ hpair _ ih =>
    obtain ⟨hhigh, hlow⟩ := halves_of_codeUnits hpair
    rw [utf16, utf16, List.flatMap_cons, List.flatMap_cons, List.flatMap_cons, ← utf16, ← utf16, ih,
      hpair, codeUnits, codeUnits, if_pos (by omega), if_pos (by omega)]
    rfl
  | continuation _ _ ih => exact ih

/-- The pieces of a string are its characters, or one of them is half a surrogate pair. -/
theorem Writes.eq_or_exists_isSurrogate (h : Writes mark body string pieces) :
    pieces = string ∨ ∃ c ∈ pieces, c.isSurrogate = true := by
  induction h with
  | nil => exact .inl rfl
  | character _ _ ih | null _ _ ih =>
    refine ih.imp (congrArg _) ?_
    rintro ⟨d, hd, hhalf⟩
    exact ⟨d, List.mem_cons_of_mem _ hd, hhalf⟩
  | @halves _ _ _ _ _ _ high _ _ _ _ _ hpair =>
    obtain ⟨hhigh, -⟩ := halves_of_codeUnits hpair
    refine .inr ⟨high, List.mem_cons_self, ?_⟩
    simp only [CodePoint.isSurrogate, Bool.and_eq_true, decide_eq_true_eq]
    omega
  | continuation _ _ ih => exact ih

/-- A string literal is read as the pieces in which its string is written. They encode the string in
UTF-16, and they are the string just if none of them is half a surrogate pair. -/
theorem literalValue_of_writes (h : Writes mark body string pieces)
    (hscalar : ∀ c ∈ string, c.isSurrogate = false) :
    literalValue (mark :: (body ++ [mark])) = .ok pieces ∧ utf16 pieces = utf16 string ∧
      (pieces = string ↔ ∀ c ∈ pieces, c.isSurrogate = false) := by
  refine ⟨literalValue_of_readsAs h.readsAs mark, h.utf16_eq, ?_, fun hwhole => ?_⟩
  · rintro rfl
    exact hscalar
  · refine h.eq_or_exists_isSurrogate.resolve_right ?_
    rintro ⟨c, hc, hhalf⟩
    rw [hwhole c hc] at hhalf
    cases hhalf

end

/-- The character U+1F600. -/
def grinningFace : CodePoint :=
  ⟨0x1F600, by decide⟩

/-- The two halves of its surrogate pair. -/
def faceHalves : Text :=
  [⟨0xD83D, by decide⟩, ⟨0xDE00, by decide⟩]

/-- The body of a literal that writes these halves. -/
def facePair : Text :=
  ['\\', 'u', 'd', '8', '3', 'd', '\\', 'u', 'D', 'E', '0', '0'].map CodePoint.ofChar

/-- A body that goes on in a second line, where it writes the face by its number. -/
def twoLines : Text :=
  ['\\', '\r', '\n', '\\', 'u', '\x7b', '1', 'f', '6', '0', '0', '\x7d', '\\', 't'].map
    CodePoint.ofChar

theorem writes_facePair {mark : CodePoint} {body string pieces : Text}
    (h : Writes mark body string pieces) :
    Writes mark (facePair ++ body) (grinningFace :: string) (faceHalves ++ pieces) := by
  have hhigh : Numbers (['d', '8', '3', 'd'].map CodePoint.ofChar) ⟨0xD83D, by decide⟩ :=
    ⟨by decide, by decide⟩
  have hlow : Numbers (['D', 'E', '0', '0'].map CodePoint.ofChar) ⟨0xDE00, by decide⟩ :=
    ⟨by decide, by decide⟩
  exact .halves hhigh rfl hlow rfl rfl h

theorem writes_twoLines (mark : CodePoint) :
    Writes mark twoLines [grinningFace, CodePoint.ofChar '\t']
      [grinningFace, CodePoint.ofChar '\t'] := by
  have hnumber : Numbers (['1', 'f', '6', '0', '0'].map CodePoint.ofChar) grinningFace :=
    ⟨by decide, by decide⟩
  have htab : Writes mark (['\\', 't'].map CodePoint.ofChar) ['\t'] ['\t'] :=
    .character (.named (by decide : ('t', '\t') ∈ characterEscapes)) .nil
  have hface := Writes.character (.braced hnumber (List.cons_ne_nil _ _)) htab
  exact .continuation (by decide : ['\r', '\n'].map CodePoint.ofChar ∈ lineEnds) hface

/-- A face and, in a second line, a face and a tab. The first face is read as its halves. -/
theorem literalValue_facePair_twoLines :
    Writes '\x27' (facePair ++ twoLines) [grinningFace, grinningFace, '\t']
        (faceHalves ++ [grinningFace, CodePoint.ofChar '\t']) ∧
      (∀ c ∈ [grinningFace, grinningFace, CodePoint.ofChar '\t'], c.isSurrogate = false) ∧
      literalValue ('\x27' :: ((facePair ++ twoLines) ++ [CodePoint.ofChar '\x27'])) =
        .ok (faceHalves ++ [grinningFace, CodePoint.ofChar '\t']) := by
  have hwrites := writes_facePair (writes_twoLines '\x27')
  have hscalar : ∀ c ∈ [grinningFace, grinningFace, CodePoint.ofChar '\t'],
      c.isSurrogate = false := by decide
  exact ⟨hwrites, hscalar, (literalValue_of_writes hwrites hscalar).1⟩

/-- A literal that writes a face by the two halves of its surrogate pair does not have the face as
its value. -/
theorem literalValue_facePair :
    (∃ pieces, Writes '\x27' facePair [grinningFace] pieces) ∧ grinningFace.isSurrogate = false ∧
      literalValue ('\x27' :: (facePair ++ [CodePoint.ofChar '\x27'])) ≠ .ok [grinningFace] := by
  have hwrites : Writes '\x27' facePair [grinningFace] faceHalves := writes_facePair .nil
  refine ⟨⟨_, hwrites⟩, rfl, ?_⟩
  rw [literalValue_of_readsAs hwrites.readsAs]
  decide

end MessageExtraction.Script
