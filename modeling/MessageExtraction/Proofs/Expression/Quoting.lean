import MessageExtraction.Proofs.Expression.Lexing

/-!
# Quoted strings

Between its marks a string may be written in many ways. A code point stands for
itself unless it is the mark or a backslash. After a backslash stand a letter
that names a code point, the letter `u` and the four hexadecimal digits of one,
or any other code point for itself.

## Main definitions

* `IsBody` -- what can stand between two marks.
* `Quotes` -- the ways to write a string between its marks.
* `escape` -- the way that has a backslash only where one is needed.

## Main statements

* `Quotes.lexeme?_eq` -- a string written in one of these ways is read as that string.
* `quotes_escape` -- `escape` is one of these ways.
-/

namespace MessageExtraction.Expression

/-- The two quotation marks. -/
def IsMark (c : CodePoint) : Prop :=
  c = '\x27' ∨ c = '\x22'

/-- What can stand between quotation marks: a backslash takes the next code point with it, and any
other code point is neither the mark nor a backslash. -/
inductive IsBody (mark : CodePoint) : Text → Prop
  | nil : IsBody mark []
  | plain {c : CodePoint} {body : Text} (hmark : c ≠ mark) (hbackslash : c ≠ '\\')
      (h : IsBody mark body) : IsBody mark (c :: body)
  | escaped {c : CodePoint} {body : Text} (h : IsBody mark body) : IsBody mark ('\\' :: c :: body)

/-- The body between two quotation marks is a way to write a text. -/
inductive Quotes (mark : CodePoint) : (body value : Text) → Prop
  | nil : Quotes mark [] []
  | plain {c : CodePoint} {body value} (hmark : c ≠ mark) (hbackslash : c ≠ '\\')
      (h : Quotes mark body value) :
      Quotes mark (c :: body) (c :: value)
  | escaped {c : CodePoint} {body value} (hu : c ≠ 'u') (h : Quotes mark body value) :
      Quotes mark ('\\' :: c :: body) (escapeValue c :: value)
  | numbered {digits body value point} (hdigits : numbered? digits = some (point, []))
      (h : Quotes mark body value) :
      Quotes mark ('\\' :: 'u' :: (digits ++ body)) (point :: value)

section

variable {mark c point : CodePoint} {digits body value t rest : Text}

/-! ## Four hexadecimal digits -/

theorem numbered?_append (h : numbered? digits = some (point, [])) (t : Text) :
    numbered? (digits ++ t) = some (point, t) := by
  obtain ⟨n, hdigits, hpoint⟩ := numbered?_eq_some.mp h
  exact numbered?_eq_some.mpr ⟨n, Text.fourHexDigits?_append hdigits t, hpoint⟩

/-- A hexadecimal digit is no quotation mark and no backslash. -/
theorem ne_of_hexValue? (h : c.hexValue?.isSome) (hmark : IsMark mark) : c ≠ mark ∧ c ≠ '\\' := by
  refine ⟨fun hc => ?_, fun hc => ?_⟩
  · rcases hmark with hmark | hmark <;>
      · rw [hc, hmark] at h
        cases h
  · rw [hc] at h
    cases h

theorem forall_hexValue? (h : numbered? digits = some (point, [])) :
    ∀ c ∈ digits, c.hexValue?.isSome := by
  obtain ⟨n, hdigits, -⟩ := numbered?_eq_some.mp h
  exact Text.forall_hexValue?_of_fourHexDigits? hdigits

/-! ## The body of a quoted string -/

theorem quotedBody_cons (hmark : c ≠ mark) (hbackslash : c ≠ '\\') (t : Text) :
    quotedBody mark (c :: t) = (quotedBody mark t).map fun (body, rest) => (c :: body, rest) := by
  have hc : c.is '\\' = false := Bool.eq_false_iff.mpr fun h => hbackslash (CodePoint.is_iff.mp h)
  cases t with
  | nil => simp [quotedBody, hmark]
  | cons d t => simp [quotedBody, hmark, hc]

theorem quotedBody_backslash (hmark : IsMark mark) (c : CodePoint) (t : Text) :
    quotedBody mark ('\\' :: c :: t) =
      (quotedBody mark t).map fun (body, rest) => ('\\' :: c :: body, rest) := by
  have hne : CodePoint.ofChar '\\' ≠ mark := by
    rcases hmark with rfl | rfl <;> decide
  have hc : (CodePoint.ofChar '\\').is '\\' = true := rfl
  simp [quotedBody, hne, hc]

/-- A body ends at the mark after it. -/
theorem IsBody.quotedBody_eq (h : IsBody mark body) (hmark : IsMark mark) (t : Text) :
    quotedBody mark (body ++ mark :: t) = some (body, t) := by
  induction h with
  | nil => cases t <;> simp [quotedBody]
  | plain hc hbackslash _ ih => rw [List.cons_append, quotedBody_cons hc hbackslash, ih]; rfl
  | escaped _ ih => rw [List.cons_append, List.cons_append, quotedBody_backslash hmark, ih]; rfl

/-- What is cut off at a mark is a body. -/
theorem isBody_of_quotedBody (h : quotedBody mark t = some (body, rest)) :
    IsBody mark body ∧ t = body ++ mark :: rest := by
  fun_induction quotedBody mark t generalizing body rest with
  | case1 => cases h
  | case2 =>
    cases h
    exact ⟨.nil, rfl⟩
  | case3 => cases h
  | case4 =>
    cases h
    exact ⟨.nil, rfl⟩
  | case5 c d t hmark hbackslash ih =>
    obtain ⟨⟨body', rest'⟩, hquoted, heq⟩ := Option.map_eq_some_iff.mp h
    cases heq
    obtain ⟨hbody, rfl⟩ := ih hquoted
    rw [CodePoint.is_iff.mp hbackslash]
    exact ⟨.escaped hbody, rfl⟩
  | case6 c d t hmark hbackslash ih =>
    obtain ⟨⟨body', rest'⟩, hquoted, heq⟩ := Option.map_eq_some_iff.mp h
    cases heq
    obtain ⟨hbody, heq⟩ := ih hquoted
    exact ⟨.plain hmark (fun h => hbackslash (CodePoint.is_iff.mpr h)) hbody,
      congrArg (c :: ·) heq⟩

/-- Plain code points stand for themselves in a body. -/
theorem IsBody.append (h : ∀ c ∈ digits, c ≠ mark ∧ c ≠ '\\') (hbody : IsBody mark body) :
    IsBody mark (digits ++ body) := by
  induction digits with
  | nil => exact hbody
  | cons c digits ih =>
    obtain ⟨hc, hdigits⟩ := List.forall_mem_cons.mp h
    exact .plain hc.1 hc.2 (ih hdigits)

theorem Quotes.isBody (h : Quotes mark body value) (hmark : IsMark mark) : IsBody mark body := by
  induction h with
  | nil => exact .nil
  | plain hc hbackslash _ ih => exact .plain hc hbackslash ih
  | escaped _ _ ih => exact .escaped ih
  | numbered hdigits _ ih =>
    exact .escaped (ih.append fun c hc => ne_of_hexValue? (forall_hexValue? hdigits c hc) hmark)

/-! ## The value of a quoted string -/

theorem unescape_cons (h : c ≠ '\\') (t : Text) : unescape (c :: t) = c :: unescape t := by
  have hc : c.is '\\' = false := Bool.eq_false_iff.mpr fun h' => h (CodePoint.is_iff.mp h')
  cases t with
  | nil => simp [unescape]
  | cons d t =>
    rw [unescape]
    simp [hc]

theorem unescape_backslash (h : c ≠ 'u') (t : Text) :
    unescape ('\\' :: c :: t) = escapeValue c :: unescape t := by
  have hc : c.is 'u' = false := Bool.eq_false_iff.mpr fun h' => h (CodePoint.is_iff.mp h')
  have hbackslash : (CodePoint.ofChar '\\').is '\\' = true := rfl
  rw [unescape]
  simp [hc, hbackslash]

theorem unescape_numbered (h : numbered? digits = some (point, [])) (t : Text) :
    unescape ('\\' :: 'u' :: (digits ++ t)) = point :: unescape t := by
  have hu : (CodePoint.ofChar 'u').is 'u' = true := rfl
  have hbackslash : (CodePoint.ofChar '\\').is '\\' = true := rfl
  rw [unescape, if_pos hbackslash, if_pos hu]
  split
  · next heq =>
    rw [numbered?_append h] at heq
    cases heq
    rfl
  · next heq =>
    rw [numbered?_append h] at heq
    cases heq

/-- The value of a body is what it is a way to write. -/
theorem Quotes.unescape_eq (h : Quotes mark body value) : unescape body = value := by
  induction h with
  | nil => rw [unescape]
  | plain _ hbackslash _ ih => rw [unescape_cons hbackslash, ih]
  | escaped hu _ ih => rw [unescape_backslash hu, ih]
  | numbered hdigits _ ih => rw [unescape_numbered hdigits, ih]

/-- A string is read up to its mark. -/
theorem lexeme?_of_isMark (hmark : IsMark mark) (t : Text) :
    lexeme? (mark :: t) =
      (quotedBody mark t).map fun (body, _) => (.string (unescape body), body.length + 2) := by
  have hscan : Decimal.scan (mark :: t) = none := by
    rcases hmark with rfl | rfl <;> exact Decimal.scan_eq_none rfl rfl t
  have hquote : (mark.is '\x27' || mark.is '\x22') = true := by
    rcases hmark with rfl | rfl <;> rfl
  rw [lexeme?, hscan]
  exact if_pos hquote

/-- A string between its marks is read as that string. -/
theorem Quotes.lexeme?_eq (h : Quotes mark body value) (hmark : IsMark mark) :
    lexeme? (mark :: (body ++ [mark])) = some (.string value, body.length + 2) := by
  simp [lexeme?_of_isMark hmark, (h.isBody hmark).quotedBody_eq hmark, h.unescape_eq]

end

/-! ## The plainest way -/

/-- A text between marks with a backslash before every mark and every backslash. -/
def escape (mark : CodePoint) : Text → Text
  | [] => []
  | c :: t => if c = mark ∨ c = '\\' then '\\' :: c :: escape mark t else c :: escape mark t

theorem quotes_escape {mark : CodePoint} (hmark : IsMark mark) (t : Text) :
    Quotes mark (escape mark t) t := by
  induction t with
  | nil => exact .nil
  | cons c t ih =>
    rw [escape]
    split
    · next hc =>
      -- neither a mark nor a backslash is a letter that names another code point
      obtain ⟨hu, hvalue⟩ : c ≠ 'u' ∧ escapeValue c = c := by
        rcases hc with rfl | rfl
        · rcases hmark with rfl | rfl <;> decide
        · decide
      have h := Quotes.escaped hu ih
      rwa [hvalue] at h
    · next hc => exact .plain (fun h => hc (.inl h)) (fun h => hc (.inr h)) ih

end MessageExtraction.Expression
