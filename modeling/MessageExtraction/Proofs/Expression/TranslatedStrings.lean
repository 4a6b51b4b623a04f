import MessageExtraction.Proofs.Expression.Acceptance
import MessageExtraction.Proofs.Expression.QuoteEntities
import MessageExtraction.Proofs.Expression.RoundTrip

/-!
# Strings piped into the filter `translate`

A string is written between quotation marks, with a backslash before every mark and every backslash,
and piped into the filter `translate`. Looking for messages restores the entities of quotation
marks, cuts the text into tokens, takes the backslashes away and reads the tokens. None of these
steps gets in the way of another: the string is the only message, with double quotes for its
entities.

Between single quotes a restored double quote ends nothing. Between double quotes it would, so there
the string must hold no entity.

## Main definitions

* `literal` -- a string between quotation marks.
* `intoTranslate` -- the bar and the name of the filter.

## Main results

* `Restores.literal` -- restoring a literal is restoring its string.
* `messagesIn_literal_intoTranslate` -- the message of a string that is piped into the filter.
-/

namespace MessageExtraction.Expression

/-- A string between quotation marks, with a backslash before every mark and every backslash. -/
def literal (mark : CodePoint) (s : Text) : Text :=
  mark :: (escape mark s ++ [mark])

/-- A bar and the filter `translate`, each after a space. -/
def intoTranslate : Text :=
  [' ', '|', ' '].map CodePoint.ofChar ++ translateFilter

section

variable {c mark : CodePoint} {e p s t u v rest name value text : Text}

/-! ## Restoring a literal -/

/-- A text without ampersands is kept. -/
theorem Restores.append (ht : CodePoint.ofChar '&' ∉ t) (h : Restores u v) :
    Restores (t ++ u) (t ++ v) := by
  induction t with
  | nil => exact h
  | cons c t ih =>
    have hc : c ≠ '&' := (List.ne_of_not_mem_cons ht).symm
    exact .plain (not_prefix_of_ne hc _) (ih (List.not_mem_of_not_mem_cons ht))

theorem not_mem_of_isMark (hmark : IsMark mark) (he : e ∈ quoteEntities) : mark ∉ e := by
  obtain ⟨-, hdouble, hsingle, -⟩ := entity_spec he
  rcases hmark with rfl | rfl
  · exact hsingle
  · exact hdouble

theorem escape_append (hmark : mark ∉ t) (hbackslash : CodePoint.ofChar '\\' ∉ t) (s : Text) :
    escape mark (t ++ s) = t ++ escape mark s := by
  induction t with
  | nil => rfl
  | cons c t ih =>
    have hc : ¬ (c = mark ∨ c = '\\') := by
      rintro (rfl | rfl)
      · exact hmark List.mem_cons_self
      · exact hbackslash List.mem_cons_self
    rw [List.cons_append, escape, if_neg hc, List.cons_append,
      ih (List.not_mem_of_not_mem_cons hmark) (List.not_mem_of_not_mem_cons hbackslash)]

/-- What begins the body of a literal without marks and backslashes begins its string. -/
theorem prefix_of_prefix_escape (hmark : mark ∉ p) (hbackslash : CodePoint.ofChar '\\' ∉ p)
    (h : p <+: escape mark s ++ mark :: rest) : p <+: s := by
  induction p generalizing s with
  | nil => exact List.nil_prefix
  | cons d p ih =>
    have hd := List.ne_of_not_mem_cons hmark
    cases s with
    | nil => exact absurd (List.cons_prefix_cons.mp h).1.symm hd
    | cons c s =>
      rw [escape] at h
      split at h
      · exact absurd (List.cons_prefix_cons.mp h).1.symm (List.ne_of_not_mem_cons hbackslash)
      · obtain ⟨rfl, h'⟩ := List.cons_prefix_cons.mp h
        exact List.cons_prefix_cons.mpr ⟨rfl, ih (List.not_mem_of_not_mem_cons hmark)
          (List.not_mem_of_not_mem_cons hbackslash) h'⟩

/-- Restoring the body of a literal is restoring its string, unless a double quote that takes the
place of an entity would end the literal. -/
theorem Restores.body (h : Restores s v) (hmark : IsMark mark) (hv : mark = '\x27' ∨ v = s)
    (hrest : CodePoint.ofChar '&' ∉ rest) :
    Restores (escape mark s ++ mark :: rest) (escape mark v ++ mark :: rest) := by
  have hplain : mark ≠ '&' ∧ CodePoint.ofChar '\\' ≠ '&' := by
    rcases hmark with rfl | rfl <;> decide
  induction h with
  | nil =>
    have hkept := Restores.append (t := mark :: rest)
      (List.not_mem_cons_of_ne_of_not_mem hplain.1.symm hrest) .nil
    rwa [List.append_nil] at hkept
  | @entity e t u he _ ih =>
    obtain ⟨⟨e', rfl⟩, -, -, hbackslash⟩ := entity_spec he
    obtain rfl : mark = '\x27' := by
      refine hv.resolve_right fun h => ?_
      exact absurd (List.cons.inj h).1 (by decide)
    have hquote : escape '\x27' ('\x22' :: u) = CodePoint.ofChar '\x22' :: escape '\x27' u := by
      rw [escape, if_neg (by decide)]
    rw [escape_append (not_mem_of_isMark hmark he) hbackslash, hquote, List.append_assoc]
    exact .entity he (ih (.inl rfl))
  | @plain c t u hno _ ih =>
    have ih := ih (hv.imp_right fun h => (List.cons.inj h).2)
    rw [escape, escape]
    split
    · next hc =>
      have hc : c ≠ '&' := by
        rcases hc with rfl | rfl
        · exact hplain.1
        · exact hplain.2
      exact .plain (not_prefix_of_ne hplain.2 _) (.plain (not_prefix_of_ne hc _) ih)
    · next hc =>
      refine .plain (fun e he h => hno e he ?_) ih
      have hcons : e <+: escape mark (c :: t) ++ mark :: rest := by rwa [escape, if_neg hc]
      exact prefix_of_prefix_escape (not_mem_of_isMark hmark he) (entity_spec he).2.2.2 hcons

theorem Restores.literal (h : Restores s v) (hmark : IsMark mark) (hv : mark = '\x27' ∨ v = s)
    (hrest : CodePoint.ofChar '&' ∉ rest) :
    Restores (literal mark s ++ rest) (literal mark v ++ rest) := by
  have hc : mark ≠ '&' := by rcases hmark with rfl | rfl <;> decide
  simp only [Expression.literal, List.cons_append, List.append_assoc, List.nil_append]
  exact .plain (not_prefix_of_ne hc _) (h.body hmark hv hrest)

/-- A text without entities is restored to itself. -/
theorem restores_self (h : ∀ e ∈ quoteEntities, ¬ e <:+: s) : Restores s s := by
  induction s with
  | nil => exact .nil
  | cons c s ih =>
    exact .plain (fun e he hbegins => h e he hbegins.isInfix)
      (ih fun e he hwithin => h e he (hwithin.trans (List.suffix_cons c s).isInfix))

/-! ## Reading it -/

/-- A string to which a filter is applied is read as that. -/
theorem parse_filteredString (h : TokenizesAs t [⟨.string value, text⟩, Symbol.pipe.word,
    nameWord name]) : parse t = .ok [.filter name (.string value) []] := by
  obtain ⟨tokens, htokens, hwords⟩ := h 0
  simp only [List.map_eq_cons_iff, List.map_eq_nil_iff] at hwords
  obtain ⟨⟨_, _, i⟩, _, rfl, ht₁, ⟨_, _, j⟩, _, rfl, ht₂, ⟨_, _, k⟩, _, rfl, ht₃, rfl⟩ := hwords
  cases ht₁
  cases ht₂
  cases ht₃
  exact parse_of_program htokens rfl

theorem tokenizesAs_literal_intoTranslate (hmark : IsMark mark) (s : Text) :
    TokenizesAs (literal mark s ++ intoTranslate)
      [⟨.string s, literal mark s⟩, Symbol.pipe.word, nameWord translateFilter] := by
  have hliteral : Word.Reads ⟨.string s, literal mark s⟩ := by
    have hread := (quotes_escape hmark s).lexeme?_eq hmark
    rwa [Word.Reads, literal, List.length_cons, List.length_append, List.length_singleton]
  have hname : (nameWord translateFilter).Reads := reads_nameWord (by decide)
  have htext : literal mark s ++ intoTranslate =
      spaced [⟨.string s, literal mark s⟩, Symbol.pipe.word, nameWord translateFilter] ++ [] := by
    simp only [spaced, List.map_cons, List.map_nil, Text.join, List.append_assoc, List.append_nil]
    rfl
  rw [htext]
  exact .spaced (List.forall_mem_cons.mpr ⟨hliteral,
    List.forall_mem_cons.mpr ⟨Symbol.pipe.reads_word, List.forall_mem_singleton.mpr hname⟩⟩)
    trivial tokenizesAs_nil

theorem messagesIn_of_restores (hmark : IsMark mark) (h : Restores s v)
    (hv : mark = '\x27' ∨ v = s) : messagesIn (literal mark s ++ intoTranslate) = [v] := by
  have hno : CodePoint.ofChar '&' ∉ intoTranslate := by decide
  have hrestored := (h.literal hmark hv hno).eq_restoreQuotes
  rw [messagesIn, findingsIn, ← hrestored,
    parse_filteredString (tokenizesAs_literal_intoTranslate hmark v)]
  simp [listFindings, Expr.findings, Expr.asFinding, Finding.message?]

/-- A string between single quotes that is piped into the filter is a message, with a double quote
in place of every entity of a quotation mark, and there is no other message. So is a string without
entities between double quotes. -/
theorem messagesIn_literal_intoTranslate (s : Text) :
    (∃ v, Restores s v ∧ messagesIn (literal '\x27' s ++ intoTranslate) = [v]) ∧
      ((∀ e ∈ quoteEntities, ¬ e <:+: s) →
        messagesIn (literal '\x22' s ++ intoTranslate) = [s]) :=
  ⟨⟨restoreQuotes s, restores_restoreQuotes s,
      messagesIn_of_restores (.inl rfl) (restores_restoreQuotes s) (.inl rfl)⟩,
    fun h => messagesIn_of_restores (.inr rfl) (restores_self h) (.inr rfl)⟩

end

/-- A backslash, the letter `u`, a double quote and a line feed. -/
def awkwardString : Text :=
  ['\\', 'u', '\x22', '\n'].map CodePoint.ofChar

/-- A string that holds the mark around it and what looks like an escape is a message. -/
theorem messagesIn_awkwardString :
    (∀ e ∈ quoteEntities, ¬ e <:+: awkwardString) ∧
      messagesIn (literal '\x22' awkwardString ++ intoTranslate) = [awkwardString] := by
  have hno : ∀ e ∈ quoteEntities, ¬ e <:+: awkwardString := by decide
  exact ⟨hno, (messagesIn_literal_intoTranslate awkwardString).2 hno⟩

end MessageExtraction.Expression
