import MessageExtraction.Expression.Parser
import MessageExtraction.Proofs.Expression.Grammar
import MessageExtraction.Proofs.Failing

/-!
# What phrases begin with and what ends them

The parser decides by the next token alone. Two facts make these decisions
right: no phrase begins with a symbol that closes one, and a phrase is taken as
far as the symbols go that continue it. The symbols that continue a phrase are
ordered by how tightly they hold to what stands before them.

## Main definitions

* `Symbol.strength` -- how tightly a symbol holds to what stands before it.
* `Settles` -- the next symbol holds less tightly than a bound.
* `Opens` -- the first token satisfies a condition.

## Main statements

* `Derives.begins` -- how the phrases begin.
-/

namespace MessageExtraction.Expression

/-! ## Steps of the parser -/

section

variable {α β ε : Type}

@[simp]
theorem ok_bind (a : α) (f : α → Except ε β) : (Except.ok a >>= f) = f a :=
  rfl

variable {s : Symbol} {tx : Text} {i : Nat} {ts us : List Token}

@[simp]
theorem nextIs_cons_self : nextIs s (⟨.symbol s, tx, i⟩ :: ts) = true :=
  decide_eq_true rfl

@[simp]
theorem consume_cons_self : consume s (⟨.symbol s, tx, i⟩ :: ts) = .ok ts :=
  if_pos rfl

theorem nextIs_iff : nextIs s ts ↔ ∃ tx i us, ts = ⟨.symbol s, tx, i⟩ :: us := by
  cases ts with
  | nil => simp [nextIs]
  | cons t ts =>
    obtain ⟨lexeme, tx, i⟩ := t
    simp [nextIs]

theorem consume_eq_ok (h : consume s ts = .ok us) : ∃ tx i, ts = ⟨.symbol s, tx, i⟩ :: us := by
  cases ts with
  | nil => cases h
  | cons t ts =>
    obtain ⟨lexeme, tx, i⟩ := t
    rw [consume] at h
    split at h
    · next hs =>
      cases h
      exact ⟨tx, i, by rw [← hs]⟩
    · cases h

end

/-! ## What ends a phrase -/

/-- How tightly a symbol holds to what stands before it; one that continues nothing has no
strength. -/
def Symbol.strength : Symbol → Nat
  | pipe => 1
  | colon => 2
  | assign => 3
  | question => 4
  | openParen | openBracket | dot => levelCount + 6
  | s => (s.binary?.map fun operator => operator.level + 5).getD 0

/-- The symbol that comes next, if one does, holds less tightly than a bound. -/
def Settles (bound : Nat) : List Token → Prop
  | ⟨.symbol s, _, _⟩ :: _ => s.strength < bound
  | _ => True

section

variable {m n : Nat} {s : Symbol} {ts : List Token}

theorem Settles.mono (h : Settles m ts) (hmn : m ≤ n) : Settles n ts := by
  unfold Settles at *
  split
  · exact Nat.lt_of_lt_of_le h hmn
  · trivial

/-- A symbol that holds tightly enough does not come next. -/
theorem Settles.nextIs (h : Settles n ts) (hs : n ≤ s.strength) : ¬nextIs s ts := by
  intro hnext
  cases ts with
  | nil => cases hnext
  | cons t ts =>
    obtain ⟨lexeme, tx, i⟩ := t
    obtain rfl : lexeme = .symbol s := of_decide_eq_true hnext
    exact Nat.not_lt.mpr hs h

/-- A symbol that does come next settles what holds more tightly. -/
theorem settles_of_nextIs (h : Expression.nextIs s ts) (hs : s.strength < n) : Settles n ts := by
  cases ts with
  | nil => cases h
  | cons t ts =>
    obtain ⟨lexeme, tx, i⟩ := t
    obtain rfl : lexeme = .symbol s := of_decide_eq_true h
    exact hs

/-- At most one symbol comes next. -/
theorem nextIs_of_ne {s' : Symbol} (h : Expression.nextIs s ts) (hne : s ≠ s') :
    ¬Expression.nextIs s' ts := by
  intro h'
  cases ts with
  | nil => cases h
  | cons t ts =>
    have hs : t.lexeme = .symbol s := of_decide_eq_true h
    have hs' : t.lexeme = .symbol s' := of_decide_eq_true h'
    exact hne (Lexeme.symbol.inj (hs.symm.trans hs'))

theorem Symbol.strength_symbol (operator : BinaryOperator) :
    operator.symbol.strength = operator.level + 5 := by
  cases operator <;> rfl

end

/-! ## What begins a phrase -/

/-- Whether an atom can begin with a lexeme. -/
def Lexeme.opensAtom : Lexeme → Bool
  | symbol .openParen | symbol .openBracket | symbol .openBrace => true
  | symbol _ => false
  | _ => true

/-- Whether an expression can begin with a lexeme. -/
def Lexeme.opens : Lexeme → Bool
  | symbol .plus | symbol .minus | symbol .not => true
  | l => l.opensAtom

/-- The first token has a lexeme that satisfies a condition. -/
def Opens (p : Lexeme → Bool) (ts : List Token) : Prop :=
  ∃ t us, ts = t :: us ∧ p t.lexeme

section

variable {p : Lexeme → Bool} {s : Symbol} {ts us : List Token}

theorem Opens.append (h : Opens p ts) (us : List Token) : Opens p (ts ++ us) := by
  obtain ⟨t, vs, rfl, ht⟩ := h
  exact ⟨t, vs ++ us, rfl, ht⟩

theorem Opens.opens (h : Opens Lexeme.opensAtom ts) : Opens Lexeme.opens ts := by
  obtain ⟨t, us, rfl, ht⟩ := h
  refine ⟨t, us, rfl, ?_⟩
  unfold Lexeme.opens
  split
  · rfl
  · rfl
  · rfl
  · exact ht

/-- A symbol that opens nothing does not come next. -/
theorem Opens.nextIs (h : Opens p ts) (hs : p (.symbol s) = false) : ¬nextIs s ts := by
  obtain ⟨t, us, rfl, ht⟩ := h
  intro hnext
  have heq : t.lexeme = .symbol s := of_decide_eq_true hnext
  rw [heq, hs] at ht
  cases ht

/-- A statement begins where an expression does. -/
theorem Opens.startsStatement (h : Opens Lexeme.opens ts) : startsStatement ts := by
  have hne (s : Symbol) (hs : Lexeme.opens (.symbol s) = false) := Opens.nextIs h hs
  obtain ⟨t, us, rfl, -⟩ := h
  simp only [Expression.nextIs, decide_eq_true_eq] at hne
  simp [Expression.startsStatement, hne .closeBrace rfl, hne .closeParen rfl,
    hne .semicolon rfl, hne .closeBracket rfl]

end

/-- How the tokens of a phrase begin. -/
def Phrase.Begins (ts : List Token) : Phrase → Prop
  | chain _ | expression _ | ternary _ | operand _ _ | unary _ => Opens Lexeme.opens ts
  | primary _ | atom _ | property _ => Opens Lexeme.opensAtom ts
  | _ => True

/-- How the phrases begin. -/
theorem Derives.begins {ts : List Token} {phrase : Phrase} (h : Derives .innermost ts phrase) :
    phrase.Begins ts := by
  induction h with
  | chain _ ih => exact ih
  | filter _ _ ih => exact ih.append _
  | expression _ ih => exact ih
  | assignment _ _ ih => exact ih.append _
  | ternary _ ih => exact ih
  | conditional _ _ _ ih => exact ih.append _
  | operand _ ih => exact ih
  | tighter _ _ ih => exact ih
  | binary _ _ _ ih => exact ih.append _
  | primary _ ih => exact ih.opens
  | @unary _ _ _ _ operator => exact ⟨_, _, rfl, by cases operator <;> rfl⟩
  | atom _ ih => exact ih
  | call _ _ ih => exact ih.append _
  | index _ _ ih => exact ih.append _
  | member _ ih => exact ih.append _
  | parentheses | array | object | string | number | constant | name => exact ⟨_, _, rfl, rfl⟩
  | shorthand | named | stringKey | numberKey | computed => exact ⟨_, _, rfl, rfl⟩
  | _ => trivial

section

variable {r : Reading} {us rest : List Token} {es : List Expr}

/-- What comes after an argument of a filter ends it. -/
theorem Derives.settles_filterArguments (h : Derives r us (.filterArguments es))
    (hrest : Settles 2 rest) : Settles 3 (us ++ rest) := by
  cases h with
  | noFilterArguments => exact hrest.mono (Nat.le_succ 2)
  | filterArgument => exact Nat.lt_succ_self 2

/-- What comes after an argument of a call ends it. -/
theorem Derives.settles_moreArguments (h : Derives r us (.moreArguments es))
    (hrest : Expression.nextIs .closeParen rest) : Settles 1 (us ++ rest) := by
  cases h with
  | noMoreArguments => exact settles_of_nextIs hrest Nat.zero_lt_one
  | moreArguments => exact Nat.zero_lt_one

end

end MessageExtraction.Expression
