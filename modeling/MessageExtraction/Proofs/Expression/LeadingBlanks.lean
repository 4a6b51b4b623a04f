import MessageExtraction.Proofs.Expression.LeadingLiteral

/-!
# What stands before a program

Blanks before a text move its tokens on and change nothing else. What tokens make up depends on the
tokens and their order and not on where they stand, so that a text has the same messages with blanks
before it. A text that begins with a colon has none: no phrase begins with a colon.

## Main definitions

* `Token.moved` -- a token at another offset.

## Main results

* `Derives.moved` -- moved tokens make up the same phrases.
* `messagesIn_append_of_blank` -- blanks before a text.
* `messagesIn_colon` -- a colon before a text.
-/

namespace MessageExtraction.Expression

/-- The token at the offset that is given for its own. -/
def Token.moved (g : Nat → Nat) (t : Token) : Token :=
  { t with index := g t.index }

@[simp]
theorem Token.moved_mk (g : Nat → Nat) (l : Lexeme) (tx : Text) (i : Nat) :
    Token.moved g ⟨l, tx, i⟩ = ⟨l, tx, g i⟩ :=
  rfl

section

variable {r : Reading} {phrase : Phrase} {ts : List Token} {body : Program} {u : Text}

/-! ## Moved tokens -/

/-- Moved tokens make up the same phrases. -/
theorem Derives.moved (h : Derives r ts phrase) (g : Nat → Nat) :
    Derives r (ts.map (Token.moved g)) phrase := by
  induction h with
  | lastStatement _ ih => exact .lastStatement ih
  | statementMore _ _ ih ihs => simpa using ih.statementMore ihs
  | noStatement => exact .noStatement
  | statement _ ih => exact .statement ih
  | chain _ ih => exact .chain ih
  | filter _ _ ih ihs => simpa using ih.filter ihs
  | noFilterArguments => exact .noFilterArguments
  | filterArgument _ _ ih ihs => simpa using ih.filterArgument ihs
  | expression _ ih => exact .expression ih
  | assignment _ _ ih₁ ih₂ => simpa using Derives.assignment ih₁ ih₂
  | ternary _ ih => exact .ternary ih
  | conditional _ _ _ ih₁ ih₂ ih₃ => simpa using ih₁.conditional ih₂ ih₃
  | operand _ ih => exact .operand ih
  | tighter hl _ ih => exact .tighter hl ih
  | binary hl _ _ ih₁ ih₂ => simpa using Derives.binary hl ih₁ ih₂
  | primary _ ih => exact .primary ih
  | unary _ ih => exact ih.unary
  | atom _ ih => exact .atom ih
  | call _ _ ih ihs => simpa using ih.call ihs
  | index _ _ ih₁ ih₂ => simpa using ih₁.index ih₂
  | member _ ih => simpa using ih.member
  | noArguments => exact .noArguments
  | arguments _ _ ih ihs => simpa using ih.arguments ihs
  | noMoreArguments => exact .noMoreArguments
  | moreArguments _ _ ih ihs => simpa using ih.moreArguments ihs
  | parentheses _ ih => simpa using ih.parentheses
  | array _ ih => simpa using ih.array
  | object _ ih => simpa using ih.object
  | string => exact .string
  | number => exact .number
  | constant h => exact .constant h
  | name h => exact .name h
  | noElements => exact .noElements
  | lastElement _ ih => exact .lastElement ih
  | element _ _ ih ihs => simpa using ih.element ihs
  | noProperties => exact .noProperties
  | lastProperty _ ih => exact .lastProperty ih
  | property _ _ ih ihs => simpa using ih.property ihs
  | shorthand => exact .shorthand
  | named _ ih => exact ih.named
  | stringKey _ ih => exact ih.stringKey
  | numberKey _ ih => exact ih.numberKey
  | computed _ _ ih₁ ih₂ => simpa using ih₁.computed ih₂

theorem map_moved_map_moved {f g : Nat → Nat} (h : ∀ i, f (g i) = i) (ts : List Token) :
    (ts.map (Token.moved g)).map (Token.moved f) = ts := by
  rw [List.map_map]
  refine List.map_id'' (fun t => ?_) ts
  rw [Function.comp_apply, Token.moved, Token.moved, h]

/-- Tokens make up a phrase exactly if the moved tokens do. -/
theorem derives_moved_iff (n : Nat) :
    Derives r (ts.map (Token.moved (· + n))) phrase ↔ Derives r ts phrase := by
  refine ⟨fun h => ?_, fun h => h.moved _⟩
  have hback := h.moved (· - n)
  rwa [map_moved_map_moved fun i => Nat.add_sub_cancel i n] at hback

/-! ## Blanks before a text -/

/-- The tokens of a text further on. -/
theorem tokenizeFrom_add (index n : Nat) (t : Text) :
    tokenizeFrom (index + n) t =
      ((tokenizeFrom index t).map (List.map (Token.moved (· + n)))).mapError
        fun stray => ⟨stray.point, stray.index + n⟩ := by
  fun_induction tokenizeFrom index t with
  | case1 => rw [tokenizeFrom]; rfl
  | case2 index c t hblank ih => rw [tokenizeFrom, if_pos hblank, Nat.add_right_comm, ih]
  | case3 index c t hblank hnone => rw [tokenizeFrom, if_neg hblank, hnone]; rfl
  | case4 index c t hblank l m hl ih =>
    rw [tokenizeFrom, if_neg hblank, hl]
    dsimp only
    rw [Nat.add_right_comm, ih]
    cases tokenizeFrom (index + m) (t.drop (m - 1)) <;> rfl

theorem tokenizeFrom_append_of_blank (hu : u.isBlank) (index : Nat) (t : Text) :
    tokenizeFrom index (u ++ t) = tokenizeFrom (index + u.length) t := by
  induction u generalizing index with
  | nil => rfl
  | cons c u ih =>
    obtain ⟨hc, hu⟩ := Bool.and_eq_true_iff.mp hu
    rw [List.cons_append, tokenizeFrom, if_pos hc, ih hu, List.length_cons, Nat.add_assoc,
      Nat.add_comm 1]

/-- Blanks before a text only move its tokens on. -/
theorem tokenize_append_of_blank (hu : u.isBlank) (t : Text) :
    tokenize (u ++ t) = ((tokenize t).map (List.map (Token.moved (· + u.length)))).mapError
      fun stray => ⟨stray.point, stray.index + u.length⟩ := by
  rw [tokenize, tokenizeFrom_append_of_blank hu, tokenizeFrom_add, tokenize]

/-- A text with blanks before it is the same program. -/
theorem parse_append_of_blank (hu : u.isBlank) (t : Text) :
    parse (u ++ t) = .ok body ↔ parse t = .ok body := by
  have htokens := tokenize_append_of_blank hu t
  cases ht : tokenize t with
  | ok ts =>
    rw [ht] at htokens
    rw [parse_eq_ok_iff htokens, parse_eq_ok_iff ht, derives_moved_iff]
  | error stray =>
    rw [ht] at htokens
    have hfails {s : Text} {stray : StrayCodePoint} (hs : tokenize s = .error stray) :
        parse s ≠ .ok body := by
      rw [parse, hs]
      exact fun hok => by cases hok
    exact iff_of_false (hfails htokens) (hfails ht)

/-- A text has the same messages with blanks before it. -/
theorem messagesIn_append_of_blank (hu : u.isBlank) (t : Text) :
    messagesIn (u ++ t) = messagesIn t := by
  have hparse (body : Program) : parse (u ++ restoreQuotes t) = .ok body ↔
      parse (restoreQuotes t) = .ok body := parse_append_of_blank hu _
  rw [messagesIn, messagesIn, findingsIn, findingsIn, restoreQuotes_append_of_blank hu]
  cases ht : parse (restoreQuotes t) with
  | ok body => rw [(hparse body).mpr ht]
  | error e =>
    cases hut : parse (u ++ restoreQuotes t) with
    | ok body =>
      rw [(hparse body).mp hut] at ht
      cases ht
    | error e => rfl

/-! ## A colon before a text -/

/-- Whether a program can begin with a lexeme. -/
def Lexeme.opensProgram (l : Lexeme) : Bool :=
  l.opens || l = .symbol .semicolon

/-- A statement that is not empty begins as an expression does. -/
theorem begins_of_statement (h : Derives .innermost ts (.statement body)) :
    ts = [] ∨ Opens Lexeme.opensProgram ts := by
  cases h with
  | noStatement => exact .inl rfl
  | statement h =>
    obtain ⟨t, us, rfl, ht⟩ : Opens Lexeme.opens _ := h.begins
    exact .inr ⟨t, us, rfl, by rw [Lexeme.opensProgram, ht, Bool.true_or]⟩

/-- A program that is not empty begins with an expression or a semicolon. -/
theorem begins_of_program (h : Derives .innermost ts (.program body)) :
    ts = [] ∨ Opens Lexeme.opensProgram ts := by
  cases h with
  | lastStatement h => exact begins_of_statement h
  | statementMore h =>
    rcases begins_of_statement h with rfl | hopens
    · exact .inr ⟨_, _, rfl, rfl⟩
    · exact .inr (hopens.append _)

/-- A text that begins with a colon is no program. -/
theorem parse_colon (t : Text) : parse (CodePoint.ofChar ':' :: t) ≠ .ok body := by
  intro hparse
  cases htokens : tokenize (CodePoint.ofChar ':' :: t) with
  | error stray =>
    rw [parse, htokens] at hparse
    cases hparse
  | ok tokens =>
    -- the first token is the colon, whatever comes after it
    have hcolon : OpensWith [⟨.symbol .colon, [CodePoint.ofChar ':']⟩]
        (CodePoint.ofChar ':' :: t) := OpensWith.lexeme (u := []) rfl (opensWith_nil t)
    obtain ⟨us, hus⟩ := hcolon 0 tokens htokens
    obtain ⟨token, _, rfl, htoken, -⟩ := List.map_eq_cons_iff.mp hus
    have hbegins := begins_of_program ((parse_eq_ok_iff htokens).mp hparse)
    rcases hbegins with hnil | ⟨_, _, heq, hopens⟩
    · cases hnil
    · obtain ⟨rfl, rfl⟩ := List.cons.inj heq
      have hlexeme : token.lexeme = .symbol .colon := congrArg Word.lexeme htoken
      rw [hlexeme] at hopens
      cases hopens

/-- A text that begins with a colon has no messages. -/
theorem messagesIn_colon (t : Text) : messagesIn (CodePoint.ofChar ':' :: t) = [] := by
  have hrestore : restoreQuotes ([CodePoint.ofChar ':'] ++ t) =
      [CodePoint.ofChar ':'] ++ restoreQuotes t := restoreQuotes_append (by decide) t
  rw [List.singleton_append, List.singleton_append] at hrestore
  rw [messagesIn, findingsIn, hrestore]
  cases hparse : parse (CodePoint.ofChar ':' :: restoreQuotes t) with
  | ok body => exact absurd hparse (parse_colon _)
  | error e => rfl

end

end MessageExtraction.Expression
