import MessageExtraction.Proofs.Expression.Follow

/-!
# What has been derived the parser returns

Every function of the parser finds the phrase that it is named for at the front
of the tokens and returns what the phrase stands for, when what comes next does
not continue the phrase and the steps suffice. Filters, operators and suffixes
continue a phrase that has been read, so that for the phrases on their left it
is assumed what reading on from them gives.

Sixteen steps for each token suffice, and a few more that depend on the phrase.

## Main definitions

* `Returns` -- with enough steps, a function returns a result.
* `Completes` -- the parser returns what a phrase stands for.

## Main statements

* `Derives.completes` -- the parser returns what a derived phrase stands for.
* `program_of_derives` -- the parser returns the program that the tokens make up.
* `Derives.program_unique` -- in the innermost reading tokens make up one program at most.
-/

namespace MessageExtraction.Expression

/-- With sixteen steps for each of the tokens and a few more, a function of the parser gives a
result. -/
def Returns {α : Type} (few : Nat) (f : Nat → List Token → Except Stop α) (ts : List Token)
    (result : Except Stop α) : Prop :=
  ∀ n, 16 * ts.length + few ≤ n → f n ts = result

/-- It takes one step to begin. -/
theorem returns_succ {α : Type} {few : Nat} {f : Nat → List Token → Except Stop α}
    {ts : List Token} {result : Except Stop α}
    (h : ∀ n, 16 * ts.length + few ≤ n → f (n + 1) ts = result) :
    Returns (few + 1) f ts result := by
  intro n hn
  obtain ⟨m, rfl⟩ : ∃ m, n = m + 1 := ⟨n - 1, by omega⟩
  exact h m (by omega)

/-- The parser returns what a phrase stands for, when the tokens make up the phrase. -/
def Completes (ts : List Token) : Phrase → Prop
  | .program body => Returns 15 statements ts (.ok (body, []))
  | .statement body => ∀ rest, rest = [] ∨ nextIs .semicolon rest →
      Returns 14 statement (ts ++ rest) (.ok (body, rest))
  | .chain e => ∀ rest result, Settles 2 rest → Returns 1 (filters · e) rest result →
      Returns 13 chain (ts ++ rest) result
  | .filterArguments es => ∀ rest, Settles 2 rest →
      Returns 1 filterArguments (ts ++ rest) (.ok (es, rest))
  | .expression e => ∀ rest, Settles 3 rest → Returns 12 expression (ts ++ rest) (.ok (e, rest))
  | .ternary e => ∀ rest, Settles 3 rest → Returns 11 ternary (ts ++ rest) (.ok (e, rest))
  | .operand level e => ∀ rest result, Settles (level + 6) rest →
      Returns 1 (operators · level e) rest result →
      Returns (10 - level) (operand · level) (ts ++ rest) result
  | .unary e => ∀ rest, Settles (levelCount + 6) rest →
      Returns 3 unary (ts ++ rest) (.ok (e, rest))
  | .primary e => ∀ rest result, Returns 1 (suffixes · e) rest result →
      Returns 2 primary (ts ++ rest) result
  | .atom e => ∀ rest, Returns 1 atom (ts ++ rest) (.ok (e, rest))
  | .arguments es => ∀ rest, nextIs .closeParen rest →
      Returns 14 arguments (ts ++ rest) (.ok (es, rest))
  | .moreArguments es => ∀ rest, nextIs .closeParen rest →
      Returns 1 argumentTail (ts ++ rest) (.ok (es, rest))
  | .elements es => ∀ rest, nextIs .closeBracket rest →
      Returns 13 elements (ts ++ rest) (.ok (es, rest))
  | .properties ps => ∀ rest, nextIs .closeBrace rest →
      Returns 2 properties (ts ++ rest) (.ok (ps, rest))
  | .property p => ∀ rest, Settles 2 rest → Returns 1 property (ts ++ rest) (.ok (p, rest))

section

variable {level : Nat} {ts us vs rest : List Token} {tx ty tz : Text} {i j k : Nat}
  {e e₁ e₂ e₃ : Expr} {es : List Expr} {p : Property Expr} {ps : List (Property Expr)}
  {first body : Program} {name : Text}

/-! ## Filter chains -/

/-- Where no bar comes next, there are no more filters. -/
theorem returns_filters (h : Settles 1 rest) :
    Returns 1 (filters · e) rest (.ok (e, rest)) := by
  refine returns_succ fun n _ => ?_
  have hpipe : ¬nextIs .pipe rest := h.nextIs (by decide)
  rw [filters, if_neg hpipe]

theorem completes_chain (h : Completes ts (.expression e)) : Completes ts (.chain e) := by
  intro rest result hrest hfilters
  refine returns_succ fun n hn => ?_
  have h₁ : expression n (ts ++ rest) = .ok (e, rest) := h rest (hrest.mono (by decide)) n hn
  rw [List.length_append] at hn
  have h₂ : filters n e rest = result := hfilters n (by omega)
  rw [chain, h₁]
  exact h₂

theorem completes_filter (h : Completes ts (.chain e)) (hs : Completes us (.filterArguments es)) :
    Completes (ts ++ ⟨.symbol .pipe, tx, i⟩ :: ⟨.name, name, j⟩ :: us)
      (.chain (.filter name e es)) := by
  intro rest result hrest hfilters
  rw [List.append_assoc]
  refine h _ result (Nat.lt_succ_self 1) (returns_succ fun n hn => ?_)
  simp only [List.cons_append, List.length_cons] at hn
  have h₁ : filterArguments n (us ++ rest) = .ok (es, rest) := hs rest hrest n (by omega)
  rw [List.length_append] at hn
  have h₂ : filters n (.filter name e es) rest = result := hfilters n (by omega)
  rw [List.cons_append, filters, if_pos (by rfl), List.tail_cons, List.cons_append]
  dsimp only
  rw [h₁]
  exact h₂

theorem completes_noFilterArguments : Completes [] (.filterArguments []) := by
  intro rest hrest
  refine returns_succ fun n _ => ?_
  have hcolon : ¬nextIs .colon rest := hrest.nextIs (by decide)
  rw [List.nil_append, filterArguments, if_neg hcolon]

theorem completes_filterArgument (h : Completes ts (.expression e))
    (hs : Completes us (.filterArguments es))
    (hend : ∀ rest, Settles 2 rest → Settles 3 (us ++ rest)) :
    Completes (⟨.symbol .colon, tx, i⟩ :: (ts ++ us)) (.filterArguments (e :: es)) := by
  intro rest hrest
  refine returns_succ fun n hn => ?_
  simp only [List.cons_append, List.append_assoc, List.length_cons, List.length_append] at hn ⊢
  have h₁ : expression n (ts ++ (us ++ rest)) = .ok (e, us ++ rest) :=
    h _ (hend rest hrest) n (by simp only [List.length_append]; omega)
  have h₂ : filterArguments n (us ++ rest) = .ok (es, rest) :=
    hs rest hrest n (by simp only [List.length_append]; omega)
  simp [filterArguments, h₁, h₂]

/-! ## Expressions -/

/-- Where no operator of a level comes next, there are no more operands of the level. -/
theorem returns_operators
    (h : ∀ operator : BinaryOperator, operator.level = level → ¬nextIs operator.symbol rest) :
    Returns 1 (operators · level e) rest (.ok (e, rest)) := by
  refine returns_succ fun n _ => ?_
  unfold operators
  split
  · next s tx i ts _ =>
    split
    · next operator hs =>
      obtain rfl := s.eq_of_binary? hs
      exact if_neg fun hlevel => h operator hlevel nextIs_cons_self
    · rfl
  · rfl

theorem Settles.returns_operators (h : Settles (level + 5) rest) :
    Returns 1 (operators · level e) rest (.ok (e, rest)) := by
  refine Expression.returns_operators fun operator hlevel => h.nextIs ?_
  exact Nat.le_of_eq (by rw [Symbol.strength_symbol, hlevel])

/-- An operand of the loosest level is a conditional's test or no conditional. -/
theorem returns_ternary (h : Completes ts (.operand 0 e)) (hrest : Settles 4 rest) :
    Returns 11 ternary (ts ++ rest) (.ok (e, rest)) := by
  refine returns_succ fun n hn => ?_
  have h₁ : operand n 0 (ts ++ rest) = .ok (e, rest) :=
    h rest _ (hrest.mono (by decide)) (hrest.mono (by decide)).returns_operators n hn
  have hquestion : ¬nextIs .question rest := hrest.nextIs (by decide)
  rw [ternary, h₁]
  exact if_neg hquestion

theorem completes_ternary (h : Completes ts (.operand 0 e)) : Completes ts (.ternary e) :=
  fun _ hrest => returns_ternary h (hrest.mono (by decide))

theorem completes_conditional (h₁ : Completes ts (.operand 0 e₁))
    (h₂ : Completes us (.expression e₂)) (h₃ : Completes vs (.expression e₃)) :
    Completes (ts ++ ⟨.symbol .question, tx, i⟩ :: (us ++ ⟨.symbol .colon, ty, j⟩ :: vs))
      (.ternary (.conditional e₁ e₂ e₃)) := by
  intro rest hrest
  refine returns_succ fun n hn => ?_
  simp only [List.cons_append, List.append_assoc, List.length_cons, List.length_append] at hn ⊢
  have hquestion : Settles 5 (⟨.symbol .question, tx, i⟩ ::
      (us ++ ⟨.symbol .colon, ty, j⟩ :: (vs ++ rest))) := Nat.lt_succ_self 4
  have hcolon : Settles 3 (⟨.symbol .colon, ty, j⟩ :: (vs ++ rest)) := Nat.lt_succ_self 2
  have htest : operand n 0 (ts ++ _) = .ok (e₁, _) :=
    h₁ _ _ (hquestion.mono (by decide)) hquestion.returns_operators n
      (by simp only [List.length_cons, List.length_append]; omega)
  have hconsequent : expression n (us ++ _) = .ok (e₂, _) :=
    h₂ _ hcolon n (by simp only [List.length_cons, List.length_append]; omega)
  have halternate : expression n (vs ++ rest) = .ok (e₃, rest) :=
    h₃ rest hrest n (by simp only [List.length_append]; omega)
  simp [ternary, htest, hconsequent, halternate]

theorem completes_expression (h : Completes ts (.ternary e)) : Completes ts (.expression e) := by
  intro rest hrest
  refine returns_succ fun n hn => ?_
  have h₁ : ternary n (ts ++ rest) = .ok (e, rest) := h rest hrest n hn
  have hassign : ¬nextIs .assign rest := hrest.nextIs (by decide)
  rw [expression, h₁]
  exact if_neg hassign

theorem completes_assignment (h₁ : Completes ts (.operand 0 e₁))
    (h₂ : Completes us (.expression e₂)) :
    Completes (ts ++ ⟨.symbol .assign, tx, i⟩ :: us) (.expression (.assignment e₁ e₂)) := by
  intro rest hrest
  refine returns_succ fun n hn => ?_
  simp only [List.cons_append, List.append_assoc, List.length_cons, List.length_append] at hn ⊢
  have hassign : Settles 4 (⟨.symbol .assign, tx, i⟩ :: (us ++ rest)) := Nat.lt_succ_self 3
  have hleft : ternary n (ts ++ _) = .ok (e₁, _) :=
    returns_ternary h₁ hassign n (by simp only [List.length_cons, List.length_append]; omega)
  have hright : expression n (us ++ rest) = .ok (e₂, rest) :=
    h₂ rest hrest n (by simp only [List.length_append]; omega)
  simp [expression, hleft, hright]

/-! ## Operators -/

theorem completes_operand (h : Completes ts (.unary e)) :
    Completes ts (.operand levelCount e) := by
  intro rest result hrest hoperators
  -- past the last level there are no operators, so that the result is the operand
  have hnone : Returns 1 (operators · levelCount e) rest (.ok (e, rest)) :=
    returns_operators fun operator hlevel => absurd hlevel (by cases operator <;> decide)
  have hresult : result = .ok (e, rest) :=
    (hoperators _ (Nat.le_refl _)).symm.trans (hnone _ (Nat.le_refl _))
  refine returns_succ fun n hn => ?_
  rw [operand, if_pos rfl, hresult]
  exact h rest hrest n hn

theorem completes_tighter (hl : level < levelCount) (h : Completes ts (.operand (level + 1) e)) :
    Completes ts (.operand level e) := by
  intro rest result hrest hoperators
  have hlt : level < 6 := hl
  have hfew : 10 - level = 10 - (level + 1) + 1 := by omega
  rw [hfew]
  refine returns_succ fun n hn => ?_
  have h₁ : operand n (level + 1) (ts ++ rest) = .ok (e, rest) :=
    h rest _ (hrest.mono (by omega)) hrest.returns_operators n hn
  rw [List.length_append] at hn
  have h₂ : operators n level e rest = result := hoperators n (by omega)
  rw [operand, if_neg (Nat.ne_of_lt hl), h₁]
  exact h₂

theorem completes_binary {operator : BinaryOperator} (hl : operator.level = level)
    (h₁ : Completes ts (.operand level e₁)) (h₂ : Completes us (.operand (level + 1) e₂)) :
    Completes (ts ++ ⟨.symbol operator.symbol, tx, i⟩ :: us)
      (.operand level (.binary operator e₁ e₂)) := by
  intro rest result hrest hoperators
  have hoperator : Settles (level + 6) (⟨.symbol operator.symbol, tx, i⟩ :: (us ++ rest)) := by
    rw [Settles, Symbol.strength_symbol, hl]
    exact Nat.lt_succ_self _
  rw [List.append_assoc]
  refine h₁ _ result hoperator (returns_succ fun n hn => ?_)
  simp only [List.cons_append, List.length_cons, List.length_append] at hn ⊢
  have hright : operand n (level + 1) (us ++ rest) = .ok (e₂, rest) :=
    h₂ rest _ (hrest.mono (by omega)) hrest.returns_operators n
      (by simp only [List.length_append]; omega)
  have h₃ : operators n level (.binary operator e₁ e₂) rest = result := hoperators n (by omega)
  simp [operators, Symbol.binary?_symbol, hl, hright, h₃]

/-- Where no suffix comes next, there are no more suffixes. -/
theorem returns_suffixes (h : Settles (levelCount + 6) rest) :
    Returns 1 (suffixes · e) rest (.ok (e, rest)) := by
  refine returns_succ fun n _ => ?_
  have hparen : ¬nextIs .openParen rest := h.nextIs (Nat.le_refl _)
  have hbracket : ¬nextIs .openBracket rest := h.nextIs (Nat.le_refl _)
  have hdot : ¬nextIs .dot rest := h.nextIs (Nat.le_refl _)
  rw [suffixes, if_neg hparen, if_neg hbracket, if_neg hdot]

theorem unary_of_opens {n : Nat} (h : Opens Lexeme.opensAtom ts) :
    unary (n + 1) ts = primary n ts := by
  obtain ⟨⟨lexeme, tx, i⟩, us, rfl, ht⟩ := h
  cases lexeme with
  | symbol s => cases s <;> first | rfl | cases ht
  | _ => rfl

theorem completes_primary (h : Completes ts (.primary e)) (hb : Opens Lexeme.opensAtom ts) :
    Completes ts (.unary e) := by
  intro rest hrest
  refine returns_succ fun n hn => ?_
  rw [unary_of_opens (hb.append rest)]
  exact h rest _ (returns_suffixes hrest) n hn

theorem completes_unary {operator : UnaryOperator} (h : Completes ts (.unary e)) :
    Completes (⟨.symbol operator.symbol, tx, i⟩ :: ts) (.unary (.unary operator e)) := by
  intro rest hrest
  refine returns_succ fun n hn => ?_
  rw [List.cons_append, List.length_cons] at hn
  have h₁ : unary n (ts ++ rest) = .ok (e, rest) := h rest hrest n (by omega)
  simp [unary, Symbol.unary?_symbol, h₁]

/-! ## Atoms and their suffixes -/

theorem completes_atom (h : Completes ts (.atom e)) : Completes ts (.primary e) := by
  intro rest result hsuffixes
  refine returns_succ fun n hn => ?_
  have h₁ : atom n (ts ++ rest) = .ok (e, rest) := h rest n (by omega)
  rw [List.length_append] at hn
  have h₂ : suffixes n e rest = result := hsuffixes n (by omega)
  rw [primary, h₁]
  exact h₂

theorem completes_call (h : Completes ts (.primary e)) (hs : Completes us (.arguments es)) :
    Completes (ts ++ ⟨.symbol .openParen, tx, i⟩ :: (us ++ [⟨.symbol .closeParen, ty, j⟩]))
      (.primary (.call e es)) := by
  intro rest result hsuffixes
  simp only [List.append_assoc, List.cons_append, List.nil_append]
  refine h _ result (returns_succ fun n hn => ?_)
  simp only [List.length_cons, List.length_append] at hn
  have h₁ : arguments n (us ++ ⟨.symbol .closeParen, ty, j⟩ :: rest) = .ok (es, _) :=
    hs _ nextIs_cons_self n (by simp only [List.length_cons, List.length_append]; omega)
  have h₂ : suffixes n (.call e es) rest = result := hsuffixes n (by omega)
  simp [suffixes, h₁, h₂]

theorem completes_index (h₁ : Completes ts (.primary e₁)) (h₂ : Completes us (.expression e₂)) :
    Completes (ts ++ ⟨.symbol .openBracket, tx, i⟩ :: (us ++ [⟨.symbol .closeBracket, ty, j⟩]))
      (.primary (.index e₁ e₂)) := by
  intro rest result hsuffixes
  simp only [List.append_assoc, List.cons_append, List.nil_append]
  refine h₁ _ result (returns_succ fun n hn => ?_)
  simp only [List.length_cons, List.length_append] at hn
  have hclose : Settles 3 (⟨.symbol .closeBracket, ty, j⟩ :: rest) := Nat.zero_lt_succ 2
  have hkey : expression n (us ++ ⟨.symbol .closeBracket, ty, j⟩ :: rest) = .ok (e₂, _) :=
    h₂ _ hclose n (by simp only [List.length_cons, List.length_append]; omega)
  have h₃ : suffixes n (.index e₁ e₂) rest = result := hsuffixes n (by omega)
  have hparen : ¬nextIs .openParen
      (⟨.symbol .openBracket, tx, i⟩ :: (us ++ ⟨.symbol .closeBracket, ty, j⟩ :: rest)) :=
    nextIs_of_ne nextIs_cons_self (by decide)
  rw [suffixes, if_neg hparen]
  simp [hkey, h₃]

theorem completes_member (h : Completes ts (.primary e)) :
    Completes (ts ++ [⟨.symbol .dot, tx, i⟩, ⟨.name, name, j⟩]) (.primary (.member e name)) := by
  intro rest result hsuffixes
  rw [List.append_assoc]
  refine h _ result (returns_succ fun n hn => ?_)
  simp only [List.cons_append, List.nil_append, List.length_cons] at hn ⊢
  have h₁ : suffixes n (.member e name) rest = result := hsuffixes n (by omega)
  have hdot : nextIs .dot (⟨.symbol .dot, tx, i⟩ :: ⟨.name, name, j⟩ :: rest) := nextIs_cons_self
  rw [suffixes, if_neg (nextIs_of_ne hdot (by decide)), if_neg (nextIs_of_ne hdot (by decide)),
    if_pos hdot]
  exact h₁

theorem completes_parentheses (h : Completes ts (.chain e)) :
    Completes (⟨.symbol .openParen, tx, i⟩ :: (ts ++ [⟨.symbol .closeParen, ty, j⟩]))
      (.atom e) := by
  intro rest
  refine returns_succ fun n hn => ?_
  simp only [List.cons_append, List.append_assoc, List.nil_append, List.length_cons,
    List.length_append] at hn ⊢
  have hclose : Settles 1 (⟨.symbol .closeParen, ty, j⟩ :: rest) := Nat.zero_lt_one
  have h₁ : chain n (ts ++ ⟨.symbol .closeParen, ty, j⟩ :: rest) = .ok (e, _) :=
    h _ _ (hclose.mono (by decide)) (returns_filters hclose) n
      (by simp only [List.length_cons, List.length_append]; omega)
  simp [atom, h₁]

theorem completes_array (hs : Completes ts (.elements es)) :
    Completes (⟨.symbol .openBracket, tx, i⟩ :: (ts ++ [⟨.symbol .closeBracket, ty, j⟩]))
      (.atom (.array es)) := by
  intro rest
  refine returns_succ fun n hn => ?_
  simp only [List.cons_append, List.append_assoc, List.nil_append, List.length_cons,
    List.length_append] at hn ⊢
  have h₁ : elements n (ts ++ ⟨.symbol .closeBracket, ty, j⟩ :: rest) = .ok (es, _) :=
    hs _ nextIs_cons_self n (by simp only [List.length_cons, List.length_append]; omega)
  simp [atom, h₁]

theorem completes_object (hs : Completes ts (.properties ps)) :
    Completes (⟨.symbol .openBrace, tx, i⟩ :: (ts ++ [⟨.symbol .closeBrace, ty, j⟩]))
      (.atom (.object ps)) := by
  intro rest
  refine returns_succ fun n hn => ?_
  simp only [List.cons_append, List.append_assoc, List.nil_append, List.length_cons,
    List.length_append] at hn ⊢
  have h₁ : properties n (ts ++ ⟨.symbol .closeBrace, ty, j⟩ :: rest) = .ok (ps, _) :=
    hs _ nextIs_cons_self n (by simp only [List.length_cons, List.length_append]; omega)
  simp [atom, h₁]

theorem completes_string {value : Text} :
    Completes [⟨.string value, tx, i⟩] (.atom (.string value)) :=
  fun _ => returns_succ fun _ _ => rfl

theorem completes_number {value : Decimal} :
    Completes [⟨.number value, tx, i⟩] (.atom (.number value)) :=
  fun _ => returns_succ fun _ _ => rfl

theorem completes_constant {value : Constant} (h : Constant.ofName? name = some value) :
    Completes [⟨.name, name, i⟩] (.atom (.constant value)) := by
  intro rest
  refine returns_succ fun n _ => ?_
  simp [atom, h]

theorem completes_name (h : Constant.ofName? name = none) :
    Completes [⟨.name, name, i⟩] (.atom (.name name)) := by
  intro rest
  refine returns_succ fun n _ => ?_
  simp [atom, h]

/-! ## Rows of phrases -/

theorem completes_noArguments : Completes [] (.arguments []) := by
  intro rest hrest
  refine returns_succ fun n _ => ?_
  rw [List.nil_append, arguments, if_pos hrest]

theorem completes_arguments (h : Completes ts (.chain e)) (hs : Completes us (.moreArguments es))
    (hb : Opens Lexeme.opens ts)
    (hend : ∀ rest, nextIs .closeParen rest → Settles 1 (us ++ rest)) :
    Completes (ts ++ us) (.arguments (e :: es)) := by
  intro rest hrest
  refine returns_succ fun n hn => ?_
  simp only [List.append_assoc, List.length_append] at hn ⊢
  have h₁ : chain n (ts ++ (us ++ rest)) = .ok (e, us ++ rest) :=
    h _ _ ((hend rest hrest).mono (by decide)) (returns_filters (hend rest hrest)) n
      (by simp only [List.length_append]; omega)
  have h₂ : argumentTail n (us ++ rest) = .ok (es, rest) :=
    hs rest hrest n (by simp only [List.length_append]; omega)
  rw [arguments, if_neg ((hb.append _).nextIs rfl), h₁]
  simp [h₂]

theorem completes_noMoreArguments : Completes [] (.moreArguments []) := by
  intro rest hrest
  refine returns_succ fun n _ => ?_
  have hcomma : ¬nextIs .comma rest := nextIs_of_ne hrest (by decide)
  rw [List.nil_append, argumentTail, if_neg hcomma]

theorem completes_moreArguments (h : Completes ts (.chain e))
    (hs : Completes us (.moreArguments es))
    (hend : ∀ rest, nextIs .closeParen rest → Settles 1 (us ++ rest)) :
    Completes (⟨.symbol .comma, tx, i⟩ :: (ts ++ us)) (.moreArguments (e :: es)) := by
  intro rest hrest
  refine returns_succ fun n hn => ?_
  simp only [List.cons_append, List.append_assoc, List.length_cons, List.length_append] at hn ⊢
  have h₁ : chain n (ts ++ (us ++ rest)) = .ok (e, us ++ rest) :=
    h _ _ ((hend rest hrest).mono (by decide)) (returns_filters (hend rest hrest)) n
      (by simp only [List.length_append]; omega)
  have h₂ : argumentTail n (us ++ rest) = .ok (es, rest) :=
    hs rest hrest n (by simp only [List.length_append]; omega)
  simp [argumentTail, h₁, h₂]

theorem completes_noElements : Completes [] (.elements []) := by
  intro rest hrest
  refine returns_succ fun n _ => ?_
  rw [List.nil_append, elements, if_pos hrest]

theorem completes_lastElement (h : Completes ts (.expression e)) (hb : Opens Lexeme.opens ts) :
    Completes ts (.elements [e]) := by
  intro rest hrest
  refine returns_succ fun n hn => ?_
  have h₁ : expression n (ts ++ rest) = .ok (e, rest) :=
    h rest (settles_of_nextIs hrest (by decide)) n hn
  have hcomma : ¬nextIs .comma rest := nextIs_of_ne hrest (by decide)
  rw [elements, if_neg ((hb.append _).nextIs rfl), h₁]
  exact if_neg hcomma

theorem completes_element (h : Completes ts (.expression e)) (hs : Completes us (.elements es))
    (hb : Opens Lexeme.opens ts) :
    Completes (ts ++ ⟨.symbol .comma, tx, i⟩ :: us) (.elements (e :: es)) := by
  intro rest hrest
  refine returns_succ fun n hn => ?_
  simp only [List.cons_append, List.append_assoc, List.length_cons, List.length_append] at hn ⊢
  have hcomma : Settles 3 (⟨.symbol .comma, tx, i⟩ :: (us ++ rest)) := Nat.zero_lt_succ 2
  have h₁ : expression n (ts ++ ⟨.symbol .comma, tx, i⟩ :: (us ++ rest)) = .ok (e, _) :=
    h _ hcomma n (by simp only [List.length_cons, List.length_append]; omega)
  have h₂ : elements n (us ++ rest) = .ok (es, rest) :=
    hs rest hrest n (by simp only [List.length_append]; omega)
  rw [elements, if_neg ((hb.append _).nextIs rfl), h₁]
  simp [h₂]

theorem completes_noProperties : Completes [] (.properties []) := by
  intro rest hrest
  refine returns_succ fun n _ => ?_
  rw [List.nil_append, properties, if_pos hrest]

theorem completes_lastProperty (h : Completes ts (.property p))
    (hb : Opens Lexeme.opensAtom ts) : Completes ts (.properties [p]) := by
  intro rest hrest
  refine returns_succ fun n hn => ?_
  have h₁ : property n (ts ++ rest) = .ok (p, rest) :=
    h rest (settles_of_nextIs hrest (by decide)) n hn
  have hcomma : ¬nextIs .comma rest := nextIs_of_ne hrest (by decide)
  rw [properties, if_neg ((hb.append _).nextIs rfl), h₁]
  exact if_neg hcomma

theorem completes_property (h : Completes ts (.property p)) (hs : Completes us (.properties ps))
    (hb : Opens Lexeme.opensAtom ts) :
    Completes (ts ++ ⟨.symbol .comma, tx, i⟩ :: us) (.properties (p :: ps)) := by
  intro rest hrest
  refine returns_succ fun n hn => ?_
  simp only [List.cons_append, List.append_assoc, List.length_cons, List.length_append] at hn ⊢
  have hcomma : Settles 2 (⟨.symbol .comma, tx, i⟩ :: (us ++ rest)) := Nat.zero_lt_succ 1
  have h₁ : property n (ts ++ ⟨.symbol .comma, tx, i⟩ :: (us ++ rest)) = .ok (p, _) :=
    h _ hcomma n (by simp only [List.length_cons, List.length_append]; omega)
  have h₂ : properties n (us ++ rest) = .ok (ps, rest) :=
    hs rest hrest n (by simp only [List.length_append]; omega)
  rw [properties, if_neg ((hb.append _).nextIs rfl), h₁]
  simp [h₂]

theorem completes_shorthand :
    Completes [⟨.name, name, i⟩] (.property ⟨.name name, .name name⟩) := by
  intro rest hrest
  refine returns_succ fun n _ => ?_
  have hcolon : ¬nextIs .colon rest := hrest.nextIs (by decide)
  rw [List.cons_append, List.nil_append, property]
  exact if_neg hcolon

theorem completes_named (h : Completes ts (.expression e)) :
    Completes (⟨.name, name, i⟩ :: ⟨.symbol .colon, tx, j⟩ :: ts)
      (.property ⟨.name name, e⟩) := by
  intro rest hrest
  refine returns_succ fun n hn => ?_
  simp only [List.cons_append, List.length_cons] at hn ⊢
  have h₁ : expression n (ts ++ rest) = .ok (e, rest) :=
    h rest (hrest.mono (by decide)) n (by omega)
  simp [property, h₁]

/-- A key that the parser hands on to the reader of literal properties. -/
theorem completes_literalKey {t : Token} {key : PropertyKey Expr}
    (ht : ∀ n us, property (n + 1) (t :: us) = literalProperty n key us)
    (h : Completes ts (.expression e)) :
    Completes (t :: ⟨.symbol .colon, tx, j⟩ :: ts) (.property ⟨key, e⟩) := by
  intro rest hrest
  refine returns_succ fun n hn => ?_
  simp only [List.cons_append, List.length_cons] at hn ⊢
  obtain ⟨m, rfl⟩ : ∃ m, n = m + 1 := ⟨n - 1, by omega⟩
  have h₁ : expression m (ts ++ rest) = .ok (e, rest) :=
    h rest (hrest.mono (by decide)) m (by omega)
  rw [ht]
  simp [literalProperty, h₁]

theorem completes_computed (h₁ : Completes ts (.expression e₁))
    (h₂ : Completes us (.expression e₂)) :
    Completes (⟨.symbol .openBracket, tx, i⟩ ::
      (ts ++ ⟨.symbol .closeBracket, ty, j⟩ :: ⟨.symbol .colon, tz, k⟩ :: us))
      (.property ⟨.computed e₁, e₂⟩) := by
  intro rest hrest
  refine returns_succ fun n hn => ?_
  simp only [List.cons_append, List.append_assoc, List.length_cons, List.length_append] at hn ⊢
  have hclose : Settles 3 (⟨.symbol .closeBracket, ty, j⟩ ::
      ⟨.symbol .colon, tz, k⟩ :: (us ++ rest)) := Nat.zero_lt_succ 2
  have hkey : expression n (ts ++ _) = .ok (e₁, _) :=
    h₁ _ hclose n (by simp only [List.length_cons, List.length_append]; omega)
  have hvalue : expression n (us ++ rest) = .ok (e₂, rest) :=
    h₂ rest (hrest.mono (by decide)) n (by simp only [List.length_append]; omega)
  simp [property, hkey, hvalue]

/-! ## Programs -/

theorem completes_noStatement : Completes [] (.statement []) := by
  intro rest hrest n _
  have hstarts : ¬startsStatement rest := by
    rcases hrest with rfl | hsemicolon
    · exact Bool.false_ne_true
    · obtain ⟨tx, i, us, rfl⟩ := nextIs_iff.mp hsemicolon
      exact Bool.false_ne_true
  rw [List.nil_append, statement, if_neg hstarts]

theorem completes_statement (h : Completes ts (.chain e)) (hb : Opens Lexeme.opens ts) :
    Completes ts (.statement [e]) := by
  intro rest hrest n hn
  have hend : Settles 1 rest := by
    rcases hrest with rfl | hsemicolon
    · trivial
    · exact settles_of_nextIs hsemicolon Nat.zero_lt_one
  have h₁ : chain n (ts ++ rest) = .ok (e, rest) :=
    h rest _ (hend.mono (by decide)) (returns_filters hend) n (by omega)
  rw [statement, if_pos (hb.append rest).startsStatement, h₁]
  rfl

theorem completes_lastStatement (h : Completes ts (.statement body)) :
    Completes ts (.program body) := by
  refine returns_succ fun n hn => ?_
  have h₁ : statement n ts = .ok (body, []) := by
    have h₂ := h [] (.inl rfl)
    rw [List.append_nil] at h₂
    exact h₂ n hn
  rw [statements, h₁]
  rfl

theorem completes_statementMore (h : Completes ts (.statement first))
    (hs : Completes us (.program body)) :
    Completes (ts ++ ⟨.symbol .semicolon, tx, i⟩ :: us) (.program (first ++ body)) := by
  refine returns_succ fun n hn => ?_
  have h₁ : statement n (ts ++ ⟨.symbol .semicolon, tx, i⟩ :: us) = .ok (first, _) :=
    h _ (.inr nextIs_cons_self) n hn
  simp only [List.length_append, List.length_cons] at hn
  have h₂ : statements n us = .ok (body, []) := hs n (by omega)
  simp [statements, h₁, h₂]

/-- The parser returns what a phrase stands for, however the tokens that make it up are derived,
if every `=` belongs to the innermost outcome. -/
theorem Derives.completes {phrase : Phrase} (h : Derives .innermost ts phrase) :
    Completes ts phrase := by
  induction h with
  | lastStatement _ ih => exact completes_lastStatement ih
  | statementMore _ _ ih ihs => exact completes_statementMore ih ihs
  | noStatement => exact completes_noStatement
  | statement h ih => exact completes_statement ih h.begins
  | chain _ ih => exact completes_chain ih
  | filter _ _ ih ihs => exact completes_filter ih ihs
  | noFilterArguments => exact completes_noFilterArguments
  | filterArgument _ hs ih ihs =>
    exact completes_filterArgument ih ihs fun _ => hs.settles_filterArguments
  | expression _ ih => exact completes_expression ih
  | assignment _ _ ih₁ ih₂ => exact completes_assignment ih₁ ih₂
  | ternary _ ih => exact completes_ternary ih
  | conditional _ _ _ ih₁ ih₂ ih₃ => exact completes_conditional ih₁ ih₂ ih₃
  | operand _ ih => exact completes_operand ih
  | tighter hl _ ih => exact completes_tighter hl ih
  | binary hl _ _ ih₁ ih₂ => exact completes_binary hl ih₁ ih₂
  | primary h ih => exact completes_primary ih h.begins
  | unary _ ih => exact completes_unary ih
  | atom _ ih => exact completes_atom ih
  | call _ _ ih ihs => exact completes_call ih ihs
  | index _ _ ih₁ ih₂ => exact completes_index ih₁ ih₂
  | member _ ih => exact completes_member ih
  | noArguments => exact completes_noArguments
  | arguments h hs ih ihs =>
    exact completes_arguments ih ihs h.begins fun _ => hs.settles_moreArguments
  | noMoreArguments => exact completes_noMoreArguments
  | moreArguments _ hs ih ihs =>
    exact completes_moreArguments ih ihs fun _ => hs.settles_moreArguments
  | parentheses _ ih => exact completes_parentheses ih
  | array _ ih => exact completes_array ih
  | object _ ih => exact completes_object ih
  | string => exact completes_string
  | number => exact completes_number
  | constant h => exact completes_constant h
  | name h => exact completes_name h
  | noElements => exact completes_noElements
  | lastElement h ih => exact completes_lastElement ih h.begins
  | element h _ ih ihs => exact completes_element ih ihs h.begins
  | noProperties => exact completes_noProperties
  | lastProperty h ih => exact completes_lastProperty ih h.begins
  | property h _ ih ihs => exact completes_property ih ihs h.begins
  | shorthand => exact completes_shorthand
  | named _ ih => exact completes_named ih
  | stringKey _ ih | numberKey _ ih => exact completes_literalKey (fun _ _ => rfl) ih
  | computed _ _ ih₁ ih₂ => exact completes_computed ih₁ ih₂

/-- The parser returns the program that the tokens make up. -/
theorem program_of_derives (h : Derives .innermost ts (.program body)) :
    program (stepsFor ts) ts = .ok body := by
  have h₁ : statements (stepsFor ts) ts = .ok (body, []) :=
    h.completes _ (by rw [stepsFor]; omega)
  rw [program, h₁]
  rfl

/-- In the innermost reading the tokens make up one program at most. -/
theorem Derives.program_unique {body' : Program} (h : Derives .innermost ts (.program body))
    (h' : Derives .innermost ts (.program body')) : body = body' := by
  have hparse := program_of_derives h
  rw [program_of_derives h'] at hparse
  exact (Except.ok.inj hparse).symm

end

end MessageExtraction.Expression
