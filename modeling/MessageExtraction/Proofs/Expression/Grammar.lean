import MessageExtraction.Expression.Syntax

/-!
# The grammar of expressions

The grammar is ambiguous in one place. The last outcome of a conditional is an
expression and may be an assignment, and a conditional may itself be assigned
to, so that `a ? b : c = d` can be read in two ways. `Reading.any` allows both.
`Reading.innermost` allows the one in which `=` belongs to the innermost
outcome: a conditional without parentheses stands on the left of no `=`.

## Main definitions

* `Reading` -- which of the ways to read an assignment are allowed.
* `Phrase` -- the phrases of the grammar, with the syntax that they stand for.
* `Derives` -- the productions of the grammar.

## Main statements

* `Derives.exists_innermost` -- what is derived in any reading is derived in the innermost one.
-/

namespace MessageExtraction.Expression

/-- Which of the ways to read an assignment after a conditional are allowed. -/
inductive Reading
  | any | innermost

/-- The phrases of the grammar, with the syntax that they stand for. -/
inductive Phrase
  | program (body : Program)
  | statement (body : Program)
  | chain (e : Expr)
  | filterArguments (es : List Expr)
  | expression (e : Expr)
  | ternary (e : Expr)
  | operand (level : Nat) (e : Expr)
  | unary (e : Expr)
  | primary (e : Expr)
  | atom (e : Expr)
  | arguments (es : List Expr)
  | moreArguments (es : List Expr)
  | elements (es : List Expr)
  | properties (ps : List (Property Expr))
  | property (p : Property Expr)

/-- What may stand on the left of `=`. -/
def Reading.target : Reading → Expr → Phrase
  | any, e => .ternary e
  | innermost, e => .operand 0 e

/-- The tokens, all of them and in their order, make up a phrase. -/
inductive Derives (r : Reading) : List Token → Phrase → Prop
  -- Program = [Chain] (';' [Chain])*
  | lastStatement {ts body} (h : Derives r ts (.statement body)) : Derives r ts (.program body)
  | statementMore {ts us tx i first body} (h : Derives r ts (.statement first))
      (hs : Derives r us (.program body)) :
      Derives r (ts ++ ⟨.symbol .semicolon, tx, i⟩ :: us) (.program (first ++ body))
  | noStatement : Derives r [] (.statement [])
  | statement {ts e} (h : Derives r ts (.chain e)) : Derives r ts (.statement [e])
  -- Chain = Expr ('|' ident (':' Expr)*)*
  | chain {ts e} (h : Derives r ts (.expression e)) : Derives r ts (.chain e)
  | filter {ts us tx i j e es name} (h : Derives r ts (.chain e))
      (hs : Derives r us (.filterArguments es)) :
      Derives r (ts ++ ⟨.symbol .pipe, tx, i⟩ :: ⟨.name, name, j⟩ :: us)
        (.chain (.filter name e es))
  | noFilterArguments : Derives r [] (.filterArguments [])
  | filterArgument {ts us tx i e es} (h : Derives r ts (.expression e))
      (hs : Derives r us (.filterArguments es)) :
      Derives r (⟨.symbol .colon, tx, i⟩ :: (ts ++ us)) (.filterArguments (e :: es))
  -- Expr = Ternary ['=' Expr]
  | expression {ts e} (h : Derives r ts (.ternary e)) : Derives r ts (.expression e)
  | assignment {ts us tx i e₁ e₂} (h₁ : Derives r ts (r.target e₁))
      (h₂ : Derives r us (.expression e₂)) :
      Derives r (ts ++ ⟨.symbol .assign, tx, i⟩ :: us) (.expression (.assignment e₁ e₂))
  -- Ternary = Or ['?' Expr ':' Expr]
  | ternary {ts e} (h : Derives r ts (.operand 0 e)) : Derives r ts (.ternary e)
  | conditional {ts us vs tx ty i j e₁ e₂ e₃} (h₁ : Derives r ts (.operand 0 e₁))
      (h₂ : Derives r us (.expression e₂)) (h₃ : Derives r vs (.expression e₃)) :
      Derives r (ts ++ ⟨.symbol .question, tx, i⟩ :: (us ++ ⟨.symbol .colon, ty, j⟩ :: vs))
        (.ternary (.conditional e₁ e₂ e₃))
  -- the levels of binary operators, from `||` at level zero to unary operators past the last
  | operand {ts e} (h : Derives r ts (.unary e)) : Derives r ts (.operand levelCount e)
  | tighter {ts e level} (hl : level < levelCount) (h : Derives r ts (.operand (level + 1) e)) :
      Derives r ts (.operand level e)
  | binary {ts us tx i e₁ e₂ level} {operator : BinaryOperator} (hl : operator.level = level)
      (h₁ : Derives r ts (.operand level e₁)) (h₂ : Derives r us (.operand (level + 1) e₂)) :
      Derives r (ts ++ ⟨.symbol operator.symbol, tx, i⟩ :: us)
        (.operand level (.binary operator e₁ e₂))
  -- Unary = ('+' | '-' | '!') Unary | Primary
  | primary {ts e} (h : Derives r ts (.primary e)) : Derives r ts (.unary e)
  | unary {ts tx i e} {operator : UnaryOperator} (h : Derives r ts (.unary e)) :
      Derives r (⟨.symbol operator.symbol, tx, i⟩ :: ts) (.unary (.unary operator e))
  -- Primary = Atom ('(' [Chain (',' Chain)*] ')' | '[' Expr ']' | '.' ident)*
  | atom {ts e} (h : Derives r ts (.atom e)) : Derives r ts (.primary e)
  | call {ts us tx ty i j e es} (h : Derives r ts (.primary e))
      (hs : Derives r us (.arguments es)) :
      Derives r (ts ++ ⟨.symbol .openParen, tx, i⟩ :: (us ++ [⟨.symbol .closeParen, ty, j⟩]))
        (.primary (.call e es))
  | index {ts us tx ty i j e₁ e₂} (h₁ : Derives r ts (.primary e₁))
      (h₂ : Derives r us (.expression e₂)) :
      Derives r (ts ++ ⟨.symbol .openBracket, tx, i⟩ :: (us ++ [⟨.symbol .closeBracket, ty, j⟩]))
        (.primary (.index e₁ e₂))
  | member {ts tx i j e name} (h : Derives r ts (.primary e)) :
      Derives r (ts ++ [⟨.symbol .dot, tx, i⟩, ⟨.name, name, j⟩]) (.primary (.member e name))
  | noArguments : Derives r [] (.arguments [])
  | arguments {ts us e es} (h : Derives r ts (.chain e)) (hs : Derives r us (.moreArguments es)) :
      Derives r (ts ++ us) (.arguments (e :: es))
  | noMoreArguments : Derives r [] (.moreArguments [])
  | moreArguments {ts us tx i e es} (h : Derives r ts (.chain e))
      (hs : Derives r us (.moreArguments es)) :
      Derives r (⟨.symbol .comma, tx, i⟩ :: (ts ++ us)) (.moreArguments (e :: es))
  -- Atom = '(' Chain ')' | '[' Elements ']' | '{' Properties '}' | literal | ident
  | parentheses {ts tx ty i j e} (h : Derives r ts (.chain e)) :
      Derives r (⟨.symbol .openParen, tx, i⟩ :: (ts ++ [⟨.symbol .closeParen, ty, j⟩])) (.atom e)
  | array {ts tx ty i j es} (hs : Derives r ts (.elements es)) :
      Derives r (⟨.symbol .openBracket, tx, i⟩ :: (ts ++ [⟨.symbol .closeBracket, ty, j⟩]))
        (.atom (.array es))
  | object {ts tx ty i j ps} (hs : Derives r ts (.properties ps)) :
      Derives r (⟨.symbol .openBrace, tx, i⟩ :: (ts ++ [⟨.symbol .closeBrace, ty, j⟩]))
        (.atom (.object ps))
  | string {tx i value} : Derives r [⟨.string value, tx, i⟩] (.atom (.string value))
  | number {tx i value} : Derives r [⟨.number value, tx, i⟩] (.atom (.number value))
  | constant {i name value} (h : Constant.ofName? name = some value) :
      Derives r [⟨.name, name, i⟩] (.atom (.constant value))
  | name {i name} (h : Constant.ofName? name = none) :
      Derives r [⟨.name, name, i⟩] (.atom (.name name))
  -- Elements = [Expr (',' Expr)* [',']]
  | noElements : Derives r [] (.elements [])
  | lastElement {ts e} (h : Derives r ts (.expression e)) : Derives r ts (.elements [e])
  | element {ts us tx i e es} (h : Derives r ts (.expression e))
      (hs : Derives r us (.elements es)) :
      Derives r (ts ++ ⟨.symbol .comma, tx, i⟩ :: us) (.elements (e :: es))
  -- Properties = [Property (',' Property)* [',']]
  | noProperties : Derives r [] (.properties [])
  | lastProperty {ts p} (h : Derives r ts (.property p)) : Derives r ts (.properties [p])
  | property {ts us tx i p ps} (h : Derives r ts (.property p))
      (hs : Derives r us (.properties ps)) :
      Derives r (ts ++ ⟨.symbol .comma, tx, i⟩ :: us) (.properties (p :: ps))
  -- Property = ident [':' Expr] | (string | number | '[' Expr ']') ':' Expr
  | shorthand {i name} : Derives r [⟨.name, name, i⟩] (.property ⟨.name name, .name name⟩)
  | named {ts tx i j e name} (h : Derives r ts (.expression e)) :
      Derives r (⟨.name, name, i⟩ :: ⟨.symbol .colon, tx, j⟩ :: ts) (.property ⟨.name name, e⟩)
  | stringKey {ts tx ty i j e value} (h : Derives r ts (.expression e)) :
      Derives r (⟨.string value, ty, i⟩ :: ⟨.symbol .colon, tx, j⟩ :: ts)
        (.property ⟨.string value, e⟩)
  | numberKey {ts tx ty i j e value} (h : Derives r ts (.expression e)) :
      Derives r (⟨.number value, ty, i⟩ :: ⟨.symbol .colon, tx, j⟩ :: ts)
        (.property ⟨.number value, e⟩)
  | computed {ts us tx ty tz i j k e₁ e₂} (h₁ : Derives r ts (.expression e₁))
      (h₂ : Derives r us (.expression e₂)) :
      Derives r (⟨.symbol .openBracket, tx, i⟩ ::
        (ts ++ ⟨.symbol .closeBracket, ty, j⟩ :: ⟨.symbol .colon, tz, k⟩ :: us))
        (.property ⟨.computed e₁, e₂⟩)

section

variable {ts us : List Token} {tx : Text} {i : Nat} {e e₁ e₂ : Expr}

namespace Derives

/-- What no conditional is may stand on the left of `=` in either reading. -/
theorem target {r : Reading} (h : Derives r ts (.operand 0 e)) : Derives r ts (r.target e) := by
  cases r with
  | any => exact .ternary h
  | innermost => exact h

/-- An assignment to a conditional can be read as an assignment in its last outcome. -/
theorem exists_assignment {phrase : Phrase} (h : Derives .innermost ts phrase)
    (hphrase : phrase = .ternary e₁ ∨ phrase = .expression e₁)
    (hs : Derives .innermost us (.expression e₂)) :
    ∃ e, Derives .innermost (ts ++ ⟨.symbol .assign, tx, i⟩ :: us) (.expression e) := by
  induction h generalizing e₁ with
  | ternary h => exact ⟨_, .assignment h hs⟩
  | conditional h₁ h₂ _ _ _ ih =>
    obtain ⟨e, h₃⟩ := ih (.inr rfl)
    simp only [List.append_assoc, List.cons_append]
    exact ⟨_, .expression (h₁.conditional h₂ h₃)⟩
  | expression _ ih => exact ih (.inl rfl)
  | assignment h₁ _ _ ih =>
    obtain ⟨e, h₂⟩ := ih (.inr rfl)
    simp only [List.append_assoc, List.cons_append]
    exact ⟨_, .assignment h₁ h₂⟩
  | _ => rcases hphrase with hphrase | hphrase <;> cases hphrase

end Derives

/-- The tokens make up a phrase of the same kind in the innermost reading. -/
def Phrase.InInnermost (ts : List Token) : Phrase → Prop
  | program _ => ∃ body, Derives .innermost ts (.program body)
  | statement _ => ∃ body, Derives .innermost ts (.statement body)
  | chain _ => ∃ e, Derives .innermost ts (.chain e)
  | filterArguments _ => ∃ es, Derives .innermost ts (.filterArguments es)
  | expression _ => ∃ e, Derives .innermost ts (.expression e)
  | ternary _ => ∃ e, Derives .innermost ts (.ternary e)
  | operand level _ => ∃ e, Derives .innermost ts (.operand level e)
  | unary _ => ∃ e, Derives .innermost ts (.unary e)
  | primary _ => ∃ e, Derives .innermost ts (.primary e)
  | atom _ => ∃ e, Derives .innermost ts (.atom e)
  | arguments _ => ∃ es, Derives .innermost ts (.arguments es)
  | moreArguments _ => ∃ es, Derives .innermost ts (.moreArguments es)
  | elements _ => ∃ es, Derives .innermost ts (.elements es)
  | properties _ => ∃ ps, Derives .innermost ts (.properties ps)
  | property _ => ∃ p, Derives .innermost ts (.property p)

/-- Whatever the tokens make up in some reading they also make up in the innermost one. -/
theorem Derives.exists_innermost {phrase : Phrase} (h : Derives .any ts phrase) :
    phrase.InInnermost ts := by
  induction h with
  | assignment _ _ ih₁ ih₂ =>
    obtain ⟨e₁, h₁⟩ := ih₁
    obtain ⟨e₂, h₂⟩ := ih₂
    exact h₁.exists_assignment (.inl rfl) h₂
  -- every other production is the same in both readings
  | noStatement => exact ⟨_, .noStatement⟩
  | noFilterArguments => exact ⟨_, .noFilterArguments⟩
  | noArguments => exact ⟨_, .noArguments⟩
  | noMoreArguments => exact ⟨_, .noMoreArguments⟩
  | string => exact ⟨_, .string⟩
  | number => exact ⟨_, .number⟩
  | constant h => exact ⟨_, .constant h⟩
  | name h => exact ⟨_, .name h⟩
  | noElements => exact ⟨_, .noElements⟩
  | noProperties => exact ⟨_, .noProperties⟩
  | shorthand => exact ⟨_, .shorthand⟩
  | lastStatement _ ih => exact ih.imp fun _ => .lastStatement
  | statement _ ih =>
    obtain ⟨_, h⟩ := ih
    exact ⟨_, .statement h⟩
  | chain _ ih => exact ih.imp fun _ => .chain
  | expression _ ih => exact ih.imp fun _ => .expression
  | ternary _ ih => exact ih.imp fun _ => .ternary
  | operand _ ih => exact ih.imp fun _ => .operand
  | tighter hl _ ih => exact ih.imp fun _ => .tighter hl
  | primary _ ih => exact ih.imp fun _ => .primary
  | unary _ ih =>
    obtain ⟨_, h⟩ := ih
    exact ⟨_, .unary h⟩
  | atom _ ih => exact ih.imp fun _ => .atom
  | member _ ih =>
    obtain ⟨_, h⟩ := ih
    exact ⟨_, .member h⟩
  | parentheses _ ih => exact ih.imp fun _ => .parentheses
  | array _ ih =>
    obtain ⟨_, h⟩ := ih
    exact ⟨_, .array h⟩
  | object _ ih =>
    obtain ⟨_, h⟩ := ih
    exact ⟨_, .object h⟩
  | lastElement _ ih =>
    obtain ⟨_, h⟩ := ih
    exact ⟨_, .lastElement h⟩
  | lastProperty _ ih =>
    obtain ⟨_, h⟩ := ih
    exact ⟨_, .lastProperty h⟩
  | named _ ih =>
    obtain ⟨_, h⟩ := ih
    exact ⟨_, .named h⟩
  | stringKey _ ih =>
    obtain ⟨_, h⟩ := ih
    exact ⟨_, .stringKey h⟩
  | numberKey _ ih =>
    obtain ⟨_, h⟩ := ih
    exact ⟨_, .numberKey h⟩
  | statementMore _ _ ih₁ ih₂ =>
    obtain ⟨_, h⟩ := ih₁
    obtain ⟨_, hs⟩ := ih₂
    exact ⟨_, h.statementMore hs⟩
  | filter _ _ ih₁ ih₂ =>
    obtain ⟨_, h⟩ := ih₁
    obtain ⟨_, hs⟩ := ih₂
    exact ⟨_, h.filter hs⟩
  | filterArgument _ _ ih₁ ih₂ =>
    obtain ⟨_, h⟩ := ih₁
    obtain ⟨_, hs⟩ := ih₂
    exact ⟨_, h.filterArgument hs⟩
  | conditional _ _ _ ih₁ ih₂ ih₃ =>
    obtain ⟨_, h₁⟩ := ih₁
    obtain ⟨_, h₂⟩ := ih₂
    obtain ⟨_, h₃⟩ := ih₃
    exact ⟨_, h₁.conditional h₂ h₃⟩
  | binary hl _ _ ih₁ ih₂ =>
    obtain ⟨_, h⟩ := ih₁
    obtain ⟨_, hs⟩ := ih₂
    exact ⟨_, .binary hl h hs⟩
  | call _ _ ih₁ ih₂ =>
    obtain ⟨_, h⟩ := ih₁
    obtain ⟨_, hs⟩ := ih₂
    exact ⟨_, h.call hs⟩
  | index _ _ ih₁ ih₂ =>
    obtain ⟨_, h⟩ := ih₁
    obtain ⟨_, hs⟩ := ih₂
    exact ⟨_, h.index hs⟩
  | arguments _ _ ih₁ ih₂ =>
    obtain ⟨_, h⟩ := ih₁
    obtain ⟨_, hs⟩ := ih₂
    exact ⟨_, h.arguments hs⟩
  | moreArguments _ _ ih₁ ih₂ =>
    obtain ⟨_, h⟩ := ih₁
    obtain ⟨_, hs⟩ := ih₂
    exact ⟨_, h.moreArguments hs⟩
  | element _ _ ih₁ ih₂ =>
    obtain ⟨_, h⟩ := ih₁
    obtain ⟨_, hs⟩ := ih₂
    exact ⟨_, h.element hs⟩
  | property _ _ ih₁ ih₂ =>
    obtain ⟨_, h⟩ := ih₁
    obtain ⟨_, hs⟩ := ih₂
    exact ⟨_, h.property hs⟩
  | computed _ _ ih₁ ih₂ =>
    obtain ⟨_, h⟩ := ih₁
    obtain ⟨_, hs⟩ := ih₂
    exact ⟨_, h.computed hs⟩

end

end MessageExtraction.Expression
