import MessageExtraction.Expression.Syntax
import MessageExtraction.Text.Quoted

/-!
# Reading expressions

The tokens of a text are read by descent through the levels of the grammar:
a filter chain, an assignment, a conditional, the six levels of binary
operators, unary operators, and an atom with its suffixes. Every function takes
the number of nested steps that it may still make. Each token takes at most
sixteen of them, so `parse` allows sixteen for each token and as many again.

## Main definitions

* `Complaint` -- what is wrong with the tokens.
* `SyntaxError` -- why a text is no program, and `SyntaxError.message`.
* `parse` -- the statements of a text.
-/

namespace MessageExtraction.Expression

/-- What is wrong at a token. -/
inductive Complaint
  | unexpectedToken (text : Text)
  | expectedSymbol (s : Symbol)
  | expectedFilterName
  | expectedPropertyName
  | unexpectedEnd
  | invalidObjectKey
  | expectedColonAfterKey
deriving DecidableEq

/-- Why reading stops: no steps are left, or the first of the remaining tokens is out of place. -/
inductive Stop
  | outOfSteps
  | complaint (what : Complaint) (tokens : List Token)

/-- Passes over a symbol that has to come next. -/
def consume (s : Symbol) : List Token → Except Stop (List Token)
  | [] => .error (.complaint (.expectedSymbol s) [])
  | token :: tokens =>
    if token.lexeme = .symbol s then .ok tokens
    else .error (.complaint (.expectedSymbol s) (token :: tokens))

/-- Whether the next token is a given symbol. -/
def nextIs (s : Symbol) : List Token → Bool
  | [] => false
  | token :: _ => token.lexeme = .symbol s

mutual

/-- A filter chain: an expression and the filters applied to it. -/
def chain : Nat → List Token → Except Stop (Expr × List Token)
  | 0, _ => .error .outOfSteps
  | n + 1, tokens => do
    let (left, tokens) ← expression n tokens
    filters n left tokens

/-- The filters after what they are applied to. -/
def filters : Nat → Expr → List Token → Except Stop (Expr × List Token)
  | 0, _, _ => .error .outOfSteps
  | n + 1, left, tokens =>
    if nextIs .pipe tokens then
      match tokens.tail with
      | ⟨.name, name, _⟩ :: tokens => do
        let (arguments, tokens) ← filterArguments n tokens
        filters n (.filter name left arguments) tokens
      | tokens => .error (.complaint .expectedFilterName tokens)
    else .ok (left, tokens)

/-- The further arguments of a filter, each after a colon. -/
def filterArguments : Nat → List Token → Except Stop (List Expr × List Token)
  | 0, _ => .error .outOfSteps
  | n + 1, tokens =>
    if nextIs .colon tokens then do
      let (argument, tokens) ← expression n tokens.tail
      let (arguments, tokens) ← filterArguments n tokens
      .ok (argument :: arguments, tokens)
    else .ok ([], tokens)

/-- An expression without filters: a conditional, or an assignment to one. -/
def expression : Nat → List Token → Except Stop (Expr × List Token)
  | 0, _ => .error .outOfSteps
  | n + 1, tokens => do
    let (left, tokens) ← ternary n tokens
    if nextIs .assign tokens then
      let (right, tokens) ← expression n tokens.tail
      .ok (.assignment left right, tokens)
    else .ok (left, tokens)

/-- A conditional, or the test alone. -/
def ternary : Nat → List Token → Except Stop (Expr × List Token)
  | 0, _ => .error .outOfSteps
  | n + 1, tokens => do
    let (test, tokens) ← operand n 0 tokens
    if nextIs .question tokens then
      let (consequent, tokens) ← expression n tokens.tail
      let tokens ← consume .colon tokens
      let (alternate, tokens) ← expression n tokens
      .ok (.conditional test consequent alternate, tokens)
    else .ok (test, tokens)

/-- An operand and what operators of a level or a tighter one join to it. -/
def operand : Nat → (level : Nat) → List Token → Except Stop (Expr × List Token)
  | 0, _, _ => .error .outOfSteps
  | n + 1, level, tokens =>
    if level = levelCount then unary n tokens
    else do
      let (left, tokens) ← operand n (level + 1) tokens
      operators n level left tokens

/-- The operators of one level after their first operand. -/
def operators : Nat → (level : Nat) → Expr → List Token → Except Stop (Expr × List Token)
  | 0, _, _, _ => .error .outOfSteps
  | n + 1, level, left, tokens =>
    match tokens with
    | ⟨.symbol s, _, _⟩ :: rest =>
      match s.binary? with
      | some operator =>
        if operator.level = level then do
          let (right, rest) ← operand n (level + 1) rest
          operators n level (.binary operator left right) rest
        else .ok (left, tokens)
      | none => .ok (left, tokens)
    | _ => .ok (left, tokens)

/-- Unary operators and their operand. -/
def unary : Nat → List Token → Except Stop (Expr × List Token)
  | 0, _ => .error .outOfSteps
  | n + 1, tokens =>
    match tokens with
    | ⟨.symbol s, _, _⟩ :: rest =>
      match s.unary? with
      | some operator => do
        let (argument, rest) ← unary n rest
        .ok (.unary operator argument, rest)
      | none => primary n tokens
    | _ => primary n tokens

/-- An atom and its suffixes. -/
def primary : Nat → List Token → Except Stop (Expr × List Token)
  | 0, _ => .error .outOfSteps
  | n + 1, tokens => do
    let (first, tokens) ← atom n tokens
    suffixes n first tokens

/-- A parenthesised chain, an array, an object, a literal, a constant or a name. -/
def atom : Nat → List Token → Except Stop (Expr × List Token)
  | 0, _ => .error .outOfSteps
  | n + 1, tokens =>
    match tokens with
    | [] => .error (.complaint .unexpectedEnd [])
    | ⟨.string value, _, _⟩ :: rest => .ok (.string value, rest)
    | ⟨.number value, _, _⟩ :: rest => .ok (.number value, rest)
    | ⟨.name, name, _⟩ :: rest =>
      match Constant.ofName? name with
      | some value => .ok (.constant value, rest)
      | none => .ok (.name name, rest)
    | ⟨.symbol .openParen, _, _⟩ :: rest => do
      let (inner, rest) ← chain n rest
      let rest ← consume .closeParen rest
      .ok (inner, rest)
    | ⟨.symbol .openBracket, _, _⟩ :: rest => do
      let (items, rest) ← elements n rest
      let rest ← consume .closeBracket rest
      .ok (.array items, rest)
    | ⟨.symbol .openBrace, _, _⟩ :: rest => do
      let (items, rest) ← properties n rest
      let rest ← consume .closeBrace rest
      .ok (.object items, rest)
    | ⟨.symbol _, text, _⟩ :: _ => .error (.complaint (.unexpectedToken text) tokens)

/-- The calls and member accesses after their object. -/
def suffixes : Nat → Expr → List Token → Except Stop (Expr × List Token)
  | 0, _, _ => .error .outOfSteps
  | n + 1, left, tokens =>
    if nextIs .openParen tokens then do
      let (items, tokens) ← arguments n tokens.tail
      let tokens ← consume .closeParen tokens
      suffixes n (.call left items) tokens
    else if nextIs .openBracket tokens then do
      let (key, tokens) ← expression n tokens.tail
      let tokens ← consume .closeBracket tokens
      suffixes n (.index left key) tokens
    else if nextIs .dot tokens then
      match tokens.tail with
      | ⟨.name, name, _⟩ :: tokens => suffixes n (.member left name) tokens
      | tokens => .error (.complaint .expectedPropertyName tokens)
    else .ok (left, tokens)

/-- The arguments of a call, up to the closing parenthesis. -/
def arguments : Nat → List Token → Except Stop (List Expr × List Token)
  | 0, _ => .error .outOfSteps
  | n + 1, tokens =>
    if nextIs .closeParen tokens then .ok ([], tokens)
    else do
      let (first, tokens) ← chain n tokens
      let (others, tokens) ← argumentTail n tokens
      .ok (first :: others, tokens)

/-- The arguments after the first, each after a comma. -/
def argumentTail : Nat → List Token → Except Stop (List Expr × List Token)
  | 0, _ => .error .outOfSteps
  | n + 1, tokens =>
    if nextIs .comma tokens then do
      let (argument, tokens) ← chain n tokens.tail
      let (others, tokens) ← argumentTail n tokens
      .ok (argument :: others, tokens)
    else .ok ([], tokens)

/-- The elements of an array, a comma allowed after the last. -/
def elements : Nat → List Token → Except Stop (List Expr × List Token)
  | 0, _ => .error .outOfSteps
  | n + 1, tokens =>
    if nextIs .closeBracket tokens then .ok ([], tokens)
    else do
      let (item, tokens) ← expression n tokens
      if nextIs .comma tokens then
        let (items, tokens) ← elements n tokens.tail
        .ok (item :: items, tokens)
      else .ok ([item], tokens)

/-- The properties of an object, a comma allowed after the last. -/
def properties : Nat → List Token → Except Stop (List (Property Expr) × List Token)
  | 0, _ => .error .outOfSteps
  | n + 1, tokens =>
    if nextIs .closeBrace tokens then .ok ([], tokens)
    else do
      let (item, tokens) ← property n tokens
      if nextIs .comma tokens then
        let (items, tokens) ← properties n tokens.tail
        .ok (item :: items, tokens)
      else .ok ([item], tokens)

/-- A property: a key and its value, or a name that is both. -/
def property : Nat → List Token → Except Stop (Property Expr × List Token)
  | 0, _ => .error .outOfSteps
  | n + 1, tokens =>
    match tokens with
    | ⟨.symbol .openBracket, _, _⟩ :: rest => do
      let (key, rest) ← expression n rest
      let rest ← consume .closeBracket rest
      let rest ← consume .colon rest
      let (value, rest) ← expression n rest
      .ok (⟨.computed key, value⟩, rest)
    | ⟨.name, name, _⟩ :: rest =>
      if nextIs .colon rest then do
        let (value, rest) ← expression n rest.tail
        .ok (⟨.name name, value⟩, rest)
      else .ok (⟨.name name, .name name⟩, rest)
    | ⟨.string key, _, _⟩ :: rest => literalProperty n (.string key) rest
    | ⟨.number key, _, _⟩ :: rest => literalProperty n (.number key) rest
    | _ => .error (.complaint .invalidObjectKey tokens)

/-- The value after a literal key. -/
def literalProperty : Nat → PropertyKey Expr → List Token → Except Stop (Property Expr × List Token)
  | 0, _, _ => .error .outOfSteps
  | n + 1, key, tokens =>
    if nextIs .colon tokens then do
      let (value, tokens) ← expression n tokens.tail
      .ok (⟨key, value⟩, tokens)
    else .error (.complaint .expectedColonAfterKey tokens)

end

/-- Whether a statement begins at the next token. -/
def startsStatement : List Token → Bool
  | [] => false
  | token :: _ =>
    token.lexeme ≠ .symbol .closeBrace && token.lexeme ≠ .symbol .closeParen
      && token.lexeme ≠ .symbol .semicolon && token.lexeme ≠ .symbol .closeBracket

/-- The statement at the front of the tokens, if one begins there. -/
def statement (n : Nat) (tokens : List Token) : Except Stop (Program × List Token) :=
  if startsStatement tokens then do
    let (e, tokens) ← chain n tokens
    .ok ([e], tokens)
  else .ok ([], tokens)

/-- The statements at the front of the tokens, separated by semicolons. -/
def statements : Nat → List Token → Except Stop (Program × List Token)
  | 0, _ => .error .outOfSteps
  | n + 1, tokens => do
    let (first, tokens) ← statement n tokens
    if nextIs .semicolon tokens then
      let (others, tokens) ← statements n tokens.tail
      .ok (first ++ others, tokens)
    else .ok (first, tokens)

/-- The statements that all the tokens make up. -/
def program (n : Nat) (tokens : List Token) : Except Stop Program := do
  let (body, rest) ← statements n tokens
  match rest with
  | [] => .ok body
  | token :: _ => .error (.complaint (.unexpectedToken token.text) rest)

/-- The steps that suffice to read a number of tokens. -/
def stepsFor (tokens : List Token) : Nat :=
  16 * (tokens.length + 1)

/-- Why a text is no program. -/
inductive SyntaxError
  | stray (point : CodePoint) (index : Nat)
  | misplaced (what : Complaint) (index : Option Nat) (source : Text)
deriving DecidableEq

/-- The statements of a text. -/
def parse (source : Text) : Except SyntaxError Program :=
  match tokenize source with
  | .error stray => .error (.stray stray.point stray.index)
  | .ok tokens =>
    match program (stepsFor tokens) tokens with
    | .ok body => .ok body
    | .error (.complaint what rest) => .error (.misplaced what (rest.head?.map (·.index)) source)
    | .error .outOfSteps => .error (.misplaced .unexpectedEnd none source)

/-- The words for what is wrong. -/
def Complaint.message : Complaint → Text
  | unexpectedToken text => "Unexpected token " ++ text.quoted
  | expectedSymbol s => "Expected " ++ s.text.quoted
  | expectedFilterName => "Expected filter name"
  | expectedPropertyName => "Expected property name"
  | unexpectedEnd => "Unexpected end of expression"
  | invalidObjectKey => "Invalid object key"
  | expectedColonAfterKey => "Expected ':' after object key"

/-- The words for why a text is no program. -/
def SyntaxError.message : SyntaxError → Text
  | stray point index =>
    "Unexpected character " ++ Text.quoted [point] ++ " at column " ++ Text.ofNat index
  | misplaced what index source =>
    let place : Text := match index with
      | some index => "column " ++ Text.ofNat index
      | none => "end of expression"
    what.message ++ " at " ++ place ++ " in " ++ source.quoted

end MessageExtraction.Expression
