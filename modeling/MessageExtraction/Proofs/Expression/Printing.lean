import MessageExtraction.Expression.Syntax
import MessageExtraction.Proofs.Expression.Quoting

/-!
# Printing expressions

An expression is printed as words with a space between them. An operand stands
in parentheses only when it binds less tightly than its place requires. How
numbers and strings are written is left to a style: any numeral of the same
double will do, and any body between quotation marks that stands for the string.

Reading gives back the decimals of the numerals, which need not be the ones
that were printed; `Expr.mapNumbers` says what becomes of an expression.

## Main definitions

* `Expr.Printable` -- the names of an expression can be written.
* `Style` -- how numbers, strings and semicolons are written.
* `Expr.precedence` -- how tightly an expression binds.
* `Expr.words` -- the words of an expression.
* `Style.print` -- the text of a program.
-/

namespace MessageExtraction.Expression

/-! ## What can be printed -/

/-- Whether a text is a name. -/
def IsName : Text → Prop
  | [] => False
  | c :: t => startsName c ∧ t.all continuesName

instance : DecidablePred IsName
  | [] => inferInstanceAs (Decidable False)
  | c :: t => inferInstanceAs (Decidable (startsName c ∧ t.all continuesName))

mutual

/-- The names in an expression are names of the language, and those of operands are no constants. -/
def Expr.Printable : Expr → Prop
  | .string _ | .number _ | .constant _ => True
  | .name name => IsName name ∧ Constant.ofName? name = none
  | .array elements => PrintableList elements
  | .object properties => PrintableProperties properties
  | .member object property => object.Printable ∧ IsName property
  | .index object key => object.Printable ∧ key.Printable
  | .call callee others => callee.Printable ∧ PrintableList others
  | .filter name input others => IsName name ∧ input.Printable ∧ PrintableList others
  | .unary _ argument => argument.Printable
  | .binary _ left right => left.Printable ∧ right.Printable
  | .conditional test consequent alternate =>
    test.Printable ∧ consequent.Printable ∧ alternate.Printable
  | .assignment left right => left.Printable ∧ right.Printable

/-- All of several expressions can be written. -/
def PrintableList : List Expr → Prop
  | [] => True
  | e :: es => e.Printable ∧ PrintableList es

/-- The keys and the values of properties can be written. -/
def PrintableProperties : List (Property Expr) → Prop
  | [] => True
  | ⟨key, value⟩ :: ps => PrintableKey key ∧ value.Printable ∧ PrintableProperties ps

/-- The key of a property can be written. -/
def PrintableKey : PropertyKey Expr → Prop
  | .name name => IsName name
  | .string _ | .number _ => True
  | .computed key => key.Printable

end

/-! ## What reading gives back -/

mutual

/-- An expression with its numbers replaced. -/
def Expr.mapNumbers (f : Decimal → Decimal) : Expr → Expr
  | .string value => .string value
  | .number value => .number (f value)
  | .constant value => .constant value
  | .name name => .name name
  | .array elements => .array (mapNumbersList f elements)
  | .object properties => .object (mapNumbersProperties f properties)
  | .member object property => .member (object.mapNumbers f) property
  | .index object key => .index (object.mapNumbers f) (key.mapNumbers f)
  | .call callee others => .call (callee.mapNumbers f) (mapNumbersList f others)
  | .filter name input others => .filter name (input.mapNumbers f) (mapNumbersList f others)
  | .unary operator argument => .unary operator (argument.mapNumbers f)
  | .binary operator left right => .binary operator (left.mapNumbers f) (right.mapNumbers f)
  | .conditional test consequent alternate =>
    .conditional (test.mapNumbers f) (consequent.mapNumbers f) (alternate.mapNumbers f)
  | .assignment left right => .assignment (left.mapNumbers f) (right.mapNumbers f)

/-- Expressions with their numbers replaced. -/
def mapNumbersList (f : Decimal → Decimal) : List Expr → List Expr
  | [] => []
  | e :: es => e.mapNumbers f :: mapNumbersList f es

/-- Properties with the numbers in their keys and values replaced. -/
def mapNumbersProperties (f : Decimal → Decimal) : List (Property Expr) → List (Property Expr)
  | [] => []
  | ⟨key, value⟩ :: ps => ⟨mapNumbersKey f key, value.mapNumbers f⟩ :: mapNumbersProperties f ps

/-- The key of a property with its numbers replaced. -/
def mapNumbersKey (f : Decimal → Decimal) : PropertyKey Expr → PropertyKey Expr
  | .name name => .name name
  | .string value => .string value
  | .number value => .number (f value)
  | .computed key => .computed (key.mapNumbers f)

end

mutual

theorem Expr.mapNumbers_id : ∀ e : Expr, e.mapNumbers id = e
  | .string _ | .number _ | .constant _ | .name _ => rfl
  | .array elements => by rw [Expr.mapNumbers, mapNumbersList_id elements]
  | .object properties => by rw [Expr.mapNumbers, mapNumbersProperties_id properties]
  | .member object _ => by rw [Expr.mapNumbers, object.mapNumbers_id]
  | .index object key => by rw [Expr.mapNumbers, object.mapNumbers_id, key.mapNumbers_id]
  | .call callee others => by rw [Expr.mapNumbers, callee.mapNumbers_id, mapNumbersList_id others]
  | .filter _ input others => by rw [Expr.mapNumbers, input.mapNumbers_id, mapNumbersList_id others]
  | .unary _ argument => by rw [Expr.mapNumbers, argument.mapNumbers_id]
  | .binary _ left right => by rw [Expr.mapNumbers, left.mapNumbers_id, right.mapNumbers_id]
  | .conditional test consequent alternate => by
    rw [Expr.mapNumbers, test.mapNumbers_id, consequent.mapNumbers_id, alternate.mapNumbers_id]
  | .assignment left right => by rw [Expr.mapNumbers, left.mapNumbers_id, right.mapNumbers_id]

theorem mapNumbersList_id : ∀ es : List Expr, mapNumbersList id es = es
  | [] => rfl
  | e :: es => by rw [mapNumbersList, e.mapNumbers_id, mapNumbersList_id es]

theorem mapNumbersProperties_id : ∀ ps : List (Property Expr), mapNumbersProperties id ps = ps
  | [] => rfl
  | ⟨key, value⟩ :: ps => by
    rw [mapNumbersProperties, mapNumbersKey_id key, value.mapNumbers_id, mapNumbersProperties_id ps]

theorem mapNumbersKey_id : ∀ key : PropertyKey Expr, mapNumbersKey id key = key
  | .name _ | .string _ | .number _ => rfl
  | .computed key => by rw [mapNumbersKey, key.mapNumbers_id]

end

/-! ## Words -/

/-- How numbers, strings and semicolons are written. -/
structure Style where
  /-- The numeral of a number. -/
  numeral : Decimal → Text
  /-- The number that is read back from its numeral. -/
  value : Decimal → Decimal
  scan_numeral (d : Decimal) : Decimal.scan (numeral d) = some (value d, (numeral d).length)
  bits_value (d : Decimal) : (value d).bits = d.bits
  /-- The quotation mark at both ends of a string. -/
  mark : Text → CodePoint
  isMark (t : Text) : IsMark (mark t)
  /-- What stands between the marks. -/
  body : Text → Text
  quotes_body (t : Text) : Quotes (mark t) (body t) t
  /-- The number of spaces before a semicolon. -/
  spacesBefore : Nat
  /-- The number of spaces after a semicolon. -/
  spacesAfter : Nat

/-- The word of a symbol. -/
def Symbol.word (s : Symbol) : Word :=
  ⟨.symbol s, s.text⟩

/-- The word of a name. -/
def nameWord (name : Text) : Word :=
  ⟨.name, name⟩

/-- The word of a constant. -/
def Constant.word (c : Constant) : Word :=
  nameWord (c.spelling.map CodePoint.ofChar)

/-- The word of a number. -/
def Style.numberWord (style : Style) (d : Decimal) : Word :=
  ⟨.number (style.value d), style.numeral d⟩

/-- The word of a string. -/
def Style.stringWord (style : Style) (t : Text) : Word :=
  ⟨.string t, style.mark t :: (style.body t ++ [style.mark t])⟩

/-- How tightly an expression binds: filters least, then assignments, conditionals, the levels of
binary operators and unary operators, and what is built by suffixes together with atoms most. -/
def Expr.precedence : Expr → Nat
  | .filter _ _ _ => 0
  | .assignment _ _ => 1
  | .conditional _ _ _ => 2
  | .binary operator _ _ => operator.level + 3
  | .unary _ _ => levelCount + 3
  | _ => levelCount + 4

/-- The words of an expression at a place that requires it to bind so tightly. -/
def enclose (required : Nat) (e : Expr) (ws : List Word) : List Word :=
  if e.precedence < required then Symbol.openParen.word :: (ws ++ [Symbol.closeParen.word]) else ws

mutual

/-- The words of an expression. In a row the first comma is left out. -/
def Expr.words (style : Style) : Expr → List Word
  | .string value => [style.stringWord value]
  | .number value => [style.numberWord value]
  | .constant value => [value.word]
  | .name name => [nameWord name]
  | .array elements =>
    Symbol.openBracket.word ::
      ((tailWords style .comma 1 elements).tail ++ [Symbol.closeBracket.word])
  | .object properties =>
    Symbol.openBrace.word ::
      ((propertyTailWords style properties).tail ++ [Symbol.closeBrace.word])
  | .member object property =>
    enclose (levelCount + 4) object (object.words style) ++ [Symbol.dot.word, nameWord property]
  | .index object key =>
    enclose (levelCount + 4) object (object.words style) ++
      Symbol.openBracket.word :: (enclose 1 key (key.words style) ++ [Symbol.closeBracket.word])
  | .call callee others =>
    enclose (levelCount + 4) callee (callee.words style) ++
      Symbol.openParen.word :: ((tailWords style .comma 0 others).tail ++ [Symbol.closeParen.word])
  | .filter name input others =>
    enclose 0 input (input.words style) ++
      Symbol.pipe.word :: nameWord name :: tailWords style .colon 1 others
  | .unary operator argument =>
    operator.symbol.word :: enclose (levelCount + 3) argument (argument.words style)
  | .binary operator left right =>
    enclose (operator.level + 3) left (left.words style) ++
      operator.symbol.word :: enclose (operator.level + 4) right (right.words style)
  | .conditional test consequent alternate =>
    enclose 3 test (test.words style) ++
      Symbol.question.word :: (enclose 1 consequent (consequent.words style) ++
        Symbol.colon.word :: enclose 1 alternate (alternate.words style))
  -- a ternary would do on the left, but a conditional there would take the assignment
  | .assignment left right =>
    enclose 3 left (left.words style) ++
      Symbol.assign.word :: enclose 1 right (right.words style)

/-- The words of expressions with a symbol before each. -/
def tailWords (style : Style) (s : Symbol) (required : Nat) : List Expr → List Word
  | [] => []
  | e :: es => s.word :: (enclose required e (e.words style) ++ tailWords style s required es)

/-- The words of properties with a comma before each. -/
def propertyTailWords (style : Style) : List (Property Expr) → List Word
  | [] => []
  | ⟨key, value⟩ :: ps =>
    Symbol.comma.word :: (keyWords style key ++
      Symbol.colon.word :: enclose 1 value (value.words style)) ++ propertyTailWords style ps

/-- The words of the key of a property. -/
def keyWords (style : Style) : PropertyKey Expr → List Word
  | .name name => [nameWord name]
  | .string value => [style.stringWord value]
  | .number value => [style.numberWord value]
  | .computed key =>
    Symbol.openBracket.word :: (enclose 1 key (key.words style) ++ [Symbol.closeBracket.word])

end

/-! ## Text -/

/-- Words with a space between them. -/
def spaced (ws : List Word) : Text :=
  Text.join [' '] (ws.map Word.text)

/-- A semicolon with the spaces around it. -/
def Style.separator (style : Style) : Text :=
  List.replicate style.spacesBefore (CodePoint.ofChar ' ') ++
    CodePoint.ofChar ';' :: List.replicate style.spacesAfter (CodePoint.ofChar ' ')

/-- The text of a program. -/
def Style.print (style : Style) (body : Program) : Text :=
  Text.join style.separator (body.map fun e => spaced (e.words style))

end MessageExtraction.Expression
