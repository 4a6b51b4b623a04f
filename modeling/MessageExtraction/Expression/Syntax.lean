import MessageExtraction.Expression.Token

/-!
# Syntax of expressions

An expression is built from literals and names by member access, calls,
operators, conditionals and assignments. A filter is applied to an expression
by a bar, and its further arguments follow colons.

## Main definitions

* `UnaryOperator`, `BinaryOperator` -- the operators, with their levels.
* `Expr` -- an expression.
* `Program` -- the statements of a text.
-/

namespace MessageExtraction.Expression

/-- The operators before an operand. -/
inductive UnaryOperator
  | plus | minus | not
deriving DecidableEq

/-- The operators between two operands. -/
inductive BinaryOperator
  | or | and | equal | unequal | strictEqual | strictUnequal
  | less | greater | atMost | atLeast | add | subtract | multiply | divide | modulo
deriving DecidableEq

/-- The symbol of a unary operator. -/
def UnaryOperator.symbol : UnaryOperator → Symbol
  | plus => .plus
  | minus => .minus
  | not => .not

namespace BinaryOperator

/-- The symbol of a binary operator. -/
def symbol : BinaryOperator → Symbol
  | or => .or
  | and => .and
  | equal => .equal
  | unequal => .unequal
  | strictEqual => .strictEqual
  | strictUnequal => .strictUnequal
  | less => .less
  | greater => .greater
  | atMost => .atMost
  | atLeast => .atLeast
  | add => .plus
  | subtract => .minus
  | multiply => .times
  | divide => .divide
  | modulo => .modulo

/-- How tightly an operator binds; the operators of one level associate to the left. -/
def level : BinaryOperator → Nat
  | or => 0
  | and => 1
  | equal | unequal | strictEqual | strictUnequal => 2
  | less | greater | atMost | atLeast => 3
  | add | subtract => 4
  | multiply | divide | modulo => 5

/-- Whether an operator joins truth values. -/
def isLogical : BinaryOperator → Bool
  | or | and => true
  | _ => false

end BinaryOperator

/-- The number of levels of binary operators. -/
def levelCount : Nat := 6

/-- The unary operator that a symbol stands for. -/
def Symbol.unary? : Symbol → Option UnaryOperator
  | .plus => some .plus
  | .minus => some .minus
  | .not => some .not
  | _ => none

/-- The binary operator that a symbol stands for. -/
def Symbol.binary? : Symbol → Option BinaryOperator
  | .or => some .or
  | .and => some .and
  | .equal => some .equal
  | .unequal => some .unequal
  | .strictEqual => some .strictEqual
  | .strictUnequal => some .strictUnequal
  | .less => some .less
  | .greater => some .greater
  | .atMost => some .atMost
  | .atLeast => some .atLeast
  | .plus => some .add
  | .minus => some .subtract
  | .times => some .multiply
  | .divide => some .divide
  | .modulo => some .modulo
  | _ => none

theorem Symbol.unary?_symbol (op : UnaryOperator) : op.symbol.unary? = some op := by
  cases op <;> rfl

theorem Symbol.binary?_symbol (op : BinaryOperator) : op.symbol.binary? = some op := by
  cases op <;> rfl

theorem Symbol.eq_of_binary? {s : Symbol} {operator : BinaryOperator}
    (h : s.binary? = some operator) : s = operator.symbol := by
  cases s <;> cases h <;> rfl

theorem Symbol.eq_of_unary? {s : Symbol} {operator : UnaryOperator}
    (h : s.unary? = some operator) : s = operator.symbol := by
  cases s <;> cases h <;> rfl

/-- The words that stand for a value. -/
inductive Constant
  | true | false | null | undefined
deriving DecidableEq

/-- How a constant is written. -/
def Constant.spelling : Constant → List Char
  | true => ['t', 'r', 'u', 'e']
  | false => ['f', 'a', 'l', 's', 'e']
  | null => ['n', 'u', 'l', 'l']
  | undefined => ['u', 'n', 'd', 'e', 'f', 'i', 'n', 'e', 'd']

/-- The constant that a name stands for, if it stands for one. -/
def Constant.ofName? (name : Text) : Option Constant :=
  [Constant.true, .false, .null, .undefined].find? fun c =>
    name == c.spelling.map CodePoint.ofChar

/-- The key of a property of an object literal. -/
inductive PropertyKey (Expr : Type)
  | name (name : Text)
  | string (value : Text)
  | number (value : Decimal)
  | computed (key : Expr)

/-- A property of an object literal. -/
structure Property (Expr : Type) where
  key : PropertyKey Expr
  value : Expr

/-- The expressions of templates. -/
inductive Expr
  | string (value : Text)
  | number (value : Decimal)
  | constant (value : Constant)
  | name (name : Text)
  | array (elements : List Expr)
  | object (properties : List (Property Expr))
  | member (object : Expr) (property : Text)
  | index (object key : Expr)
  | call (callee : Expr) (arguments : List Expr)
  | filter (name : Text) (input : Expr) (arguments : List Expr)
  | unary (operator : UnaryOperator) (argument : Expr)
  | binary (operator : BinaryOperator) (left right : Expr)
  | conditional (test consequent alternate : Expr)
  | assignment (left right : Expr)

/-- The statements of a text, in order. -/
abbrev Program := List Expr

/-- What kind of expression an expression is, in the words of messages. -/
def Expr.kindName : Expr → String
  | string _ | number _ | constant _ => "Literal"
  | name _ => "Identifier"
  | array _ => "ArrayExpression"
  | object _ => "ObjectExpression"
  | member _ _ | index _ _ => "MemberExpression"
  | call _ _ | filter _ _ _ => "CallExpression"
  | unary _ _ => "UnaryExpression"
  | binary operator _ _ => if operator.isLogical then "LogicalExpression" else "BinaryExpression"
  | conditional _ _ _ => "ConditionalExpression"
  | assignment _ _ => "AssignmentExpression"

end MessageExtraction.Expression
