import MessageExtraction.Text.Basic

/-!
# Syntax trees of scripts

A tree has the tokens of a script as its leaves, comments among them, each with
the rows on which it begins and ends. The children of a construct are all its
parts in source order, brackets and separators included.

## Main definitions

* `Script.Tree` -- a token or a construct with its parts.
* `Script.Part` -- a tree and the comments before its first token.
* `Script.Part.join` -- the construct made of parts.
-/

namespace MessageExtraction.Script

/-- The kinds of leaves. -/
inductive LeafKind
  | punctuation | keyword | identifier | property | privateProperty | string | templateText
  | number | regex | value | markupText | comment | markupComment | interpreterLine | stray
deriving DecidableEq

/-- The kinds of constructs. -/
inductive NodeKind
  | program | block | declaration | declarator | function | arrow | parameters | classForm | heritage
  | classBody | method | field | staticBlock | decorator | statement | clause | switchBody
  | switchCase | exportStatement | importStatement | parenthesized | sequence | assignment
  | conditional | binary | unary | update | await | yield | call | taggedTemplate | new | member
  | subscript | arguments | spread | array | object | pair | computedName | template
  | substitution | markupElement | markupOpening | markupClosing | markupAttribute
  | markupExpression
deriving DecidableEq

/-- A syntax tree. -/
inductive Tree
  | leaf (kind : LeafKind) (text : Text) (firstRow lastRow : Nat)
  | node (kind : NodeKind) (children : List Tree)

namespace Tree

mutual

/-- The row on which the last token of a tree ends. -/
def lastRow : Tree → Nat
  | leaf _ _ _ row => row
  | node _ children => lastRowOf children

/-- The row on which the last token of the trees ends. -/
def lastRowOf : List Tree → Nat
  | [] => 0
  | [t] => t.lastRow
  | _ :: t :: ts => lastRowOf (t :: ts)

end

mutual

/-- The row on which the first token of a tree begins. -/
def firstRow : Tree → Nat
  | leaf _ _ row _ => row
  | node _ children => firstRowOf children

/-- The row on which the first token of the trees begins. -/
def firstRowOf : List Tree → Nat
  | [] => 0
  | t :: _ => t.firstRow

end

/-- Whether a tree is a comment. -/
def isComment : Tree → Bool
  | leaf .comment _ _ _ => true
  | _ => false

/-- Whether a tree is a construct of a kind. -/
def isNode (kind : NodeKind) : Tree → Bool
  | node k _ => k = kind
  | leaf _ _ _ _ => false

/-- Whether a tree is more than a bracket, a separator or a keyword. -/
def isNamed : Tree → Bool
  | leaf kind _ _ _ => kind ≠ .punctuation && kind ≠ .keyword
  | node _ _ => true

/-- The parts of a tree. -/
def children : Tree → List Tree
  | leaf _ _ _ _ => []
  | node _ children => children

/-- The parts of a tree, comments left out. -/
def parts (t : Tree) : List Tree :=
  t.children.filter fun c => !c.isComment

end Tree

/-- A tree and the comments before its first token. -/
structure Part where
  leading : List Tree
  tree : Tree

/-- The construct made of parts. The comments before its first token stay outside of it; those
before another part become its children there. -/
def Part.join (kind : NodeKind) : List Part → Part
  | [] => ⟨[], .node kind []⟩
  | first :: others =>
    ⟨first.leading, .node kind (first.tree :: others.flatMap fun p => p.leading ++ [p.tree])⟩

end MessageExtraction.Script
