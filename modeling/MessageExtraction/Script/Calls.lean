import MessageExtraction.Script.Comments
import MessageExtraction.Script.Literal
import MessageExtraction.Script.Parser

/-!
# Marked calls

A script marks a message by a call. The name of the method called is that of a
marker, or one of two methods of the accessor of the catalog. The message is the
value of an argument, and its context or its plural form that of a later one.

## Main definitions

* `Script.Tree.methodName?`, `Script.Tree.objectName?` -- what a call calls.
* `Script.Tree.arguments` -- the arguments of a call.
* `Script.callCandidate` -- the candidate that a call marks.
* `Script.scanTree`, `Script.scan` -- what scanning a script yields.
-/

namespace MessageExtraction.Script

/-- The name of the object that gives access to the catalog. -/
def accessorName : Text := "gettextCatalog"

/-- The method of the accessor whose first argument is a message. -/
def singularMethod : Text := "getString"

/-- The method of the accessor whose second argument is a message and whose third is its plural. -/
def pluralMethod : Text := "getPlural"

namespace Tree

/-- The part of a construct at which it begins. -/
def firstPart? (t : Tree) : Option Tree :=
  t.parts.head?

/-- The part of a construct at which it ends. -/
def lastPart? (t : Tree) : Option Tree :=
  t.parts.getLast?

/-- The name of a member access. -/
def memberName? (t : Tree) : Option Tree :=
  if t.isNode .member then t.lastPart? else none

/-- The leaf that names the method of a call. -/
def methodName? (call : Tree) : Option Tree :=
  match call.firstPart? with
  | some (.leaf .identifier text first last) => some (.leaf .identifier text first last)
  | some callee => callee.memberName?
  | none => none

/-- The text of a leaf. -/
def leafText : Tree → Text
  | leaf _ text _ _ => text
  | node _ _ => []

/-- The name of the object whose method a call calls: a variable, or the last name of a member
access. -/
def objectName? (call : Tree) : Option Text :=
  match call.firstPart? with
  | none => none
  | some callee =>
    if callee.isNode .member then
      match callee.firstPart? with
      | some (.leaf .identifier text _ _) => some text
      | some object => object.memberName?.map leafText
      | none => none
    else none

/-- The arguments of a call. -/
def arguments (call : Tree) : List Tree :=
  match call.lastPart? with
  | some list => if list.isNode .arguments then list.parts.filter isNamed else []
  | none => []

end Tree

/-- The value of an argument that may be missing. -/
def argumentValue? (arguments : List Tree) (index : Nat) : Except ScanFailure (Option Text) :=
  match arguments[index]? with
  | some t => t.value?
  | none => .ok none

/-- A message with its plural form and its context. -/
structure MarkedMessage where
  msgid : Option Text
  plural : Option Text := none
  context : Option Text := none

/-- The message that a call of a method marks, given whether the method is one of the accessor. -/
def markedMessage (markers : List Text) (method : Text) (ofAccessor : Bool) (arguments : List Tree) :
    Except ScanFailure MarkedMessage :=
  if markers.contains method || (ofAccessor && method = singularMethod) then do
    let msgid ← argumentValue? arguments 0
    let context ← argumentValue? arguments 2
    return { msgid, context }
  else if ofAccessor && method = pluralMethod then do
    let msgid ← argumentValue? arguments 1
    let plural ← argumentValue? arguments 2
    return { msgid, plural }
  else .ok { msgid := none }

/-- The candidate that a call marks, if it marks one. -/
def callCandidate (markers : List Text) (file : Text) (offset : Int) (call : Tree)
    (comments : List Tree) : Except ScanFailure (Option Candidate) :=
  match call.methodName? with
  | none => .ok none
  | some name =>
    if call.arguments.isEmpty then .ok none
    else do
      let message ←
        markedMessage markers name.leafText (call.objectName? = some accessorName) call.arguments
      match nonEmpty? message.msgid with
      | none => return none
      | some msgid =>
        return some {
          reference := ⟨file, some (name.lastRow + 1 + offset)⟩
          text := msgid
          plural := message.plural
          comment := some (translatorComment comments)
          context := message.context }

/-- What a part of a tree yields. -/
def partEvents (markers : List Text) (file : Text) (offset : Int) (part : Tree × List Tree) :
    List ScanEvent :=
  if part.1.isNode .call then
    match callCandidate markers file offset part.1 part.2 with
    | .ok (some c) => [.candidate c]
    | .ok none => []
    | .error e => [.failure e]
  else []

/-- What scanning a syntax tree yields. -/
def scanTree (markers : List Text) (file : Text) (offset : Int) (tree : Tree) : List ScanEvent :=
  (tree.walk []).flatMap (partEvents markers file offset)

/-- What scanning a source yields; the first row of the source is the line after `offset`. A
source that holds half a surrogate pair cannot be encoded and is passed over. -/
def scan (markers : List Text) (file : Text) (offset : Int) (source : Text) : List ScanEvent :=
  if source.any CodePoint.isSurrogate then [.notice (.unencodableSource file)]
  else scanTree markers file offset (parse source)

end MessageExtraction.Script
