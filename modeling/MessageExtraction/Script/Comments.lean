import MessageExtraction.Script.Tree

/-!
# Comments before a construct

The comments directly before a part of a construct belong to it, except for
those on the row where the part before them ends: these trail that part. A part
without comments of its own inherits those of what encloses it. A comment that
begins with three slashes and a space is for translators.

## Main definitions

* `Script.leadingComments` -- the comments that belong to a part.
* `Script.Tree.walk` -- the parts of a tree in source order with their comments.
* `Script.translatorComment` -- what comments say to translators.
-/

namespace MessageExtraction.Script

/-- The comments that belong to a part, given the parts before it from the nearest on. -/
def leadingComments (before : List Tree) : List Tree :=
  let run := before.takeWhile Tree.isComment
  match before.dropWhile Tree.isComment with
  | [] => run.reverse
  | previous :: _ => (run.filter fun c => c.firstRow ≠ previous.lastRow).reverse

/-- The comments of a part: its own if it has any, else those of what encloses it. -/
def commentsOf (inherited own : List Tree) : List Tree :=
  if own.isEmpty then inherited else own

mutual

/-- A tree and all its parts in source order, each with its comments, given those of the tree. -/
def Tree.walk (comments : List Tree) : Tree → List (Tree × List Tree)
  | .leaf kind text first last => [(.leaf kind text first last, comments)]
  | .node kind children => (.node kind children, comments) :: walkParts comments [] children

/-- Parts one after the other with all that is in them, each with its comments; `before` are the
parts before them from the nearest on. -/
def walkParts (inherited before : List Tree) : List Tree → List (Tree × List Tree)
  | [] => []
  | t :: ts =>
    t.walk (commentsOf inherited (leadingComments before)) ++ walkParts inherited (t :: before) ts

end

/-- How a comment for translators begins. -/
def translatorMark : Text :=
  ['/', '/', '/', ' '].map CodePoint.ofChar

/-- What a comment says to translators. -/
def translatorText? : Tree → Option Text
  | .leaf _ text _ _ => Text.after? translatorMark text
  | .node _ _ => none

/-- What comments say to translators, separated by commas. -/
def translatorComment (comments : List Tree) : Text :=
  Text.join ([',', ' '].map CodePoint.ofChar) (comments.filterMap translatorText?)

end MessageExtraction.Script
