import MessageExtraction.Catalog.Reference
import MessageExtraction.Catalog.SortedTexts
import MessageExtraction.Text.Blank

/-!
# Entries

An entry is a message with its context and everything that the sources say
about it. A candidate is one occurrence of a message in a source.

## Main definitions

* `Candidate` -- an occurrence of a message.
* `Entry` -- what is known of a message in one context.
* `PluralConflict` -- two plural forms of one message.
-/

namespace MessageExtraction

/-- One occurrence of a message in a source. -/
structure Candidate where
  reference : Reference
  text : Text
  plural : Option Text := none
  comment : Option Text := none
  context : Option Text := none
deriving DecidableEq

/-- A text that is absent or empty counts as absent. -/
def nonEmpty? (t : Option Text) : Option Text :=
  t.filter fun t => !t.isEmpty

namespace Candidate

/-- The message of a candidate. -/
def msgid (c : Candidate) : Text :=
  c.text.strip

/-- What tells the messages of a catalog apart: the text and the context. -/
def key (c : Candidate) : Text × Option Text :=
  (c.msgid, nonEmpty? c.context)

end Candidate

/-- What is known of a message in one context. -/
@[ext] structure Entry where
  msgid : Text
  context : Option Text
  plural : Option Text := none
  references : List Text := []
  comments : List Text := []
  /-- The translations of the message, still empty: two if it has a plural form, else one. -/
  messageStrings : List Text := [[]]
deriving DecidableEq

namespace Entry

/-- The key of an entry. -/
def key (e : Entry) : Text × Option Text :=
  (e.msgid, e.context)

/-- An entry that no candidate has reached yet. -/
def blank (key : Text × Option Text) : Entry :=
  { msgid := key.1, context := key.2 }

end Entry

/-- Two plural forms of one message, and where the message stands. -/
structure PluralConflict where
  msgid : Text
  existing : Text
  plural : Text
  references : List Text
deriving DecidableEq

/-- The words for a plural conflict. -/
def PluralConflict.message (e : PluralConflict) : Text :=
  "Incompatible plural definitions for " ++ e.msgid ++ ": " ++ e.existing ++ " / " ++ e.plural ++
    " (in: " ++ Text.join ", " e.references ++ ")"

namespace Entry

/-- Records where a candidate stands. -/
def addReference (e : Entry) (reference : Text) : Entry :=
  { e with references := SortedTexts.add e.references reference }

/-- Records a plural form, and with it the second translation. -/
def setPlural (e : Entry) (plural : Text) : Entry :=
  { e with plural := some plural, messageStrings := [[], []] }

/-- Records the plural form of a candidate if it has one. The first plural form stays, and another
one is a conflict. -/
def addPlural (e : Entry) (plural : Option Text) : Except PluralConflict Entry :=
  match nonEmpty? plural, e.plural with
  | none, _ => .ok e
  | some plural, none => .ok (e.setPlural plural)
  | some plural, some existing =>
    if existing = plural then .ok (e.setPlural plural)
    else .error ⟨e.msgid, existing, plural, e.references⟩

/-- Records the comment of a candidate if it has one. -/
def addComment (e : Entry) (comment : Option Text) : Entry :=
  match nonEmpty? comment with
  | some comment => { e with comments := SortedTexts.add e.comments comment }
  | none => e

/-- An entry after one more candidate, and the conflict if the candidate brings one. The reference
is recorded in either case, the comment only without a conflict. -/
def add (e : Entry) (lineNumbers : Bool) (c : Candidate) : Entry × Option PluralConflict :=
  let located := e.addReference (c.reference.render lineNumbers)
  match located.addPlural c.plural with
  | .ok entry => (entry.addComment c.comment, none)
  | .error conflict => (located, some conflict)

end Entry

end MessageExtraction
