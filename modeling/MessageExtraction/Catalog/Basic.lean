import MessageExtraction.Catalog.Entry
import MessageExtraction.Table
import MessageExtraction.Text.CaseFold

/-!
# Catalogs

A catalog gathers candidates into entries, one for each message and context.
It lists its entries by the folded message, then the message itself, then the
context, a message without context first.

## Main definitions

* `Catalog` -- the entries of each message, in the order in which they first came.
* `Catalog.add` -- a catalog after one more candidate.
* `Catalog.get?` -- the entry of a message and a context.
* `Catalog.entries` -- the listing.
-/

namespace MessageExtraction

/-- The entries of each message by their contexts, and whether references show lines. -/
structure Catalog where
  lineNumbers : Bool := true
  messages : Table Text (Table (Option Text) Entry) := []

namespace Catalog

/-- The entries of a message by their contexts. -/
def contexts (c : Catalog) (msgid : Text) : Table (Option Text) Entry :=
  (c.messages.get? msgid).getD []

/-- The entry with a key. -/
def find? (c : Catalog) (key : Text × Option Text) : Option Entry :=
  (c.contexts key.1).get? key.2

/-- A catalog after one more candidate, and the conflict if the candidate brings one. A candidate
of blank text is passed over. -/
def add (c : Catalog) (candidate : Candidate) : Catalog × Option PluralConflict :=
  if candidate.msgid.isEmpty then (c, none)
  else
    let (msgid, context) := candidate.key
    let before := (c.find? candidate.key).getD (Entry.blank candidate.key)
    let (entry, conflict) := before.add c.lineNumbers candidate
    let contexts := (c.contexts msgid).set context entry
    ({ c with messages := c.messages.set msgid contexts }, conflict)

/-- The entry of a message and a context; the empty context is no context. -/
def get? (c : Catalog) (msgid : Text) (context : Option Text) : Option Entry :=
  c.find? (msgid, nonEmpty? context)

/-- The number of entries. -/
def size (c : Catalog) : Nat :=
  (c.messages.flatMap Prod.snd).length

/-- The order of messages: by the folded text, then by the text. -/
def collationKey (t : Text) : Text × Text :=
  (t.caseFold, t)

/-- The order of contexts: none first, then by the text. -/
def contextKey (context : Option Text) : Bool × Text :=
  (context.isSome, context.getD [])

/-- Whether one pair stands before another or is the same: by the first part, then by the
second. -/
def notAfter {α : Type} [LT α] [DecidableLT α] [DecidableEq α] (a b : α × Text) : Bool :=
  a.1 < b.1 || (a.1 = b.1 && !(b.2 < a.2 : Bool))

/-- The entries of one message in the order of their contexts. -/
def sortedContexts (contexts : Table (Option Text) Entry) : List Entry :=
  (contexts.mergeSort fun a b => notAfter (contextKey a.1) (contextKey b.1)).map Prod.snd

/-- The entries in the order of the listing. The order of contexts outlasts the sorting by
messages, which keeps entries of the same message as they stand. -/
def entries (c : Catalog) : List Entry :=
  (c.messages.flatMap fun m => sortedContexts m.2).mergeSort fun a b =>
    notAfter (collationKey a.msgid) (collationKey b.msgid)

/-- A loop over a catalog goes through its listing. -/
instance {m : Type → Type} [Monad m] : ForIn m Catalog Entry where
  forIn c := forIn c.entries

/-- The messages and contexts in the order of the listing. -/
def keys (c : Catalog) : List (Text × Option Text) :=
  c.entries.map Entry.key

end Catalog

end MessageExtraction
