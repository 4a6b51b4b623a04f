import MessageExtraction.Catalog.Basic
import MessageExtraction.Notice

/-!
# What scanning yields

Scanning a source yields candidates and notices in the order in which they are
come upon. It may also come upon something that makes it fail, and then yields
nothing more. A catalog records what scanning yields until the first failure or
the first plural conflict.

## Main definitions

* `ScanFailure` -- what makes scanning fail.
* `ScanEvent` -- a candidate, a notice or a failure.
* `Catalog.record` -- a catalog after scanning.
-/

namespace MessageExtraction

/-- What makes scanning a source fail. -/
inductive ScanFailure
  /-- The document holds a marked section of unknown kind. -/
  | unreadableMarkup
  /-- An escape is no number or names no code point. -/
  | invalidEscape
  /-- An escape names a number that does not fit a machine word. -/
  | escapeOverflow
deriving DecidableEq

/-- What scanning comes upon. -/
inductive ScanEvent
  | candidate (c : Candidate)
  | notice (n : Notice)
  | failure (e : ScanFailure)
deriving DecidableEq

/-- Why extraction from a source stops. -/
inductive ExtractionError
  | conflict (e : PluralConflict)
  | failure (e : ScanFailure)
deriving DecidableEq

/-- A catalog after extraction, the notices on the way, and why extraction stopped if it did. -/
structure Extraction where
  catalog : Catalog
  notices : List Notice
  error : Option ExtractionError

/-- A catalog after scanning has yielded events. -/
def Catalog.record (c : Catalog) : List ScanEvent → Extraction
  | [] => ⟨c, [], none⟩
  | .notice n :: events =>
    let r := c.record events
    { r with notices := n :: r.notices }
  | .failure e :: _ => ⟨c, [], some (.failure e)⟩
  | .candidate candidate :: events =>
    match c.add candidate with
    | (after, none) => after.record events
    | (after, some conflict) => ⟨after, [], some (.conflict conflict)⟩

end MessageExtraction
