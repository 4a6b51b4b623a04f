import MessageExtraction.Table
import MessageExtraction.Text.Basic

/-!
# JSON values

## Main definitions

* `Json.Value` -- a JSON value; a number is kept as it is written.
-/

namespace MessageExtraction.Json

/-- A JSON value. The members of an object are a table: a repeated name keeps its first place and
has its last value. -/
inductive Value
  | null
  | bool (b : Bool)
  | number (literal : Text)
  | string (t : Text)
  | array (items : List Value)
  | object (members : List (Text × Value))

namespace Value

/-- The text of a string. -/
def text? : Value → Option Text
  | string t => some t
  | _ => none

/-- The truth value of a boolean. -/
def bool? : Value → Option Bool
  | bool b => some b
  | _ => none

/-- The texts of an array of strings. -/
def texts? : Value → Option (List Text)
  | array items => items.mapM text?
  | _ => none

/-- The members of an object all of whose values are strings. -/
def textTable? : Value → Option (Table Text Text)
  | object members => members.mapM fun m => (m.2.text?).map fun t => (m.1, t)
  | _ => none

end Value

end MessageExtraction.Json
