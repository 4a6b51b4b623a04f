import MessageExtraction.Text.Basic

/-!
# Sorted lists of texts without repeats

References and comments of a message are kept in ascending order, each of them
once. The place of a new text is found by halving the list.

## Main definitions

* `SortedTexts.place` -- the first place whose text is not below a value, in a sorted list.
* `SortedTexts.insert` -- the list with a value at its place, and whether the value is new.
-/

namespace MessageExtraction.SortedTexts

/-- Halves the part of `items` from `lo` to `hi` until no place is left to choose. -/
def placeBetween (items : List Text) (value : Text) (lo hi : Nat) : Nat :=
  if lo < hi then
    let mid := (lo + hi) / 2
    if items.getD mid [] < value then placeBetween items value (mid + 1) hi
    else placeBetween items value lo mid
  else lo
termination_by hi - lo

/-- The first place of a sorted list whose text is not below `value`. -/
def place (items : List Text) (value : Text) : Nat :=
  placeBetween items value 0 items.length

/-- Puts a value at its place unless it stands there already. -/
def insert (items : List Text) (value : Text) : Bool × List Text :=
  let i := place items value
  if items[i]? = some value then (false, items)
  else (true, items.take i ++ value :: items.drop i)

/-- The list after putting a value at its place. -/
def add (items : List Text) (value : Text) : List Text :=
  (insert items value).2

end MessageExtraction.SortedTexts
