import MessageExtraction.Text.Basic

/-!
# Sets of code points given by ranges

The character classes of the Unicode standard are finite unions of ranges. A
class is kept as the list of its maximal ranges, in ascending order.

## Main definitions

* `CodePoint.inRanges` -- membership in a union of ranges.
* `CaseRun` -- a run of code points that a case mapping moves by one distance.
-/

namespace MessageExtraction

/-- Whether a code point lies in one of the ranges, ends included. -/
def CodePoint.inRanges (c : CodePoint) (ranges : List (Nat × Nat)) : Bool :=
  ranges.any fun r => r.1 ≤ c.val && c.val ≤ r.2

/-- Every `step`-th code point from `first` to `last` is moved by `distance`. -/
structure CaseRun where
  first : Nat
  last : Nat
  step : Nat
  distance : Int

/-- Where a run moves a code point, if the code point is on the run. -/
def CaseRun.image? (r : CaseRun) (c : CodePoint) : Option CodePoint :=
  if r.first ≤ c.val && c.val ≤ r.last && (c.val - r.first) % r.step == 0 then
    CodePoint.ofNat? (c.val + r.distance).toNat
  else none

/-- The image of a code point under the first run that holds it, or the code point itself. -/
def CodePoint.mapRuns (c : CodePoint) (runs : List CaseRun) : CodePoint :=
  (runs.findSome? fun r => r.image? c).getD c

end MessageExtraction
