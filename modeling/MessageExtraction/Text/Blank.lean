import MessageExtraction.Text.Ranges

/-!
# Blank code points

White space is what the standard's bidirectional classes and separator
category call white space, the four information separators included. Zero
width characters are not blank.

## Main definitions

* `CodePoint.isBlank` -- the white-space class.
* `Text.strip` -- a text without blanks at its two ends.
* `Text.blankLength` -- how many blanks a text begins with.

## Main results

* `strip_append_of_blank` -- blanks at the ends do not matter.
-/

namespace MessageExtraction

namespace CodePoint

/-- The ranges of white space. -/
def blankRanges : List (Nat × Nat) :=
  [(9, 13), (28, 32), (133, 133), (160, 160), (5760, 5760), (8192, 8202), (8232, 8233),
   (8239, 8239), (8287, 8287), (12288, 12288)]

/-- Whether a code point is white space. -/
def isBlank (c : CodePoint) : Bool :=
  c.inRanges blankRanges

end CodePoint

namespace Text

/-- Removes the blanks at both ends of a text. -/
def strip (t : Text) : Text :=
  stripWhile CodePoint.isBlank t

/-- The number of blanks that a text begins with. -/
def blankLength (t : Text) : Nat :=
  (t.takeWhile CodePoint.isBlank).length

/-- Whether a text holds nothing but blanks. -/
def isBlank (t : Text) : Bool :=
  t.all CodePoint.isBlank

/-- Blanks at the ends do not matter to what remains of a text. -/
theorem strip_append_of_blank {first last : Text} (hfirst : ∀ c ∈ first, c.isBlank = true)
    (hlast : ∀ c ∈ last, c.isBlank = true) (t : Text) : strip (first ++ t ++ last) = strip t := by
  have hend : last.dropWhile CodePoint.isBlank = [] := by
    rw [← List.append_nil last, List.dropWhile_append_of_pos hlast, List.dropWhile_nil]
  rw [strip, stripWhile, List.append_assoc, List.dropWhile_append_of_pos hfirst,
    List.dropWhile_append, strip, stripWhile]
  split
  · next hempty => rw [hend, List.isEmpty_iff.mp hempty]
  · rw [dropEndWhile, List.reverse_append, List.dropWhile_append_of_pos, dropEndWhile]
    exact fun c hc => hlast c (List.mem_reverse.mp hc)

/-- Nothing remains of blanks. -/
theorem strip_of_blank {t : Text} (h : ∀ c ∈ t, c.isBlank = true) : strip t = [] := by
  have hstrip := strip_append_of_blank h (List.forall_mem_nil _) []
  rwa [List.append_nil, List.append_nil] at hstrip

/-- Where nothing remains there were only blanks. -/
theorem blank_of_strip_eq_nil {t : Text} (h : strip t = []) : ∀ c ∈ t, c.isBlank = true := by
  have hall {u : Text} (hu : u.dropWhile CodePoint.isBlank = []) : ∀ c ∈ u, c.isBlank = true := by
    have hparts := List.takeWhile_append_dropWhile (p := CodePoint.isBlank) (l := u)
    rw [hu, List.append_nil] at hparts
    rw [← hparts]
    exact List.all_eq_true.mp List.all_takeWhile
  refine hall (Classical.byContradiction fun hne => ?_)
  have htail := hall (List.reverse_eq_nil_iff.mp h) _ (List.mem_reverse.mpr (List.head_mem hne))
  rw [List.head_dropWhile_not CodePoint.isBlank hne] at htail
  cases htail

end Text

end MessageExtraction
