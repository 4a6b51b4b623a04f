import MessageExtraction.Template.Scan

/-!
# Entities while markup is read

While markup is read the sentinel stands for ampersands. Putting it there changes no length and no
line, and a text without sentinels is restored.

## Main results

* `restoreEntities_protectEntities` -- a text without sentinels is restored.
-/

namespace MessageExtraction.Template

/-- Interpolations between double braces. -/
def doubleBraces : Setting :=
  ⟨⟨"\x7b\x7b", "\x7d\x7d"⟩, []⟩

@[simp] theorem length_protectEntities (t : Text) : (protectEntities t).length = t.length :=
  List.length_map _

@[simp] theorem length_restoreEntities (t : Text) : (restoreEntities t).length = t.length :=
  List.length_map _

theorem lineFeeds_protectEntities (t : Text) :
    Text.lineFeeds (protectEntities t) = Text.lineFeeds t := by
  rw [Text.lineFeeds, Text.countOf, protectEntities, List.countP_map]
  refine List.countP_congr fun c _ => ?_
  rw [Function.comp_apply]
  split
  · next hc =>
    obtain rfl := CodePoint.is_iff.mp hc
    decide
  · exact Iff.rfl

@[simp] theorem protectEntities_append (t u : Text) :
    protectEntities (t ++ u) = protectEntities t ++ protectEntities u :=
  List.map_append

@[simp] theorem restoreEntities_append (t u : Text) :
    restoreEntities (t ++ u) = restoreEntities t ++ restoreEntities u :=
  List.map_append

/-- A text without ampersands is read as it is. -/
theorem protectEntities_of_plain {t : Text} (h : ∀ c ∈ t, c.is '&' = false) :
    protectEntities t = t := by
  refine (List.map_congr_left fun c hc => ?_).trans (List.map_id t)
  rw [h c hc, if_neg Bool.false_ne_true, id]

/-- A text without sentinels is not restored to another one. -/
theorem restoreEntities_of_not_mem {t : Text} (h : sentinel ∉ t) : restoreEntities t = t := by
  refine (List.map_congr_left fun c hc => if_neg ?_).trans (List.map_id t)
  rintro rfl
  exact h hc

/-- A text without sentinels is restored. -/
theorem restoreEntities_protectEntities {t : Text} (h : sentinel ∉ t) :
    restoreEntities (protectEntities t) = t := by
  rw [restoreEntities, protectEntities, List.map_map]
  refine (List.map_congr_left fun c hc => ?_).trans (List.map_id t)
  rw [Function.comp_apply]
  split
  · next hand => rw [if_pos rfl, CodePoint.is_iff.mp hand, id]
  · have hne : c ≠ sentinel := by
      rintro rfl
      exact h hc
    rw [if_neg hne, id]

end MessageExtraction.Template
