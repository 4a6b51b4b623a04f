import MessageExtraction.Text.Basic

/-!
# Pieces between separators

A text is split at every separator, so that no piece holds one. Pieces that hold none are those that
the text in which separators join them is split into.

## Main results

* `Text.not_mem_of_mem_splitOn` -- no piece holds a separator.
* `Text.splitOn_join` -- joined pieces are split again.
-/

namespace MessageExtraction.Text

variable {separator : CodePoint} {t piece : Text} {pieces : List Text}

theorem splitOn_of_not_mem (h : separator ∉ t) (u : Text) :
    splitOn separator (t ++ separator :: u) = t :: splitOn separator u := by
  induction t with
  | nil => rw [List.nil_append, splitOn, if_pos rfl]
  | cons c t ih =>
    have hne : c ≠ separator := fun heq => h (heq ▸ List.mem_cons_self ..)
    rw [List.cons_append, splitOn, if_neg hne, ih fun hmem => h (List.mem_cons_of_mem c hmem)]

theorem splitOn_eq_singleton (h : separator ∉ t) : splitOn separator t = [t] := by
  induction t with
  | nil => rfl
  | cons c t ih =>
    have hne : c ≠ separator := fun heq => h (heq ▸ List.mem_cons_self ..)
    rw [splitOn, if_neg hne, ih fun hmem => h (List.mem_cons_of_mem c hmem)]

/-- No piece of a text holds the separator. -/
theorem not_mem_of_mem_splitOn (h : piece ∈ splitOn separator t) : separator ∉ piece := by
  induction t generalizing piece with
  | nil =>
    rw [splitOn, List.mem_singleton] at h
    rw [h]
    exact List.not_mem_nil
  | cons c t ih =>
    rw [splitOn] at h
    split at h
    · rcases List.mem_cons.mp h with rfl | h
      · exact List.not_mem_nil
      · exact ih h
    · next hne =>
      split at h
      · next hnil => exact absurd hnil (splitOn_ne_nil separator t)
      · next first others hparts =>
        rw [hparts] at ih
        rcases List.mem_cons.mp h with rfl | h
        · exact List.not_mem_cons_of_ne_of_not_mem (Ne.symm hne) (ih (List.mem_cons_self ..))
        · exact ih (List.mem_cons_of_mem first h)

/-- Pieces that hold no separator are what the text that separators join them to is split into. -/
theorem splitOn_join (hne : pieces ≠ [])
    (h : ∀ piece ∈ pieces, separator ∉ piece) :
    splitOn separator (join [separator] pieces) = pieces := by
  induction pieces with
  | nil => exact absurd rfl hne
  | cons piece pieces ih =>
    obtain ⟨hpiece, hpieces⟩ := List.forall_mem_cons.mp h
    by_cases hnil : pieces = []
    · rw [hnil, join, splitOn_eq_singleton hpiece]
    · rw [join_cons_of_ne_nil _ _ hnil, List.append_assoc, List.singleton_append,
        splitOn_of_not_mem hpiece, ih hnil hpieces]

end MessageExtraction.Text
