import MessageExtraction.Expression.Filters

/-!
# Entities of quotation marks

Before a text is read, a double quote takes the place of every entity of a quotation mark. The two
entities are replaced one after the other, but no entity comes about by replacing the other one: the
text is as if both had been replaced together, from left to right.

## Main definitions

* `Restores` -- a text with a double quote in place of every entity of a quotation mark.

## Main results

* `Restores.eq_restoreQuotes`, `restores_restoreQuotes` -- there is one way to restore a text, and
  it is `restoreQuotes`.
-/

namespace MessageExtraction.Expression

/-- The second text is the first one with a double quote in place of every entity of a quotation
mark, taken from left to right. -/
inductive Restores : Text → Text → Prop
  | nil : Restores [] []
  | entity {e t u : Text} (he : e ∈ quoteEntities) (h : Restores t u) :
      Restores (e ++ t) ('\x22' :: u)
  | plain {c : CodePoint} {t u : Text} (hno : ∀ e ∈ quoteEntities, ¬ e <+: c :: t)
      (h : Restores t u) : Restores (c :: t) (c :: u)

section

variable {c : CodePoint} {e p t u v : Text}

/-- An entity begins with an ampersand and has neither quotation marks nor backslashes. -/
theorem entity_spec (he : e ∈ quoteEntities) :
    (∃ t, e = CodePoint.ofChar '&' :: t) ∧ CodePoint.ofChar '\x22' ∉ e ∧
      CodePoint.ofChar '\x27' ∉ e ∧ CodePoint.ofChar '\\' ∉ e := by
  simp only [quoteEntities, List.mem_cons, List.not_mem_nil, or_false] at he
  rcases he with rfl | rfl
  · exact ⟨⟨_, rfl⟩, by decide, by decide, by decide⟩
  · exact ⟨⟨_, rfl⟩, by decide, by decide, by decide⟩

theorem not_prefix_of_ne (hc : c ≠ '&') (t : Text) : ∀ e ∈ quoteEntities, ¬ e <+: c :: t := by
  intro e he hbegins
  obtain ⟨⟨e', rfl⟩, -⟩ := entity_spec he
  exact hc (List.cons_prefix_cons.mp hbegins).1.symm

/-! ## Replacing one entity -/

/-- What begins a text with replacements, up to its first double quote, began the text before. -/
theorem prefix_of_prefix_replaceAll {pattern : Text} (hp : CodePoint.ofChar '\x22' ∉ p)
    (h : p <+: t.replaceAll pattern ['\x22']) : p <+: t := by
  induction p generalizing t with
  | nil => exact List.nil_prefix
  | cons c p ih =>
    cases t with
    | nil => exact h
    | cons d t =>
      rw [Text.replaceAll_cons] at h
      split at h
      · exact absurd (List.cons_prefix_cons.mp h).1.symm (List.ne_of_not_mem_cons hp)
      · obtain ⟨rfl, hp'⟩ := List.cons_prefix_cons.mp h
        exact List.cons_prefix_cons.mpr ⟨rfl, ih (List.not_mem_of_not_mem_cons hp) hp'⟩

theorem replaceAll_of_not_begins {pattern : Text} (h : ¬ pattern <+: c :: t) (value : Text) :
    Text.replaceAll (c :: t) pattern value = c :: t.replaceAll pattern value := by
  rw [Text.replaceAll_cons, if_neg fun hstarts => h (Text.startsWith_iff_prefix.mp hstarts)]

theorem replaceAll_pattern_append (c : CodePoint) (p t value : Text) :
    Text.replaceAll (c :: (p ++ t)) (c :: p) value = value ++ t.replaceAll (c :: p) value := by
  have hstarts : Text.startsWith (c :: (p ++ t)) (c :: p) = true :=
    Text.startsWith_iff_prefix.mpr (List.prefix_append (c :: p) t)
  rw [Text.replaceAll_cons, if_pos hstarts, List.length_cons, Nat.add_sub_cancel, List.drop_left]

/-! ## Replacing both -/

/-- Entities are restored only in what comes after a text without ampersands. -/
theorem restoreQuotes_append (h : CodePoint.ofChar '&' ∉ t) (u : Text) :
    restoreQuotes (t ++ u) = t ++ restoreQuotes u := by
  simp only [restoreQuotes, quoteEntities, List.map_cons, List.foldl_cons, List.foldl_nil,
    Text.replaceAll_append_of_not_mem h]

/-- A code point at which no entity begins is kept. -/
theorem restoreQuotes_cons (hno : ∀ e ∈ quoteEntities, ¬ e <+: c :: t) :
    restoreQuotes (c :: t) = c :: restoreQuotes t := by
  obtain ⟨hquot, hnumber, -⟩ : _ ∧ _ ∧ _ := by
    simpa only [quoteEntities, List.forall_mem_cons] using hno
  simp only [restoreQuotes, quoteEntities, List.foldl_cons, List.foldl_nil]
  rw [replaceAll_of_not_begins hquot, replaceAll_of_not_begins fun hbegins => ?_]
  rw [← replaceAll_of_not_begins hquot] at hbegins
  exact hnumber (prefix_of_prefix_replaceAll (by decide) hbegins)

/-- A double quote takes the place of an entity. -/
theorem restoreQuotes_entity (he : e ∈ quoteEntities) (t : Text) :
    restoreQuotes (e ++ t) = CodePoint.ofChar '\x22' :: restoreQuotes t := by
  simp only [quoteEntities, List.mem_cons, List.not_mem_nil, or_false] at he
  rcases he with rfl | rfl
  · exact (congrArg (Text.replaceAll · _ _) (replaceAll_pattern_append _ _ t _)).trans
      (Text.replaceAll_append_of_not_mem (by decide) _ _ _)
  · -- the first replacement keeps the entity, the second one replaces it
    have hno : ¬ ['&', 'q', 'u', 'o', 't', ';'].map CodePoint.ofChar <+:
        CodePoint.ofChar '&' :: (['#', '3', '9', ';'].map CodePoint.ofChar ++ t) := by
      simp [List.cons_prefix_cons, CodePoint.ofChar]
    have hkept := (replaceAll_of_not_begins hno ['\x22']).trans
      (congrArg (_ :: ·) (Text.replaceAll_append_of_not_mem (by decide) t _ _))
    exact (congrArg (Text.replaceAll · _ _) hkept).trans (replaceAll_pattern_append _ _ _ _)

/-- There is one way to restore a text. -/
theorem Restores.eq_restoreQuotes (h : Restores t u) : u = restoreQuotes t := by
  induction h with
  | nil => rfl
  | entity he _ ih => rw [restoreQuotes_entity he, ih]
  | plain hno _ ih => rw [restoreQuotes_cons hno, ih]

theorem restores_restoreQuotes (t : Text) : Restores t (restoreQuotes t) := by
  induction hlength : t.length using Nat.strongRecOn generalizing t with
  | ind n ih =>
    subst hlength
    by_cases hentity : ∃ e ∈ quoteEntities, e <+: t
    · obtain ⟨e, he, u, rfl⟩ := hentity
      obtain ⟨⟨e', rfl⟩, -⟩ := entity_spec he
      rw [restoreQuotes_entity he]
      exact .entity he (ih _ (by rw [List.length_append, List.length_cons]; omega) u rfl)
    · cases t with
      | nil => exact .nil
      | cons c t =>
        have hno : ∀ e ∈ quoteEntities, ¬ e <+: c :: t := fun e he h => hentity ⟨e, he, h⟩
        rw [restoreQuotes_cons hno]
        exact .plain hno (ih _ (by simp) t rfl)

end

end MessageExtraction.Expression
