import MessageExtraction.Catalog.SortedTexts

/-!
# Sorted insertion

Halving finds the first place of an ascending list whose text is not below a
value, so that putting the value there keeps the list ascending. What the list
holds afterwards does not depend on its order.

## Main results

* `SortedTexts.place_spec` -- the texts before the place are below the value, the others are not.
* `SortedTexts.mem_add` -- the list after an insertion holds the value and the old texts.
* `SortedTexts.pairwise_add` -- an ascending list stays ascending.
-/

namespace MessageExtraction.SortedTexts

variable {items : List Text} {value : Text}

/-- Texts below `value` stand before `lo`, and texts from `hi` on are not below `value`. -/
structure Brackets (items : List Text) (value : Text) (lo hi : Nat) : Prop where
  lo_le_hi : lo ≤ hi
  hi_le : hi ≤ items.length
  below : ∀ i (h : i < items.length), i < lo → items[i] < value
  above : ∀ i (h : i < items.length), hi ≤ i → ¬ items[i] < value

/-- Halving keeps the brackets and ends where they meet. -/
theorem brackets_placeBetween (hs : items.Pairwise (· < ·)) {lo hi : Nat}
    (h : Brackets items value lo hi) :
    Brackets items value (placeBetween items value lo hi) (placeBetween items value lo hi) := by
  have hlt : ∀ {i j : Nat} (hi : i < items.length) (hj : j < items.length), i < j →
      items[i] < items[j] := fun hi hj hij => List.pairwise_iff_getElem.mp hs _ _ hi hj hij
  fun_induction placeBetween items value lo hi with
  | case1 lo hi hlo mid hmid ih =>
    have hm : mid < items.length := by have := h.hi_le; omega
    rw [← List.getElem_eq_getD (h := hm)] at hmid
    refine ih ⟨by omega, h.hi_le, fun i hi' hi => ?_, h.above⟩
    rcases Nat.lt_or_eq_of_le (Nat.le_of_lt_succ hi) with hi | rfl
    · exact List.lt_trans (hlt hi' hm hi) hmid
    · exact hmid
  | case2 lo hi hlo mid hmid ih =>
    have hm : mid < items.length := by have := h.hi_le; omega
    rw [← List.getElem_eq_getD (h := hm)] at hmid
    refine ih ⟨by omega, by omega, h.below, fun i hi' hi => ?_⟩
    rcases Nat.lt_or_eq_of_le hi with hi | rfl
    · exact fun hc => hmid (List.lt_trans (hlt hm hi' hi) hc)
    · exact hmid
  | case3 lo hi hlo =>
    obtain rfl : lo = hi := Nat.le_antisymm h.lo_le_hi (Nat.le_of_not_lt hlo)
    exact h

/-- The texts before the place of a value are below it, and the others are not. -/
theorem place_spec (hs : items.Pairwise (· < ·)) :
    Brackets items value (place items value) (place items value) :=
  brackets_placeBetween hs ⟨Nat.zero_le _, Nat.le_refl _, fun _ _ h => absurd h (Nat.not_lt_zero _),
    fun _ h h' => absurd h (Nat.not_lt_of_le h')⟩

/-- A list holds after an insertion what it held before and the value. -/
theorem mem_add {t : Text} : t ∈ add items value ↔ t = value ∨ t ∈ items := by
  rw [add, insert]
  split
  · next h =>
    have hv : value ∈ items := List.mem_of_getElem? h
    exact ⟨Or.inr, fun h => h.elim (fun h => h ▸ hv) id⟩
  · rw [List.mem_append, List.mem_cons, or_left_comm, ← List.mem_append, List.take_append_drop]

/-- All texts before the place of a value are below it. -/
theorem lt_of_mem_take_place (hs : items.Pairwise (· < ·)) :
    ∀ t ∈ items.take (place items value), t < value := by
  intro t ht
  obtain ⟨i, hi, rfl⟩ := List.mem_iff_getElem.mp ht
  rw [List.length_take] at hi
  rw [List.getElem_take]
  exact (place_spec hs).below i (by omega) (by omega)

/-- Where the value is not at its place, all texts from there on are above it. -/
theorem lt_of_mem_drop_place (hs : items.Pairwise (· < ·))
    (hne : items[place items value]? ≠ some value) :
    ∀ t ∈ items.drop (place items value), value < t := by
  have hp : Brackets items value _ _ := place_spec hs
  intro t ht
  obtain ⟨i, hi, rfl⟩ := List.mem_iff_getElem.mp ht
  rw [List.length_drop] at hi
  have hi' : place items value + i < items.length := by omega
  rw [List.getElem_drop]
  have hge : value ≤ items[place items value + i] := hp.above _ hi' (Nat.le_add_right _ _)
  rcases List.le_iff_lt_or_eq.mp hge with hlt | heq
  · exact hlt
  · rcases Nat.eq_zero_or_pos i with rfl | hpos
    · exact absurd (List.getElem?_eq_some_iff.mpr ⟨hi', heq.symm⟩) hne
    · have hplace : place items value < items.length := by omega
      have hlt : items[place items value] < items[place items value + i] :=
        List.pairwise_iff_getElem.mp hs _ _ hplace hi' (by omega)
      rw [← heq] at hlt
      exact absurd hlt (hp.above _ hplace (Nat.le_refl _))

/-- An ascending list is ascending after an insertion. -/
theorem pairwise_add (hs : items.Pairwise (· < ·)) : (add items value).Pairwise (· < ·) := by
  rw [add, insert]
  split
  · exact hs
  · next hne =>
    have hbefore : ∀ t ∈ items.take (place items value), t < value := lt_of_mem_take_place hs
    have hafter := lt_of_mem_drop_place hs hne
    refine List.pairwise_append.mpr ⟨hs.take, List.pairwise_cons.mpr ⟨hafter, hs.drop⟩, ?_⟩
    intro s hs' t ht
    rcases List.mem_cons.mp ht with rfl | ht
    · exact hbefore s hs'
    · exact List.lt_trans (hbefore s hs') (hafter t ht)

end MessageExtraction.SortedTexts
