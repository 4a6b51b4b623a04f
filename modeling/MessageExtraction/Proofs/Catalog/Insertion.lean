import MessageExtraction.Proofs.Catalog.SortedTexts

/-!
# Where halving puts a value

Halving looks at the text in the middle of a part of a list and goes on with the half above it or
below it. Every text that it looks at is there, whatever the order of the list, and the place that it
ends at lies between a text below the value and one that is not. So a value is found at its place, or
is put there between a text below it and one above it. In an ascending list all texts before the
place are below the value and no others, and the list with the value is ascending again.

## Main definitions

* `SortedTexts.Halves` -- halving a part of a list ends at a place.
* `SortedTexts.Puts` -- a value is found at its place or put there.
* `SortedTexts.KeepsAscending` -- what an insertion leaves of an ascending list.

## Main results

* `SortedTexts.halves_iff` -- the place of a value is the one that halving ends at.
* `SortedTexts.puts_insert_keepsAscending` -- what an insertion does to any list, and to an
  ascending one.
-/

namespace MessageExtraction.SortedTexts

variable {items : List Text} {value : Text} {lo hi i : Nat}

/-- Halving the part of a list from `lo` to `hi` ends at a place. A text in the middle that is below
the value sends it to the half above, and any other text to the half below. -/
inductive Halves (items : List Text) (value : Text) : (lo hi place : Nat) → Prop
  | met (i : Nat) : Halves items value i i i
  | upper {lo hi i : Nat} {middle : Text} (h : lo < hi)
      (hmiddle : items[(lo + hi) / 2]? = some middle) (hbelow : middle < value)
      (hhalf : Halves items value ((lo + hi) / 2 + 1) hi i) : Halves items value lo hi i
  | lower {lo hi i : Nat} {middle : Text} (h : lo < hi)
      (hmiddle : items[(lo + hi) / 2]? = some middle) (hbelow : ¬ middle < value)
      (hhalf : Halves items value lo ((lo + hi) / 2) i) : Halves items value lo hi i

/-- A value is found at the place that halving ends at, and the list stays as it is. Or it is put
there, between a text below it and one above it, and the others stay in their order. -/
inductive Puts (items : List Text) (value : Text) : Bool × List Text → Prop
  | found {i : Nat} (hplace : Halves items value 0 items.length i)
      (hvalue : items[i]? = some value) : Puts items value (false, items)
  | put {before after : List Text} (hitems : items = before ++ after)
      (hplace : Halves items value 0 items.length before.length)
      (hbefore : ∀ t ∈ before.getLast?, t < value) (hafter : ∀ t ∈ after.head?, value < t) :
      Puts items value (true, before ++ value :: after)

/-! ## Halving -/

/-- Halving a part of a list never looks outside of the list. -/
theorem halves_placeBetween (hlo : lo ≤ hi) (hhi : hi ≤ items.length) :
    Halves items value lo hi (placeBetween items value lo hi) := by
  fun_induction placeBetween items value lo hi with
  | case1 lo hi h mid hmid ih =>
    have hlength : (lo + hi) / 2 < items.length := by omega
    rw [← List.getElem_eq_getD (h := hlength)] at hmid
    exact .upper h (List.getElem?_eq_getElem hlength) hmid (ih (by omega) hhi)
  | case2 lo hi h mid hmid ih =>
    have hlength : (lo + hi) / 2 < items.length := by omega
    rw [← List.getElem_eq_getD (h := hlength)] at hmid
    exact .lower h (List.getElem?_eq_getElem hlength) hmid (ih (by omega) (by omega))
  | case3 lo hi h =>
    obtain rfl : lo = hi := by omega
    exact .met lo

theorem Halves.unique {j : Nat} (h : Halves items value lo hi i) (h' : Halves items value lo hi j) :
    i = j := by
  induction h with
  | met k =>
    cases h' with
    | met => rfl
    | upper h => exact absurd h (Nat.lt_irrefl _)
    | lower h => exact absurd h (Nat.lt_irrefl _)
  | upper h hmiddle hbelow _ ih =>
    cases h' with
    | met => exact absurd h (Nat.lt_irrefl _)
    | upper _ _ _ hhalf => exact ih hhalf
    | lower _ hmiddle' hbelow' =>
      obtain rfl := Option.some.inj (hmiddle.symm.trans hmiddle')
      exact absurd hbelow hbelow'
  | lower h hmiddle hbelow _ ih =>
    cases h' with
    | met => exact absurd h (Nat.lt_irrefl _)
    | upper _ hmiddle' hbelow' =>
      obtain rfl := Option.some.inj (hmiddle.symm.trans hmiddle')
      exact absurd hbelow' hbelow
    | lower _ _ _ hhalf => exact ih hhalf

/-- The place of a value is the one that halving the whole list ends at. -/
theorem halves_iff : Halves items value 0 items.length i ↔ i = place items value := by
  have hplace : Halves items value 0 items.length (place items value) :=
    halves_placeBetween (Nat.zero_le _) (Nat.le_refl _)
  exact ⟨fun h => h.unique hplace, fun h => h ▸ hplace⟩

/-- The text before a place is below a value and the text at the place is not, as far as there are
such texts. -/
structure Parts (items : List Text) (value : Text) (below notBelow : Nat) : Prop where
  below : ∀ t ∈ (items.take below).getLast?, t < value
  notBelow : ∀ t ∈ items[notBelow]?, ¬ t < value

/-- Halving keeps a text below the value before the part that is left and one that is not after it,
and ends between the two. -/
theorem Halves.parts (h : Halves items value lo hi i) (hparts : Parts items value lo hi) :
    Parts items value i i ∧ lo ≤ i ∧ i ≤ hi := by
  induction h with
  | met => exact ⟨hparts, Nat.le_refl _, Nat.le_refl _⟩
  | @upper lo hi i middle h hmiddle hbelow _ ih =>
    have hlast : (items.take ((lo + hi) / 2 + 1)).getLast? = some middle := by
      rw [List.take_add_one, hmiddle]
      exact List.getLast?_concat ..
    have hhalf : Parts items value ((lo + hi) / 2 + 1) hi :=
      ⟨fun t ht => Option.some.inj (hlast.symm.trans ht) ▸ hbelow, hparts.notBelow⟩
    obtain ⟨hend, hle, hge⟩ := ih hhalf
    exact ⟨hend, by omega, hge⟩
  | @lower lo hi i middle h hmiddle hbelow _ ih =>
    have hhalf : Parts items value lo ((lo + hi) / 2) :=
      ⟨hparts.below, fun t ht => Option.some.inj (hmiddle.symm.trans ht) ▸ hbelow⟩
    obtain ⟨hend, hle, hge⟩ := ih hhalf
    exact ⟨hend, hle, by omega⟩

/-- In a list of any order, the place of a value lies between a text below the value and one that is
not. -/
theorem parts_place :
    Parts items value (place items value) (place items value) ∧
      place items value ≤ items.length := by
  obtain ⟨hparts, -, hle⟩ := (halves_iff.mpr rfl).parts
    (⟨by simp, by simp⟩ : Parts items value 0 items.length)
  exact ⟨hparts, hle⟩

/-! ## Insertion -/

/-- An insertion finds the value at its place or puts it there, whatever the order of the list. -/
theorem puts_insert (items : List Text) (value : Text) :
    Puts items value (insert items value) := by
  obtain ⟨hparts, hle⟩ := @parts_place items value
  rw [insert]
  split
  · next hvalue => exact .found (halves_iff.mpr rfl) hvalue
  · next hvalue =>
    refine .put (List.take_append_drop ..).symm ?_ hparts.below fun t ht => ?_
    · rw [List.length_take_of_le hle]
      exact halves_iff.mpr rfl
    · rw [List.head?_drop] at ht
      have hge : value ≤ t := hparts.notBelow t ht
      refine (List.le_iff_lt_or_eq.mp hge).resolve_right ?_
      rintro rfl
      exact hvalue ht

/-- What an insertion leaves of an ascending list: an ascending list with the value and the old texts,
which has changed just if the value is new. Halving ends where the texts below the value end. -/
structure KeepsAscending (items : List Text) (value : Text) (result : Bool × List Text) : Prop where
  ascending : result.2.Pairwise (· < ·)
  mem_iff : ∀ t, t ∈ result.2 ↔ t = value ∨ t ∈ items
  isNew_iff : result.1 = true ↔ value ∉ items
  place : ∀ i, Halves items value 0 items.length i →
    (∀ t ∈ items.take i, t < value) ∧ ∀ t ∈ items.drop i, value ≤ t

/-- The texts of an ascending list from the place of a value on are not below it. -/
theorem le_of_mem_drop_place (h : items.Pairwise (· < ·)) :
    ∀ t ∈ items.drop (place items value), value ≤ t := by
  intro t ht
  obtain ⟨i, hi, rfl⟩ := List.mem_iff_getElem.mp ht
  rw [List.length_drop] at hi
  rw [List.getElem_drop]
  exact (place_spec h).above _ (by omega) (Nat.le_add_right ..)

theorem fst_insert_iff (h : items.Pairwise (· < ·)) :
    (insert items value).1 = true ↔ value ∉ items := by
  rw [insert]
  split
  · next hvalue => simpa using List.mem_of_getElem? hvalue
  · next hvalue =>
    refine iff_of_true rfl fun hmem => ?_
    rw [← List.take_append_drop (place items value) items, List.mem_append] at hmem
    rcases hmem with hmem | hmem
    · exact List.lt_irrefl _ (lt_of_mem_take_place h value hmem)
    · exact List.lt_irrefl _ (lt_of_mem_drop_place h hvalue value hmem)

/-- An insertion finds the value where halving ends or puts it there and changes nothing else,
whatever the order of the list. An ascending list stays ascending, holds the value and the old texts,
and changes just if the value is new. -/
theorem puts_insert_keepsAscending (items : List Text) (value : Text) :
    Puts items value (insert items value) ∧
      (items.Pairwise (· < ·) → KeepsAscending items value (insert items value)) := by
  refine ⟨puts_insert items value, fun h => ⟨pairwise_add h, fun t => mem_add, fst_insert_iff h, ?_⟩⟩
  intro i hi
  rw [halves_iff.mp hi]
  exact ⟨lt_of_mem_take_place h, le_of_mem_drop_place h⟩

/-- An ascending list of two texts stays ascending when a third is put between them. -/
theorem keepsAscending_insert_between :
    (["a", "c"].map Text.ofString).Pairwise (· < ·) ∧
      KeepsAscending (["a", "c"].map Text.ofString) "b"
        (insert (["a", "c"].map Text.ofString) "b") := by
  have h : (["a", "c"].map Text.ofString).Pairwise (· < ·) := by decide
  exact ⟨h, (puts_insert_keepsAscending _ _).2 h⟩

end MessageExtraction.SortedTexts
