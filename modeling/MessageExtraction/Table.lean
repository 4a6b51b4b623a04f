/-!
# Tables

A table maps keys to values and remembers the order in which its keys first
came. Setting a key that is there replaces its value and keeps its place.

## Main definitions

* `Table` -- pairs of a key and a value, in order.
* `Table.get?` -- the value of a key.
* `Table.set` -- a table after a key is set.
* `Table.ofList` -- the table that results from setting keys one after another.

## Main results

* `Table.get?_set` -- a key that is set has its new value, and all others keep theirs.
* `Table.keys_set` -- setting a key adds it last or adds none.
* `Table.nodup_keys_ofList` -- a table made from pairs repeats no key.
* `Table.get?_ofList_append_cons` -- the last pair of a key gives its value.
* `Table.get?_eq_some_iff` -- in a table without repeated keys, a pair is found if it is there.
-/

namespace MessageExtraction

/-- Pairs of a key and a value, in the order in which the keys first came. -/
abbrev Table (κ α : Type) := List (κ × α)

namespace Table

variable {κ α : Type}

/-- The keys of a table, in order. -/
def keys (t : Table κ α) : List κ :=
  t.map Prod.fst

variable [DecidableEq κ]

/-- The value of a key. -/
def get? (key : κ) : Table κ α → Option α
  | [] => none
  | (k, v) :: t => if k = key then some v else get? key t

/-- The table after a key is set. -/
def set (key : κ) (value : α) : Table κ α → Table κ α
  | [] => [(key, value)]
  | (k, v) :: t => if k = key then (key, value) :: t else (k, v) :: set key value t

/-- Sets keys one after another. -/
def setAll (t : Table κ α) (pairs : List (κ × α)) : Table κ α :=
  pairs.foldl (fun t pair => set pair.1 pair.2 t) t

/-- The table of keys that are set one after another. -/
def ofList (pairs : List (κ × α)) : Table κ α :=
  setAll [] pairs

/-- A key that is set has its new value, and all others keep theirs. -/
theorem get?_set (key other : κ) (value : α) (t : Table κ α) :
    get? other (set key value t) = if key = other then some value else get? other t := by
  induction t with
  | nil => simp [set, get?]
  | cons pair t ih =>
    obtain ⟨k, v⟩ := pair
    by_cases h : k = key
    · subst h
      by_cases ho : k = other <;> simp [set, get?, ho]
    · by_cases ho : k = other
      · subst ho
        simp [set, get?, h, Ne.symm h]
      · simp [set, get?, h, ho, ih]

/-- Setting a key adds it last, unless it is there already. -/
theorem keys_set (key : κ) (value : α) (t : Table κ α) :
    keys (set key value t) = if key ∈ keys t then keys t else keys t ++ [key] := by
  induction t with
  | nil => simp [set, keys]
  | cons pair t ih =>
    obtain ⟨k, v⟩ := pair
    by_cases h : k = key
    · subst h
      simp [set, keys]
    · have hk : ¬ key = k := fun e => h e.symm
      simp only [keys] at ih
      by_cases hm : key ∈ t.map Prod.fst <;> simp [set, keys, h, hk, ih, hm]

/-- Setting keys repeats none. -/
theorem nodup_keys_set (key : κ) (value : α) {t : Table κ α} (h : (keys t).Nodup) :
    (keys (set key value t)).Nodup := by
  rw [keys_set]
  split
  · exact h
  · next hk =>
    refine List.nodup_append.mpr ⟨h, List.pairwise_singleton _ _, fun a ha b hb => ?_⟩
    rw [List.mem_singleton.mp hb]
    exact fun heq => hk (heq ▸ ha)

/-- A pair of the table after a key is set is the new one or an old one. -/
theorem mem_set {key : κ} {value : α} {t : Table κ α} {pair : κ × α}
    (h : pair ∈ set key value t) : pair = (key, value) ∨ pair ∈ t := by
  induction t with
  | nil => exact Or.inl (List.mem_singleton.mp h)
  | cons first t ih =>
    obtain ⟨k, v⟩ := first
    rw [set] at h
    split at h
    · exact (List.mem_cons.mp h).imp_right (List.mem_cons_of_mem _)
    · rcases List.mem_cons.mp h with rfl | h
      · exact Or.inr List.mem_cons_self
      · exact (ih h).imp_right (List.mem_cons_of_mem _)

/-- A pair of the table after keys are set is a new one or an old one. -/
theorem mem_setAll {t : Table κ α} {pairs : List (κ × α)} {pair : κ × α}
    (h : pair ∈ setAll t pairs) : pair ∈ t ∨ pair ∈ pairs := by
  induction pairs generalizing t with
  | nil => exact Or.inl h
  | cons first pairs ih =>
    rcases ih h with h | h
    · rcases mem_set h with rfl | h
      · exact Or.inr List.mem_cons_self
      · exact Or.inl h
    · exact Or.inr (List.mem_cons_of_mem _ h)

/-- No key of a table made from pairs is repeated. -/
theorem nodup_keys_ofList (pairs : List (κ × α)) : (keys (ofList pairs)).Nodup := by
  suffices h : ∀ t : Table κ α, (keys t).Nodup → (keys (setAll t pairs)).Nodup from
    h [] List.nodup_nil
  induction pairs with
  | nil => exact fun t ht => ht
  | cons pair pairs ih => exact fun t ht => ih _ (nodup_keys_set pair.1 pair.2 ht)

/-- A key keeps its value when it is set to no other one. -/
theorem get?_setAll_of_forall {key : κ} {value : α} {t : Table κ α} {pairs : List (κ × α)}
    (h : get? key t = some value) (hpairs : ∀ pair ∈ pairs, pair.1 = key → pair.2 = value) :
    get? key (setAll t pairs) = some value := by
  induction pairs generalizing t with
  | nil => exact h
  | cons pair pairs ih =>
    obtain ⟨hpair, hpairs⟩ := List.forall_mem_cons.mp hpairs
    refine ih ?_ hpairs
    rw [get?_set]
    split
    · next hkey => rw [hpair hkey]
    · exact h

/-- A key of a table made from pairs has the value of a pair that no later one overrides. -/
theorem get?_ofList_append_cons {key : κ} {value : α} (before : List (κ × α))
    {later : List (κ × α)} (hlater : ∀ pair ∈ later, pair.1 = key → pair.2 = value) :
    get? key (ofList (before ++ (key, value) :: later)) = some value := by
  rw [ofList, setAll, List.foldl_append, List.foldl_cons]
  refine get?_setAll_of_forall ?_ hlater
  rw [get?_set, if_pos rfl]

/-- What is found for a key stands in the table. -/
theorem mem_of_get? {key : κ} {value : α} {t : Table κ α} (h : get? key t = some value) :
    (key, value) ∈ t := by
  induction t with
  | nil => exact absurd h (by simp [get?])
  | cons first t ih =>
    obtain ⟨k, v⟩ := first
    rw [get?] at h
    split at h
    · next hk => rw [hk, Option.some.inj h]; exact List.mem_cons_self
    · exact List.mem_cons_of_mem _ (ih h)

/-- Something is found for a key just if the table has the key. -/
theorem exists_get?_iff {key : κ} {t : Table κ α} :
    (∃ value, get? key t = some value) ↔ key ∈ keys t := by
  refine ⟨fun ⟨value, h⟩ => List.mem_map.mpr ⟨_, mem_of_get? h, rfl⟩, fun h => ?_⟩
  induction t with
  | nil => cases h
  | cons first t ih =>
    obtain ⟨k, v⟩ := first
    rw [get?]
    split
    · exact ⟨v, rfl⟩
    · next hk => exact ih ((List.mem_cons.mp h).resolve_left fun heq => hk heq.symm)

/-- Where no key is repeated, a pair is found by its key just if it is there. -/
theorem get?_eq_some_iff {key : κ} {value : α} {t : Table κ α} (ht : (keys t).Nodup) :
    get? key t = some value ↔ (key, value) ∈ t := by
  refine ⟨mem_of_get?, fun h => ?_⟩
  induction t with
  | nil => exact absurd h (List.not_mem_nil)
  | cons first t ih =>
    obtain ⟨k, v⟩ := first
    obtain ⟨hk, ht⟩ := List.nodup_cons.mp ht
    rw [get?]
    rcases List.mem_cons.mp h with heq | h
    · rw [Prod.mk.injEq] at heq
      rw [if_pos heq.1.symm, heq.2]
    · have hne : k ≠ key := by
        rintro rfl
        exact hk (List.mem_map.mpr ⟨(k, value), h, rfl⟩)
      rw [if_neg hne]
      exact ih ht h

end Table

end MessageExtraction
