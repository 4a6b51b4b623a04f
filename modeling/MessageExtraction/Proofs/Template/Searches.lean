import MessageExtraction.Template.Interpolation

/-!
# Searching a text

A search goes through a text from left to right and goes on after what it has found. So what it
finds stands apart and in order, and where something is recognised the search has found it or
something that reaches over its beginning.

## Main definitions

* `Progresses` -- what is recognised is not empty and no longer than the text.

## Main results

* `of_mem_findFrom`, `place_of_mem_findFrom` -- what a search finds, and where it stands.
* `pairwise_findFrom` -- what a search finds stands in order and does not overlap.
* `exists_mem_findFrom`, `findFrom_eq_nil_iff` -- a search misses nothing.
-/

namespace MessageExtraction.Template

/-! ## Searches -/

section

variable {α : Type} {recognise : Recogniser α} {p : α → Prop} {nonEmpty : Bool} {offset : Nat}
  {t : Text}

/-- What is found in a text has what the recogniser gives it at a place in the text, which is not
beyond the offset that the recogniser is told. -/
theorem of_mem_findFrom
    (h : ∀ nonEmpty index first u value n, t = first ++ u → offset + first.length ≤ index →
      recognise nonEmpty index u = some (value, n) → p value) :
    ∀ found ∈ findFrom recognise nonEmpty offset t, p found.value := by
  fun_induction findFrom recognise nonEmpty offset t with
  | case1 => exact fun _ hf => absurd hf List.not_mem_nil
  | case2 nonEmpty offset value n hvalue hempty =>
    intro found hf
    obtain rfl := List.mem_singleton.mp hf
    exact h nonEmpty offset [] [] value n rfl (Nat.le_refl _) hvalue
  | case3 => exact fun _ hf => absurd hf List.not_mem_nil
  | case4 nonEmpty offset c t hnone ih =>
    refine ih fun ne index first u value n hu hle => h ne index (c :: first) u value n ?_ ?_
    · rw [hu, List.cons_append]
    · rw [List.length_cons]
      omega
  | case5 nonEmpty offset c t value n hvalue ih =>
    intro found hf
    rcases List.mem_cons.mp hf with rfl | hf
    · exact h nonEmpty offset [] (c :: t) value (n + 1) rfl (Nat.le_refl _) hvalue
    · refine ih (fun ne index first u value m hu hle =>
        h ne index (c :: (t.take n ++ first)) u value m ?_ ?_) found hf
      · rw [List.cons_append, List.append_assoc, ← hu, List.take_append_drop]
      · have htake := List.length_take_le n t
        rw [List.length_cons, List.length_append]
        omega
  | case6 offset c t value hvalue ih =>
    refine ih fun ne index first u value n hu hle => h ne index (c :: first) u value n ?_ ?_
    · rw [hu, List.cons_append]
    · rw [List.length_cons]
      omega
  | case7 nonEmpty offset c t value hvalue hempty ih =>
    intro found hf
    rcases List.mem_cons.mp hf with rfl | hf
    · exact h nonEmpty offset [] (c :: t) value 0 rfl (Nat.le_refl _) hvalue
    · exact ih h found hf

/-- What a recogniser recognises is not empty and no longer than the text. -/
def Progresses (recognise : Recogniser α) : Prop :=
  ∀ nonEmpty index u value n, recognise nonEmpty index u = some (value, n) →
    0 < n ∧ n ≤ u.length

/-- What is found lies beyond the offset at which the search begins. -/
theorem offset_le_start : ∀ found ∈ findFrom recognise nonEmpty offset t, offset ≤ found.start := by
  fun_induction findFrom recognise nonEmpty offset t with
  | case1 => exact fun _ hf => absurd hf List.not_mem_nil
  | case2 => exact List.forall_mem_singleton.mpr (Nat.le_refl _)
  | case3 => exact fun _ hf => absurd hf List.not_mem_nil
  | case4 nonEmpty offset c t hnone ih =>
    exact fun found hf => Nat.le_of_succ_le (ih found hf)
  | case5 nonEmpty offset c t value n hvalue ih =>
    refine List.forall_mem_cons.mpr ⟨Nat.le_refl _, fun found hf => ?_⟩
    have hle := ih found hf
    omega
  | case6 offset c t value hvalue ih =>
    exact fun found hf => Nat.le_of_succ_le (ih found hf)
  | case7 nonEmpty offset c t value hvalue hempty ih =>
    exact List.forall_mem_cons.mpr ⟨Nat.le_refl _, ih⟩

/-- What is found later begins where what is found earlier has ended. -/
theorem pairwise_findFrom :
    (findFrom recognise nonEmpty offset t).Pairwise fun f g => f.stop ≤ g.start := by
  fun_induction findFrom recognise nonEmpty offset t with
  | case1 => exact .nil
  | case2 => exact List.pairwise_singleton _ _
  | case3 => exact .nil
  | case4 nonEmpty offset c t hnone ih => exact ih
  | case5 nonEmpty offset c t value n hvalue ih => exact .cons offset_le_start ih
  | case6 offset c t value hvalue ih => exact ih
  | case7 nonEmpty offset c t value hvalue hempty ih => exact .cons offset_le_start ih

/-- What is found stands at its place in the text. -/
theorem place_of_mem_findFrom (h : Progresses recognise) :
    ∀ found ∈ findFrom recognise nonEmpty offset t, ∃ nonEmpty' first u n, t = first ++ u ∧
      found.start = offset + first.length ∧ found.stop = found.start + n ∧
      recognise nonEmpty' found.start u = some (found.value, n) := by
  fun_induction findFrom recognise nonEmpty offset t with
  | case1 => exact fun _ hf => absurd hf List.not_mem_nil
  | case2 nonEmpty offset value n hvalue hempty =>
    have hlength := h _ _ _ _ _ hvalue
    exact absurd hlength.2 (Nat.not_le.mpr hlength.1)
  | case3 => exact fun _ hf => absurd hf List.not_mem_nil
  | case4 nonEmpty offset c t hnone ih =>
    intro found hf
    obtain ⟨ne, first, u, n, hu, hstart, hrest⟩ := ih found hf
    refine ⟨ne, c :: first, u, n, by rw [hu, List.cons_append], ?_, hrest⟩
    rw [hstart, List.length_cons]
    omega
  | case5 nonEmpty offset c t value n hvalue ih =>
    refine List.forall_mem_cons.mpr ⟨⟨_, [], c :: t, n + 1, rfl, rfl, rfl, hvalue⟩, ?_⟩
    intro found hf
    obtain ⟨ne, first, u, m, hu, hstart, hrest⟩ := ih found hf
    have hlength := (h _ _ _ _ _ hvalue).2
    refine ⟨ne, c :: (t.take n ++ first), u, m, ?_, ?_, hrest⟩
    · rw [List.cons_append, List.append_assoc, ← hu, List.take_append_drop]
    · rw [List.length_cons] at hlength
      rw [hstart, List.length_cons, List.length_append, List.length_take_of_le (by omega)]
      omega
  | case6 offset c t value hvalue ih =>
    exact absurd (h _ _ _ _ _ hvalue).1 (Nat.lt_irrefl 0)
  | case7 nonEmpty offset c t value hvalue hempty ih =>
    exact absurd (h _ _ _ _ _ hvalue).1 (Nat.lt_irrefl 0)

/-- A place where something is recognised lies within something that is found. -/
theorem exists_mem_findFrom (h : Progresses recognise) {first u : Text} (ht : t = first ++ u)
    (hsome : ∀ nonEmpty, (recognise nonEmpty (offset + first.length) u).isSome) :
    ∃ found ∈ findFrom recognise nonEmpty offset t,
      found.start ≤ offset + first.length ∧ offset + first.length < found.stop := by
  fun_induction findFrom recognise nonEmpty offset t generalizing first with
  | case1 | case2 | case3 =>
    obtain ⟨rfl, rfl⟩ := List.append_eq_nil_iff.mp ht.symm
    obtain ⟨⟨value, n⟩, hvalue⟩ := Option.isSome_iff_exists.mp (hsome false)
    have hlength := h _ _ _ _ _ hvalue
    exact absurd hlength.2 (Nat.not_le.mpr hlength.1)
  | case4 nonEmpty offset c t hnone ih =>
    cases first with
    | nil =>
      obtain rfl := ht
      exact absurd (hsome nonEmpty) (by rw [List.length_nil, Nat.add_zero, hnone]; exact nofun)
    | cons d first =>
      have hindex : offset + (d :: first).length = offset + 1 + first.length := by
        rw [List.length_cons]
        omega
      rw [hindex] at hsome ⊢
      exact ih (List.cons.inj ht).2 hsome
  | case5 nonEmpty offset c t value n hvalue ih =>
    by_cases hwithin : first.length < n + 1
    · refine ⟨_, List.mem_cons_self .., Nat.le_add_right _ _, ?_⟩
      dsimp only
      omega
    · have hindex : offset + first.length = offset + n + 1 + (first.drop (n + 1)).length := by
        rw [List.length_drop]
        omega
      have hdrop : t.drop n = first.drop (n + 1) ++ u := by
        rw [← List.drop_append_of_le_length (by omega), ← ht, List.drop_succ_cons]
      rw [hindex] at hsome ⊢
      obtain ⟨found, hfound, hplace⟩ := ih hdrop hsome
      exact ⟨found, List.mem_cons_of_mem _ hfound, hplace⟩
  | case6 offset c t value hvalue ih =>
    exact absurd (h _ _ _ _ _ hvalue).1 (Nat.lt_irrefl 0)
  | case7 nonEmpty offset c t value hvalue hempty ih =>
    exact absurd (h _ _ _ _ _ hvalue).1 (Nat.lt_irrefl 0)

/-- What is recognised at the start of a text is found, and the search goes on after it. -/
theorem findFrom_eq_cons {value : α} {n : Nat} (ht : t ≠ [])
    (h : recognise nonEmpty offset t = some (value, n + 1)) :
    findFrom recognise nonEmpty offset t =
      ⟨offset, offset + n + 1, value⟩ ::
        findFrom recognise false (offset + n + 1) (t.drop (n + 1)) := by
  cases t with
  | nil => exact absurd rfl ht
  | cons c t => rw [findFrom, h, List.drop_succ_cons]

/-- A search finds nothing exactly when nothing is recognised anywhere. -/
theorem findFrom_eq_nil_iff :
    findFrom recognise false offset t = [] ↔
      ∀ first u, t = first ++ u → recognise false (offset + first.length) u = none := by
  induction t generalizing offset with
  | nil =>
    have hwhole : (∀ first u, ([] : Text) = first ++ u →
        recognise false (offset + first.length) u = none) ↔ recognise false offset [] = none := by
      refine ⟨fun h => h [] [] rfl, fun h first u hu => ?_⟩
      obtain ⟨rfl, rfl⟩ := List.append_eq_nil_iff.mp hu.symm
      exact h
    rw [hwhole, findFrom]
    cases recognise false offset [] with
    | none => exact iff_of_true rfl rfl
    | some => exact iff_of_false (List.cons_ne_nil _ _) (Option.some_ne_none _)
  | cons c t ih =>
    have hfirst : (∀ first u, c :: t = first ++ u →
        recognise false (offset + first.length) u = none) ↔
        recognise false offset (c :: t) = none ∧ findFrom recognise false (offset + 1) t = [] := by
      rw [ih]
      refine ⟨fun h => ⟨h [] _ rfl, fun first u hu => ?_⟩, fun h first u hu => ?_⟩
      · rw [Nat.add_assoc, Nat.add_comm 1]
        exact h (c :: first) u (by rw [hu, List.cons_append])
      · cases first with
        | nil =>
          rw [List.nil_append] at hu
          exact hu ▸ h.1
        | cons d first =>
          rw [List.length_cons, Nat.add_comm first.length, ← Nat.add_assoc]
          exact h.2 first u (List.cons.inj hu).2
    rw [hfirst, findFrom]
    cases recognise false offset (c :: t) with
    | none => exact (and_iff_right rfl).symm
    | some found =>
      obtain ⟨value, n⟩ := found
      refine iff_of_false ?_ fun h => absurd h.1 (Option.some_ne_none _)
      cases n with
      | zero => exact List.cons_ne_nil _ _
      | succ n => exact List.cons_ne_nil _ _

end

/-! ## Blanks -/

section

variable {t u blanks expected : Text} {n : Nat}

theorem startsWith_iff : Text.startsWith t u = true ↔ ∃ rest, t = u ++ rest :=
  Text.startsWith_iff_prefix.trans (exists_congr fun _ => eq_comm)

theorem blankLength_append (hblanks : blanks.isBlank) (h : ∀ c ∈ t.head?, c.isBlank = false) :
    Text.blankLength (blanks ++ t) = blanks.length := by
  have htake : t.takeWhile CodePoint.isBlank = [] := by
    cases t with
    | nil => rfl
    | cons c t => rw [List.takeWhile_cons, h c rfl]; rfl
  rw [Text.blankLength, List.takeWhile_append_of_pos (List.all_eq_true.mp hblanks), htake,
    List.append_nil]

/-- The code points before the first that is not blank. -/
theorem isBlank_take (h : n ≤ Text.blankLength t) : Text.isBlank (t.take n) := by
  refine List.all_eq_true.mpr fun c hc => ?_
  rw [← List.takeWhile_append_dropWhile (p := CodePoint.isBlank) (l := t),
    List.take_append_of_le_length h] at hc
  exact List.all_eq_true.mp List.all_takeWhile c (List.mem_of_mem_take hc)

theorem length_take_blankLength (h : n ≤ Text.blankLength t) : (t.take n).length = n := by
  rw [List.length_take]
  exact Nat.min_eq_left (Nat.le_trans h (List.takeWhile_prefix _).length_le)

theorem length_le_blankLength (h : blanks.isBlank) (t : Text) :
    blanks.length ≤ Text.blankLength (blanks ++ t) := by
  rw [Text.blankLength, List.takeWhile_append_of_pos (List.all_eq_true.mp h), List.length_append]
  exact Nat.le_add_right _ _

/-- No blank comes after the blanks. -/
theorem blankLength_drop (t : Text) : Text.blankLength (t.drop (Text.blankLength t)) = 0 := by
  have hdrop : t.drop (Text.blankLength t) = t.dropWhile CodePoint.isBlank := by
    have hparts : List.drop (Text.blankLength t)
        (t.takeWhile CodePoint.isBlank ++ t.dropWhile CodePoint.isBlank) = _ := List.drop_left
    rwa [List.takeWhile_append_dropWhile] at hparts
  rw [hdrop]
  have hnil : Text.isBlank [] := rfl
  refine blankLength_append hnil fun c hc => ?_
  have hhead := List.head?_dropWhile_not CodePoint.isBlank t
  rw [Option.mem_def.mp hc] at hhead
  exact hhead

/-- What is expected comes after blanks. -/
theorem afterBlanks?_eq_some_iff (hexpected : ∃ c ∈ expected.head?, c.isBlank = false) :
    afterBlanks? expected t = some n ↔
      ∃ blanks rest, Text.isBlank blanks ∧ t = blanks ++ expected ++ rest ∧
        n = (blanks ++ expected).length := by
  rw [afterBlanks?]
  constructor
  · intro h
    split at h
    · next hstarts =>
      cases h
      obtain ⟨rest, hrest⟩ := startsWith_iff.mp hstarts
      refine ⟨t.take (Text.blankLength t), rest, isBlank_take (Nat.le_refl _), ?_, ?_⟩
      · rw [List.append_assoc, ← hrest, List.take_append_drop]
      · rw [List.length_append, length_take_blankLength (Nat.le_refl _)]
    · cases h
  · rintro ⟨blanks, rest, hblanks, rfl, rfl⟩
    obtain ⟨c, hc, hblank⟩ := hexpected
    have hhead : ∀ d ∈ (expected ++ rest).head?, d.isBlank = false := by
      intro d hd
      rw [List.head?_append, Option.mem_def.mp hc] at hd
      cases hd
      exact hblank
    rw [List.append_assoc, blankLength_append hblanks hhead, List.drop_left,
      if_pos (startsWith_iff.mpr ⟨rest, rfl⟩), List.length_append]

end

end MessageExtraction.Template
