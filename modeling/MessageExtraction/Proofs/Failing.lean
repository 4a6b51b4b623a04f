import Mathlib.Data.List.Basic

/-!
# Computations that can fail

## Main definitions

* `Fails` -- a computation has no value.

## Main results

* `fails_bind_iff`, `fails_mapM_iff` -- when computations one after the other fail.
* `bind_eq_ok_iff`, `mapM_eq_ok_cons_iff` -- which value they have.
-/

namespace MessageExtraction

variable {ε α β : Type}

/-- A computation has no value. -/
def Fails (x : Except ε α) : Prop :=
  ∃ e, x = .error e

@[simp] theorem not_fails_ok (a : α) : ¬ Fails (.ok a : Except ε α) := by
  rintro ⟨e, h⟩
  cases h

@[simp] theorem not_fails_pure (a : α) : ¬ Fails (pure a : Except ε α) :=
  not_fails_ok a

@[simp] theorem fails_error (e : ε) : Fails (.error e : Except ε α) :=
  ⟨e, rfl⟩

theorem fails_map_iff {x : Except ε α} {f : α → β} : Fails (x.map f) ↔ Fails x := by
  cases x with
  | error e => exact iff_of_true (fails_error e) (fails_error e)
  | ok a => exact iff_of_false (not_fails_ok _) (not_fails_ok a)

theorem fails_bind_iff {x : Except ε α} {f : α → Except ε β} :
    Fails (x >>= f) ↔ Fails x ∨ ∃ a, x = .ok a ∧ Fails (f a) := by
  cases x with
  | error e => exact iff_of_true (fails_error e) (.inl (fails_error e))
  | ok a =>
    refine ⟨fun h => .inr ⟨a, rfl, h⟩, fun h => ?_⟩
    rcases h with h | ⟨b, hb, h⟩
    · exact absurd h (not_fails_ok a)
    · cases hb
      exact h

/-- A computation that goes on in the same way after any value fails where a part of it fails. -/
theorem fails_bind_iff_or {x : Except ε α} {f : α → Except ε β} {p : Prop}
    (h : ∀ a, Fails (f a) ↔ p) : Fails (x >>= f) ↔ Fails x ∨ p := by
  rw [fails_bind_iff]
  cases x with
  | error e => exact iff_of_true (.inl (fails_error e)) (.inl (fails_error e))
  | ok a =>
    refine or_congr_right ⟨fun ⟨b, _, hb⟩ => (h b).mp hb, fun hp => ⟨a, rfl, (h a).mpr hp⟩⟩

theorem fails_mapM_iff {f : α → Except ε β} {l : List α} :
    Fails (l.mapM f) ↔ ∃ a ∈ l, Fails (f a) := by
  induction l with
  | nil => exact iff_of_false (not_fails_ok _) fun ⟨a, ha, _⟩ => List.not_mem_nil ha
  | cons a l ih =>
    rw [List.mapM_cons, List.exists_mem_cons_iff, ← ih]
    refine fails_bind_iff_or fun b => ?_
    rw [fails_bind_iff_or fun bs => iff_of_false (not_fails_pure (b :: bs)) not_false, or_false]

/-- A computation that does not fail has a value. -/
theorem exists_eq_ok_of_not_fails {x : Except ε α} (h : ¬ Fails x) : ∃ a, x = .ok a :=
  match x, h with
  | .ok a, _ => ⟨a, rfl⟩
  | .error e, h => absurd (fails_error e) h

theorem bind_eq_ok_iff {x : Except ε α} {f : α → Except ε β} {b : β} :
    (x >>= f) = .ok b ↔ ∃ a, x = .ok a ∧ f a = .ok b := by
  cases x with
  | error e => exact iff_of_false nofun fun ⟨_, h, _⟩ => nomatch h
  | ok a => exact ⟨fun h => ⟨a, rfl, h⟩, fun ⟨_, ha, h⟩ => by cases ha; exact h⟩

theorem pure_eq_ok_iff {a b : α} : (pure a : Except ε α) = .ok b ↔ a = b :=
  ⟨Except.ok.inj, congrArg Except.ok⟩

theorem mapM_eq_ok_nil_iff {f : α → Except ε β} {l : List α} : l.mapM f = .ok [] ↔ l = [] := by
  cases l with
  | nil => exact iff_of_true rfl rfl
  | cons a l =>
    simp only [List.mapM_cons, bind_eq_ok_iff, pure_eq_ok_iff, reduceCtorEq, and_false,
      exists_false]

theorem mapM_eq_ok_cons_iff {f : α → Except ε β} {l : List α} {b : β} {bs : List β} :
    l.mapM f = .ok (b :: bs) ↔ ∃ a as, l = a :: as ∧ f a = .ok b ∧ as.mapM f = .ok bs := by
  cases l with
  | nil => simp [pure_eq_ok_iff]
  | cons a l =>
    simp only [List.mapM_cons, bind_eq_ok_iff, pure_eq_ok_iff, List.cons.injEq]
    constructor
    · rintro ⟨_, ha, _, hl, rfl, rfl⟩
      exact ⟨a, l, ⟨rfl, rfl⟩, ha, hl⟩
    · rintro ⟨_, _, ⟨rfl, rfl⟩, ha, hl⟩
      exact ⟨b, ha, bs, hl, rfl, rfl⟩

end MessageExtraction
