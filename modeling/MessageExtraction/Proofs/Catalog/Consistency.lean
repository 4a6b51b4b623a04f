import MessageExtraction.Proofs.Catalog.Summary

/-!
# Candidates without conflicts

Candidates are consistent if those of one key bring at most one plural form.
Consistency does not look at the order of the candidates, and it is what makes a
catalog accept all of them one after another. The entries of consistent
candidates then do not depend on their order either, nor on how often each of
them comes.

## Main definitions

* `Consistent` -- candidates of one key bring at most one plural form.
* `Catalog.Accepts` -- no candidate brings a conflict when they are added in turn.

## Main results

* `Catalog.accepts_iff_consistent` -- an empty catalog accepts just the consistent candidates.
* `Catalog.find?_after_congr` -- the same consistent candidates lead to the same entries.
-/

namespace MessageExtraction

/-- Candidates of one key bring at most one plural form. -/
def Consistent (calls : List Candidate) : Prop :=
  ∀ x ∈ calls, ∀ y ∈ calls, x.msgid ≠ [] → x.key = y.key → ∀ p q,
    nonEmpty? x.plural = some p → nonEmpty? y.plural = some q → p = q

variable {calls others : List Candidate}

theorem Consistent.subset (h : Consistent calls) (hsub : ∀ x ∈ others, x ∈ calls) :
    Consistent others :=
  fun x hx y hy => h x (hsub x hx) y (hsub y hy)

theorem exists_of_firstPlural {p : Text} (h : firstPlural calls = some p) :
    ∃ x ∈ calls, nonEmpty? x.plural = some p :=
  List.exists_of_findSome?_eq_some h

/-- Of consistent candidates of one key, the first plural form is that of any of them. -/
theorem Consistent.firstPlural_eq_some_iff (h : Consistent calls) {key : Text × Option Text}
    {p : Text} :
    firstPlural (callsFor key calls) = some p ↔
      ∃ x ∈ callsFor key calls, nonEmpty? x.plural = some p := by
  refine ⟨exists_of_firstPlural, fun ⟨x, hx, hp⟩ => ?_⟩
  cases hfirst : firstPlural (callsFor key calls) with
  | none =>
    rw [firstPlural, List.findSome?_eq_none_iff] at hfirst
    rw [hfirst x hx] at hp
    exact absurd hp (Option.some_ne_none p).symm
  | some q =>
    obtain ⟨y, hy, hq⟩ := exists_of_firstPlural hfirst
    obtain ⟨hx, hblank, hxkey⟩ := mem_callsFor.mp hx
    obtain ⟨hy, -, hykey⟩ := mem_callsFor.mp hy
    rw [h x hx y hy hblank (hxkey.trans hykey.symm) p q hp hq]

/-- None of several consistent candidates of one key conflicts with those before it. -/
theorem Consistent.not_conflicts (h : Consistent calls) {key : Text × Option Text}
    {before : List Candidate} {x : Candidate} (hinit : before ++ [x] <+: callsFor key calls) :
    ¬ Conflicts before x := by
  rintro ⟨existing, plural, hex, hp, hne⟩
  obtain ⟨y, hy, hq⟩ := exists_of_firstPlural hex
  have hmem : ∀ z ∈ before ++ [x], z ∈ calls ∧ z.msgid ≠ [] ∧ z.key = key := fun z hz =>
    mem_callsFor.mp (hinit.subset hz)
  obtain ⟨hx, -, hxkey⟩ := hmem x (List.mem_append_right _ List.mem_cons_self)
  obtain ⟨hy, hblank, hykey⟩ := hmem y (List.mem_append_left _ hy)
  exact hne (h y hy x hx hblank (hykey.trans hxkey.symm) existing plural hq hp)

/-- With one more candidate, consistency fails just if the candidate conflicts with those of its
key. -/
theorem consistent_append_iff {x : Candidate} :
    Consistent (calls ++ [x]) ↔
      Consistent calls ∧ (x.msgid ≠ [] → ¬ Conflicts (callsFor x.key calls) x) := by
  constructor
  · intro h
    refine ⟨h.subset fun y hy => List.mem_append_left _ hy, fun hblank => ?_⟩
    have hcalls : callsFor x.key (calls ++ [x]) = callsFor x.key calls ++ [x] := by
      simp [callsFor, hblank]
    exact h.not_conflicts ⟨[], by rw [hcalls, List.append_nil]⟩
  · rintro ⟨h, hx⟩
    have hagree : ∀ y ∈ calls, x.msgid ≠ [] → y.key = x.key → ∀ p q,
        nonEmpty? y.plural = some p → nonEmpty? x.plural = some q → p = q := by
      intro y hy hblank hkey p q hp hq
      refine Classical.byContradiction fun hne => hx hblank ⟨p, q, ?_, hq, hne⟩
      have hyblank : y.msgid ≠ [] := (congrArg Prod.fst hkey).trans_ne hblank
      exact h.firstPlural_eq_some_iff.mpr ⟨y, mem_callsFor.mpr ⟨hy, hyblank, hkey⟩, hp⟩
    intro y hy z hz hblank hkey p q hp hq
    rw [List.mem_append, List.mem_singleton] at hy hz
    rcases hy with hy | rfl <;> rcases hz with hz | rfl
    · exact h y hy z hz hblank hkey p q hp hq
    · exact hagree y hy ((congrArg Prod.fst hkey).symm.trans_ne hblank) hkey p q hp hq
    · exact (hagree z hz hblank hkey.symm q p hq hp).symm
    · exact Option.some.inj (hp.symm.trans hq)

/-- The comments of consistent candidates of one key all count. -/
theorem Entry.Summarizes.mem_comments_iff {e : Entry} {lineNumbers : Bool}
    {key : Text × Option Text} (he : e.Summarizes lineNumbers (callsFor key calls))
    (h : Consistent calls) {t : Text} :
    t ∈ e.comments ↔ ∃ x ∈ callsFor key calls, nonEmpty? x.comment = some t := by
  rw [he.mem_comments]
  constructor
  · rintro ⟨before, x, hinit, -, ht⟩
    exact ⟨x, hinit.subset (List.mem_append_right _ List.mem_cons_self), ht⟩
  · rintro ⟨x, hx, ht⟩
    obtain ⟨before, rest, hsplit⟩ := List.append_of_mem hx
    have hinit : before ++ [x] <+: callsFor key calls := ⟨rest, by simp [hsplit]⟩
    exact ⟨before, x, hinit, h.not_conflicts hinit, ht⟩

/-- Entries that sum up the same consistent candidates of one key are the same. -/
theorem Entry.Summarizes.eq_of_consistent {d e : Entry} {lineNumbers : Bool}
    {key : Text × Option Text} (hd : d.Summarizes lineNumbers (callsFor key others))
    (he : e.Summarizes lineNumbers (callsFor key calls)) (hkey : d.key = e.key)
    (hothers : Consistent others) (h : Consistent calls)
    (hmem : ∀ x, x ∈ callsFor key others ↔ x ∈ callsFor key calls) : d = e := by
  have hreferences : d.references = e.references :=
    hd.references_ascending.eq_of_mem_iff he.references_ascending fun t => by
      simp only [hd.mem_references, he.mem_references, hmem]
  have hplural : d.plural = e.plural := by
    rw [hd.plural, he.plural]
    ext p
    simp only [hothers.firstPlural_eq_some_iff, h.firstPlural_eq_some_iff, hmem]
  have hcomments : d.comments = e.comments :=
    hd.comments_ascending.eq_of_mem_iff he.comments_ascending fun t => by
      simp only [hd.mem_comments_iff hothers, he.mem_comments_iff h, hmem]
  have hstrings : d.messageStrings = e.messageStrings := by
    rw [hd.messageStrings, he.messageStrings, hplural]
  exact Entry.ext (congrArg Prod.fst hkey) (congrArg Prod.snd hkey) hplural hreferences hcomments
    hstrings

namespace Catalog

/-- No candidate brings a conflict when they are added in turn. -/
def Accepts (c : Catalog) : List Candidate → Prop
  | [] => True
  | x :: calls => (c.add x).2 = none ∧ (c.add x).1.Accepts calls

theorem accepts_append {c : Catalog} {before after : List Candidate} :
    c.Accepts (before ++ after) ↔ c.Accepts before ∧ (c.addAll before).Accepts after := by
  induction before generalizing c with
  | nil => exact (and_iff_right trivial).symm
  | cons x before ih => exact (and_congr_right fun _ => ih).trans and_assoc.symm

variable (lineNumbers : Bool)

/-- A catalog after candidates takes another one without a conflict just if it does not conflict
with those of its key. -/
theorem add_after_eq_none_iff {x : Candidate} :
    ((after lineNumbers calls).add x).2 = none ↔
      (x.msgid ≠ [] → ¬ Conflicts (callsFor x.key calls) x) := by
  rw [← not_iff_not, ← ne_eq, Option.ne_none_iff_exists']
  simp only [add_after_eq_some_iff, Classical.not_imp, Classical.not_not]
  constructor
  · rintro ⟨conflict, hblank, existing, plural, -, hex, hp, hne, -⟩
    exact ⟨hblank, existing, plural, hex, hp, hne⟩
  · rintro ⟨hblank, existing, plural, hex, hp, hne⟩
    obtain ⟨e, he⟩ : ∃ e, (after lineNumbers (calls ++ [x])).find? x.key = some e :=
      ⟨_, by rw [after_append, find?_add _ hblank, if_pos rfl]⟩
    exact ⟨_, hblank, existing, plural, e, hex, hp, hne, he, rfl⟩

/-- An empty catalog accepts candidates one after another just if they are consistent. -/
theorem accepts_iff_consistent : (after lineNumbers []).Accepts calls ↔ Consistent calls := by
  induction calls using List.reverseRecOn with
  | nil => exact iff_of_true trivial fun _ hx => absurd hx List.not_mem_nil
  | append_singleton calls x ih =>
    have hlast : (after lineNumbers calls).Accepts [x] ↔
        ((after lineNumbers calls).add x).2 = none := and_iff_left trivial
    rw [accepts_append, ih, consistent_append_iff, ← add_after_eq_none_iff lineNumbers, ← hlast]
    rfl

/-- The entry of a key depends on which consistent candidates there are, not on their order or
number. -/
theorem find?_after_congr (h : Consistent calls) (hmem : ∀ x, x ∈ others ↔ x ∈ calls)
    (key : Text × Option Text) :
    (after lineNumbers others).find? key = (after lineNumbers calls).find? key := by
  have hothers : Consistent others := h.subset fun x hx => (hmem x).mp hx
  have hown : ∀ x, x ∈ callsFor key others ↔ x ∈ callsFor key calls := fun x => by
    rw [mem_callsFor, mem_callsFor, hmem]
  have hnil : callsFor key others = [] ↔ callsFor key calls = [] := by
    simp only [List.eq_nil_iff_forall_not_mem, hown]
  ext e
  rw [find?_after_eq_some_iff, find?_after_eq_some_iff, ne_eq, ne_eq, hnil,
    (Entry.summarizes_addAll _ key _).eq_of_consistent (Entry.summarizes_addAll _ key _)
      (by rw [Entry.key_addAll, Entry.key_addAll]) hothers h hown]

end Catalog

end MessageExtraction
