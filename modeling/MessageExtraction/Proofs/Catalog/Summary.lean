import MessageExtraction.Proofs.Catalog.Listing
import MessageExtraction.Proofs.Catalog.SortedTexts
import Mathlib.Data.List.Induction

/-!
# What a catalog says about its candidates

An entry sums up the candidates of its key: all of their references, the first
plural form among them, and the comments of those that brought no conflict. A
catalog after any candidates, those with conflicts included, holds one such
entry for each key that occurs.

## Main definitions

* `callsFor` -- the candidates with a key.
* `firstPlural` -- the first plural form that candidates bring.
* `Conflicts` -- a candidate brings another plural form than those before it.
* `Entry.Summarizes` -- an entry says what candidates of one key say.
* `Catalog.after` -- the catalog after candidates.

## Main results

* `Entry.Summarizes.add` -- adding a candidate keeps the summary.
* `Catalog.find?_addAll` -- the entry of a key depends on the candidates with that key alone.
* `Catalog.after_summarizes` -- what is found in a catalog, and which candidates it refuses.
-/

namespace MessageExtraction

/-- The candidates with a key; those of blank text have none. -/
def callsFor (key : Text × Option Text) (calls : List Candidate) : List Candidate :=
  calls.filter fun x => !x.msgid.isEmpty && x.key = key

theorem mem_callsFor {key : Text × Option Text} {calls : List Candidate} {x : Candidate} :
    x ∈ callsFor key calls ↔ x ∈ calls ∧ x.msgid ≠ [] ∧ x.key = key := by
  simp [callsFor]

/-- The first plural form that candidates bring. -/
def firstPlural (calls : List Candidate) : Option Text :=
  calls.findSome? fun x => nonEmpty? x.plural

theorem firstPlural_append (before : List Candidate) (x : Candidate) :
    firstPlural (before ++ [x]) = (firstPlural before).or (nonEmpty? x.plural) := by
  rw [firstPlural, List.findSome?_append]
  simp [firstPlural]

/-- Whether a candidate brings another plural form than those before it. -/
def Conflicts (before : List Candidate) (x : Candidate) : Prop :=
  ∃ existing plural,
    firstPlural before = some existing ∧ nonEmpty? x.plural = some plural ∧ existing ≠ plural

namespace Entry

/-- An entry says what the candidates of its key say. References and comments are in ascending
order without repeats, and a comment counts if its candidate brings no conflict. -/
structure Summarizes (lineNumbers : Bool) (calls : List Candidate) (e : Entry) : Prop where
  references_ascending : e.references.Pairwise (· < ·)
  mem_references : ∀ t, t ∈ e.references ↔ ∃ x ∈ calls, x.reference.render lineNumbers = t
  plural : e.plural = firstPlural calls
  messageStrings : e.messageStrings = if e.plural.isSome then [[], []] else [[]]
  comments_ascending : e.comments.Pairwise (· < ·)
  mem_comments : ∀ t, t ∈ e.comments ↔
    ∃ before x, before ++ [x] <+: calls ∧ ¬ Conflicts before x ∧ nonEmpty? x.comment = some t

/-- An entry that no candidate has reached sums up none. -/
theorem summarizes_blank (lineNumbers : Bool) (key : Text × Option Text) :
    (blank key).Summarizes lineNumbers [] where
  references_ascending := List.Pairwise.nil
  mem_references _ := by simp [blank]
  plural := rfl
  messageStrings := rfl
  comments_ascending := List.Pairwise.nil
  mem_comments _ := by simp [blank]

variable {lineNumbers : Bool} {calls : List Candidate} {e : Entry} {x : Candidate}

theorem Summarizes.refuses_iff (h : e.Summarizes lineNumbers calls) :
    e.Refuses x ↔ Conflicts calls x := by
  rw [Refuses, Conflicts, h.plural]

private theorem mem_references_add {references : List Text}
    (h : ∀ t, t ∈ references ↔ ∃ x ∈ calls, x.reference.render lineNumbers = t) (t : Text) :
    t ∈ SortedTexts.add references (x.reference.render lineNumbers) ↔
      ∃ y ∈ calls ++ [x], y.reference.render lineNumbers = t := by
  rw [SortedTexts.mem_add, h]
  constructor
  · rintro (rfl | ⟨y, hy, ht⟩)
    · exact ⟨x, List.mem_append_right _ List.mem_cons_self, rfl⟩
    · exact ⟨y, List.mem_append_left _ hy, ht⟩
  · rintro ⟨y, hy, ht⟩
    rcases List.mem_append.mp hy with hy | hy
    · exact Or.inr ⟨y, hy, ht⟩
    · rw [List.mem_singleton.mp hy] at ht
      exact Or.inl ht.symm

/-- Of the comments that count after one more candidate, the others counted before. -/
private theorem counted_append {t : Text} :
    (∃ before y, before ++ [y] <+: calls ++ [x] ∧ ¬ Conflicts before y ∧
        nonEmpty? y.comment = some t) ↔
      (¬ Conflicts calls x ∧ nonEmpty? x.comment = some t) ∨
        ∃ before y, before ++ [y] <+: calls ∧ ¬ Conflicts before y ∧
          nonEmpty? y.comment = some t := by
  constructor
  · rintro ⟨before, y, hinit, h⟩
    rcases List.prefix_concat_iff.mp hinit with heq | hinit
    · obtain ⟨rfl, hy⟩ := List.append_inj' heq rfl
      obtain rfl := List.singleton_inj.mp hy
      exact Or.inl h
    · exact Or.inr ⟨before, y, hinit, h⟩
  · rintro (h | ⟨before, y, hinit, h⟩)
    · exact ⟨calls, x, List.prefix_refl _, h⟩
    · exact ⟨before, y, hinit.trans (List.prefix_append _ _), h⟩

/-- Adding a candidate to a summary of those before it sums up all of them. -/
theorem Summarizes.add (h : e.Summarizes lineNumbers calls) (x : Candidate) :
    (e.add lineNumbers x).1.Summarizes lineNumbers (calls ++ [x]) := by
  by_cases hx : e.Refuses x
  · have hconflict := h.refuses_iff.mp hx
    obtain ⟨existing, plural, he, hp, hne⟩ := hx
    rw [add_of_refuses he hp hne]
    refine ⟨SortedTexts.pairwise_add h.references_ascending, mem_references_add h.mem_references,
      ?_, h.messageStrings, h.comments_ascending, fun t => ?_⟩
    · rw [firstPlural_append, ← h.plural, he]
      exact he
    · rw [counted_append, ← h.mem_comments]
      exact ⟨Or.inr, fun ht => ht.elim (fun ht => absurd hconflict ht.1) id⟩
  · have hconflict := fun hc => hx (h.refuses_iff.mpr hc)
    rw [add_of_not_refuses hx]
    refine ⟨SortedTexts.pairwise_add h.references_ascending, mem_references_add h.mem_references,
      ?_, ?_, ?_, fun t => ?_⟩
    · rw [firstPlural_append, ← h.plural]
      rfl
    · cases hp : nonEmpty? x.plural <;> simp [accept, hp, h.messageStrings]
    · cases hc : nonEmpty? x.comment with
      | none => simpa [accept, hc] using h.comments_ascending
      | some comment => simpa [accept, hc] using SortedTexts.pairwise_add h.comments_ascending
    · rw [counted_append, ← h.mem_comments]
      cases hc : nonEmpty? x.comment with
      | none => simp [accept, hc]
      | some comment =>
        have hcomments : (e.accept lineNumbers x).comments = SortedTexts.add e.comments comment := by
          simp [accept, hc]
        rw [hcomments, SortedTexts.mem_add, Option.some_inj, and_iff_right hconflict,
          eq_comm (a := t)]

/-- An entry after several candidates. -/
def addAll (e : Entry) (lineNumbers : Bool) (calls : List Candidate) : Entry :=
  calls.foldl (fun e x => (e.add lineNumbers x).1) e

@[simp] theorem key_addAll (e : Entry) (lineNumbers : Bool) (calls : List Candidate) :
    (e.addAll lineNumbers calls).key = e.key := by
  induction calls generalizing e with
  | nil => rfl
  | cons x calls ih => exact (ih _).trans (key_add e lineNumbers x)

/-- An entry that only candidates of its key have reached sums up these. -/
theorem summarizes_addAll (lineNumbers : Bool) (key : Text × Option Text)
    (calls : List Candidate) :
    ((blank key).addAll lineNumbers calls).Summarizes lineNumbers calls := by
  induction calls using List.reverseRecOn with
  | nil => exact summarizes_blank lineNumbers key
  | append_singleton calls x ih =>
    rw [addAll, List.foldl_append]
    exact ih.add x

end Entry

namespace Catalog

/-- The entry of a key depends on the candidates with that key alone. -/
theorem find?_addAll (c : Catalog) (calls : List Candidate) (key : Text × Option Text) :
    (c.addAll calls).find? key =
      if callsFor key calls = [] then c.find? key
      else some (((c.find? key).getD (Entry.blank key)).addAll c.lineNumbers
        (callsFor key calls)) := by
  induction calls generalizing c with
  | nil => rfl
  | cons x calls ih =>
    rw [show c.addAll (x :: calls) = (c.add x).1.addAll calls from rfl, ih, lineNumbers_add]
    by_cases hx : x.msgid ≠ [] ∧ x.key = key
    · have hcalls : callsFor key (x :: calls) = x :: callsFor key calls := by
        simp [callsFor, hx]
      rw [hcalls, if_neg (List.cons_ne_nil _ _), find?_add c hx.1, if_pos hx.2]
      split
      · next hnil => rw [hnil]; rfl
      · rfl
    · have hcalls : callsFor key (x :: calls) = callsFor key calls := by
        simp only [callsFor, List.filter_cons]
        rw [if_neg (by simpa using hx)]
      have hfind : (c.add x).1.find? key = c.find? key := by
        by_cases hblank : x.msgid = []
        · rw [add_of_blank hblank]
        · rw [find?_add c hblank, if_neg fun h => hx ⟨hblank, h⟩]
      rw [hcalls, hfind]

/-- The catalog after candidates, those that bring a conflict included. -/
def after (lineNumbers : Bool) (calls : List Candidate) : Catalog :=
  addAll { lineNumbers := lineNumbers } calls

variable (lineNumbers : Bool) (calls : List Candidate)

theorem after_append (x : Candidate) :
    after lineNumbers (calls ++ [x]) = ((after lineNumbers calls).add x).1 :=
  addAll_append _ calls [x]

theorem wellFormed_after : (after lineNumbers calls).WellFormed :=
  (wellFormed_empty lineNumbers).addAll calls

/-- An entry is found for the keys of candidates, and it sums up the candidates of its key. -/
theorem find?_after_eq_some_iff {key : Text × Option Text} {e : Entry} :
    (after lineNumbers calls).find? key = some e ↔
      callsFor key calls ≠ [] ∧
        (Entry.blank key).addAll lineNumbers (callsFor key calls) = e := by
  rw [after, find?_addAll]
  split
  · next hnil => exact ⟨fun h => absurd h (Option.some_ne_none _).symm, fun h => absurd hnil h.1⟩
  · next hne => exact ⟨fun h => ⟨hne, Option.some.inj h⟩, fun h => congrArg some h.2⟩

/-- The entry of a key, or a blank one, is what the candidates of the key make of a blank one. -/
theorem getD_find?_after (key : Text × Option Text) :
    ((after lineNumbers calls).find? key).getD (Entry.blank key) =
      (Entry.blank key).addAll lineNumbers (callsFor key calls) := by
  rw [after, find?_addAll]
  split
  · next hnil => rw [hnil]; rfl
  · rfl

/-- One more candidate brings a conflict just if its plural form differs from the first one of its
key. The references that the conflict names include that of the candidate. -/
theorem add_after_eq_some_iff {x : Candidate} {conflict : PluralConflict} :
    ((after lineNumbers calls).add x).2 = some conflict ↔
      x.msgid ≠ [] ∧ ∃ existing plural e, firstPlural (callsFor x.key calls) = some existing ∧
        nonEmpty? x.plural = some plural ∧ existing ≠ plural ∧
        (after lineNumbers (calls ++ [x])).find? x.key = some e ∧
        conflict = ⟨x.msgid, existing, plural, e.references⟩ := by
  by_cases hx : x.msgid = []
  · simp [add_of_blank hx, hx]
  obtain ⟨e, he⟩ : ∃ e, ((after lineNumbers calls).find? x.key).getD (Entry.blank x.key) = e :=
    ⟨_, rfl⟩
  have hlines : (after lineNumbers calls).lineNumbers = lineNumbers := lineNumbers_addAll _ _
  have hsum : e.Summarizes lineNumbers (callsFor x.key calls) := by
    rw [← he, getD_find?_after]
    exact Entry.summarizes_addAll _ _ _
  have hmsgid : e.msgid = x.msgid := by
    rw [← he, getD_find?_after]
    exact congrArg Prod.fst (Entry.key_addAll _ _ _)
  have hfind : (after lineNumbers (calls ++ [x])).find? x.key = some (e.add lineNumbers x).1 := by
    rw [after_append, find?_add _ hx, if_pos rfl, he, hlines]
  rw [add_of_not_blank hx, he, hlines, hfind, ← hsum.plural]
  constructor
  · intro h
    have hrefuses : e.Refuses x :=
      Classical.byContradiction fun hr => by simp [Entry.add_of_not_refuses hr] at h
    obtain ⟨existing, plural, hex, hp, hne⟩ := hrefuses
    refine ⟨hx, existing, plural, _, hex, hp, hne, rfl, ?_⟩
    rw [Entry.add_of_refuses hex hp hne] at h ⊢
    rw [← hmsgid]
    exact (Option.some.inj h).symm
  · rintro ⟨-, existing, plural, added, hex, hp, hne, hadded, rfl⟩
    rw [← Option.some.inj hadded, Entry.add_of_refuses hex hp hne, hmsgid]
    rfl

/-- After any candidates, those with conflicts included, an entry is found for a message and a
context just if some candidate had them, and it sums up these candidates. The listing holds these
entries. One more candidate brings a conflict just if its plural form is not the first one of its
key, and the conflict names both and the references of the entry with that of the candidate. -/
theorem after_summarizes :
    (∀ msgid context,
      (∃ e, (after lineNumbers calls).get? msgid context = some e) ↔
        ∃ x ∈ calls, x.msgid ≠ [] ∧ x.key = (msgid, nonEmpty? context)) ∧
    (∀ msgid context e, (after lineNumbers calls).get? msgid context = some e →
      e.msgid = msgid ∧ e.context = nonEmpty? context ∧
        e.Summarizes lineNumbers (callsFor (msgid, nonEmpty? context) calls)) ∧
    (∀ e, e ∈ (after lineNumbers calls).entries ↔
      (after lineNumbers calls).get? e.msgid e.context = some e) ∧
    ∀ x conflict, ((after lineNumbers calls).add x).2 = some conflict ↔
      x.msgid ≠ [] ∧ ∃ existing plural e, firstPlural (callsFor x.key calls) = some existing ∧
        nonEmpty? x.plural = some plural ∧ existing ≠ plural ∧
        (after lineNumbers (calls ++ [x])).get? x.msgid x.context = some e ∧
        conflict = ⟨x.msgid, existing, plural, e.references⟩ := by
  have hwf := wellFormed_after lineNumbers calls
  have hexists : ∀ key, (∃ e, (after lineNumbers calls).find? key = some e) ↔
      ∃ x ∈ calls, x.msgid ≠ [] ∧ x.key = key := by
    intro key
    simp only [find?_after_eq_some_iff, exists_and_left, exists_eq', and_true, ← mem_callsFor]
    refine ⟨List.exists_mem_of_ne_nil _, fun ⟨x, hx⟩ hnil => ?_⟩
    exact absurd (hnil ▸ hx) List.not_mem_nil
  refine ⟨fun msgid context => hexists _, fun msgid context e he => ?_, fun e => ?_,
    fun x conflict => add_after_eq_some_iff lineNumbers calls⟩
  · have hkey := hwf.key_of_find? he
    rw [get?, find?_after_eq_some_iff] at he
    refine ⟨congrArg Prod.fst hkey, congrArg Prod.snd hkey, ?_⟩
    rw [← he.2]
    exact Entry.summarizes_addAll _ _ _
  · rw [hwf.mem_entries]
    constructor
    · intro he
      obtain ⟨x, -, -, hx⟩ := (hexists _).mp ⟨e, he⟩
      have hcontext : nonEmpty? e.context = e.context := by
        rw [show e.context = nonEmpty? x.context from (congrArg Prod.snd hx).symm,
          nonEmpty?_nonEmpty?]
      rw [get?, hcontext]
      exact he
    · intro he
      rw [hwf.key_of_find? he]
      exact he

end Catalog

end MessageExtraction
