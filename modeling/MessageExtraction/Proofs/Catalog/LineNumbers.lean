import MessageExtraction.Proofs.Catalog.Summary
import Mathlib.Data.List.Forall2

/-!
# References aside

The reference of a candidate decides nothing but the references of entries. So
two catalogs that agree but for their references stay so, and refuse the same
candidates, when each of them takes candidates that agree but for theirs. A
catalog that shows no lines thus goes in step with one that shows them, although
many references of the one may be a single reference of the other, and although
the names of files are ordered otherwise than names with lines.

## Main definitions

* `Candidate.Alike`, `Entry.Alike`, `Catalog.Alike` -- agreement but for references.
* `Catalog.reports` -- what each of several candidates reports.
* `Entry.NamesFiles` -- an entry names the files of the candidates of another one.

## Main results

* `Catalog.Alike.add`, `Catalog.Alike.addAll` -- catalogs stay alike and report alike.
* `Catalog.forall₂_entries` -- the listings of catalogs with the same keys go in step.
* `Catalog.forall₂_after_withoutLines` -- a catalog with lines and one without.
-/

namespace MessageExtraction

/-- Candidates that agree but for their references. -/
def Candidate.Alike (x y : Candidate) : Prop :=
  ∃ reference, y = { x with reference := reference }

/-- Entries that agree but for their references. -/
def Entry.Alike (d e : Entry) : Prop :=
  ∃ references, e = { d with references := references }

/-- Conflicts that agree but for the references that they name. -/
def PluralConflict.Alike (p q : PluralConflict) : Prop :=
  ∃ references, q = { p with references := references }

theorem Candidate.Alike.refl (x : Candidate) : x.Alike x :=
  ⟨x.reference, rfl⟩

theorem exists_of_rel_some {α β : Type} {r : α → β → Prop} {a : α} {o : Option β}
    (h : Option.Rel r (some a) o) : ∃ b, o = some b ∧ r a b := by
  cases h with
  | some hr => exact ⟨_, rfl, hr⟩

theorem exists_of_rel_some_right {α β : Type} {r : α → β → Prop} {o : Option α} {b : β}
    (h : Option.Rel r o (some b)) : ∃ a, o = some a ∧ r a b := by
  cases h with
  | some hr => exact ⟨_, rfl, hr⟩

/-- What stands on both sides may be related more closely. -/
theorem rel_of_forall_some {α β : Type} {r r' : α → β → Prop} {o : Option α} {o' : Option β}
    (h : Option.Rel r o o') (himp : ∀ a b, o = some a → o' = some b → r a b → r' a b) :
    Option.Rel r' o o' := by
  cases h with
  | some hr => exact .some (himp _ _ rfl rfl hr)
  | none => exact .none

/-- Entries stay alike and report alike, whether or not their references show lines. -/
theorem Entry.Alike.add {d e : Entry} (h : d.Alike e) {x y : Candidate} (hx : x.Alike y)
    (lines lines' : Bool) :
    (d.add lines x).1.Alike (e.add lines' y).1 ∧
      Option.Rel PluralConflict.Alike (d.add lines x).2 (e.add lines' y).2 := by
  obtain ⟨references, rfl⟩ := h
  obtain ⟨reference, rfl⟩ := hx
  by_cases hrefuses : d.Refuses x
  · obtain ⟨existing, plural, he, hp, hne⟩ := hrefuses
    have he' : Entry.plural { d with references := references } = some existing := he
    have hp' : nonEmpty? (Candidate.plural { x with reference := reference }) = some plural := hp
    rw [add_of_refuses he hp hne, add_of_refuses he' hp' hne]
    exact ⟨⟨_, rfl⟩, .some ⟨_, rfl⟩⟩
  · have hrefuses' : ¬ Entry.Refuses { d with references := references }
        { x with reference := reference } := hrefuses
    rw [add_of_not_refuses hrefuses, add_of_not_refuses hrefuses']
    exact ⟨⟨_, rfl⟩, .none⟩

namespace Catalog

/-- Catalogs that agree but for their references. -/
def Alike (c d : Catalog) : Prop :=
  ∀ key, Option.Rel Entry.Alike (c.find? key) (d.find? key)

/-- What each of several candidates reports when they are added in turn. -/
def reports (c : Catalog) : List Candidate → List (Option PluralConflict)
  | [] => []
  | x :: calls => (c.add x).2 :: (c.add x).1.reports calls

section

variable {c d : Catalog} {x y : Candidate} {calls others : List Candidate}

/-- Catalogs without entries are alike. -/
theorem alike_empty (lines lines' : Bool) :
    Alike { lineNumbers := lines } { lineNumbers := lines' } :=
  fun _ => .none

theorem Alike.alike_getD (h : c.Alike d) (key : Text × Option Text) :
    ((c.find? key).getD (Entry.blank key)).Alike ((d.find? key).getD (Entry.blank key)) := by
  have hkey := h key
  generalize c.find? key = found at hkey
  generalize d.find? key = found' at hkey
  cases hkey with
  | some halike => exact halike
  | none => exact ⟨_, rfl⟩

/-- Catalogs that are alike stay alike and report alike. -/
theorem Alike.add (h : c.Alike d) (hx : x.Alike y) :
    (c.add x).1.Alike (d.add y).1 ∧ Option.Rel PluralConflict.Alike (c.add x).2 (d.add y).2 := by
  have hkey : y.key = x.key := by
    obtain ⟨reference, rfl⟩ := hx
    rfl
  by_cases hblank : x.msgid = []
  · have hblank' : y.msgid = [] := (congrArg Prod.fst hkey).trans hblank
    rw [add_of_blank hblank, add_of_blank hblank']
    exact ⟨h, .none⟩
  · have hblank' : y.msgid ≠ [] := (congrArg Prod.fst hkey).trans_ne hblank
    have hentry := fun key => (h.alike_getD key).add hx c.lineNumbers d.lineNumbers
    refine ⟨fun key => ?_, ?_⟩
    · rw [find?_add c hblank, find?_add d hblank', hkey]
      by_cases hsame : x.key = key
      · rw [if_pos hsame, if_pos hsame]
        exact .some (hentry key).1
      · rw [if_neg hsame, if_neg hsame]
        exact h key
    · rw [add_of_not_blank hblank, add_of_not_blank hblank', hkey]
      exact (hentry x.key).2

/-- Catalogs that are alike stay alike over a run of candidates, and report alike all the way. -/
theorem Alike.addAll (h : c.Alike d) (hcalls : List.Forall₂ Candidate.Alike calls others) :
    (c.addAll calls).Alike (d.addAll others) ∧
      List.Forall₂ (Option.Rel PluralConflict.Alike) (c.reports calls) (d.reports others) := by
  induction hcalls generalizing c d with
  | nil => exact ⟨h, .nil⟩
  | cons hx _ ih =>
    obtain ⟨hadd, hreport⟩ := h.add hx
    obtain ⟨hall, hreports⟩ := ih hadd
    exact ⟨hall, .cons hreport hreports⟩

/-- Where related entries stand under each key, the listings go in step: the order of a listing is
that of the keys. -/
theorem forall₂_entries {r : Entry → Entry → Prop} (hc : c.WellFormed) (hd : d.WellFormed)
    (h : ∀ key, Option.Rel r (c.find? key) (d.find? key)) :
    List.Forall₂ r c.entries d.entries := by
  let counterpart (e : Entry) : Entry := (d.find? e.key).getD e
  have hfound : ∀ e ∈ c.entries, ∃ e', d.find? e.key = some e' ∧ counterpart e = e' ∧ r e e' := by
    intro e he
    have hkey := h e.key
    rw [hc.mem_entries.mp he] at hkey
    obtain ⟨e', he', hr⟩ := exists_of_rel_some hkey
    exact ⟨e', he', by simp [counterpart, he'], hr⟩
  have hkeys : ∀ e ∈ c.entries, (counterpart e).key = e.key := by
    intro e he
    obtain ⟨e', he', heq, -⟩ := hfound e he
    rw [heq, hd.key_of_find? he']
  -- Both listings are in the order of the keys, so they match if their members do.
  have hentries : d.entries = c.entries.map counterpart := by
    refine hd.pairwise_entries.eq_of_mem_iff ?_ fun e' => ?_
    · refine List.pairwise_map.mpr (hc.pairwise_entries.imp_of_mem fun {a b} ha hb hab => ?_)
      obtain ⟨hamsgid, hacontext⟩ := Prod.mk.inj (hkeys a ha)
      obtain ⟨hbmsgid, hbcontext⟩ := Prod.mk.inj (hkeys b hb)
      rw [ListedBefore, hamsgid, hacontext, hbmsgid, hbcontext]
      exact hab
    · rw [hd.mem_entries, List.mem_map]
      constructor
      · intro he'
        obtain ⟨e, he, -⟩ := exists_of_rel_some_right (he' ▸ h e'.key)
        have hsame := hc.key_of_find? he
        refine ⟨e, hc.mem_entries.mpr (hsame ▸ he), ?_⟩
        simp [counterpart, hsame, he']
      · rintro ⟨e, he, rfl⟩
        obtain ⟨e', he', heq, -⟩ := hfound e he
        rw [hkeys e he, he', heq]
  rw [hentries, List.forall₂_map_right_iff, List.forall₂_same]
  intro e he
  obtain ⟨e', -, heq, hr⟩ := hfound e he
  rwa [heq]

end

end Catalog

/-! ### Catalogs with lines and without -/

/-- Without lines a reference is shown as its file. -/
theorem Reference.render_false (r : Reference) : r.render false = r.file := by
  rw [render]
  split <;> rfl

/-- An entry says what another one says, but where the other one refers to files and lines, it
refers to the files: in ascending order, and to each of them once. -/
structure Entry.NamesFiles (calls : List Candidate) (d e : Entry) : Prop where
  alike : d.Alike e
  mem_references : ∀ t, t ∈ d.references ↔
    ∃ x ∈ callsFor d.key calls, x.reference.render true = t
  files_ascending : e.references.Pairwise (· < ·)
  mem_files : ∀ file, file ∈ e.references ↔ ∃ x ∈ callsFor d.key calls, x.reference.file = file

namespace Catalog

variable (calls : List Candidate)

/-- An entry that is found sums up the candidates of its key. -/
theorem summarizes_of_find?_after {lines : Bool} {key : Text × Option Text} {e : Entry}
    (he : (after lines calls).find? key = some e) :
    e.key = key ∧ e.Summarizes lines (callsFor key calls) := by
  obtain ⟨-, rfl⟩ := (find?_after_eq_some_iff lines calls).mp he
  exact ⟨Entry.key_addAll _ _ _, Entry.summarizes_addAll _ _ _⟩

/-- **Lines only decorate references.** A catalog that shows lines and one that does not refuse the
same of any candidates, for the same plural forms. Their listings go in step afterwards: the entries
agree but for their references, and where those of the one show lines, those of the other are the
files alone. -/
theorem forall₂_after_withoutLines :
    List.Forall₂ (Option.Rel PluralConflict.Alike)
      ((after true []).reports calls) ((after false []).reports calls) ∧
    List.Forall₂ (Entry.NamesFiles calls) (after true calls).entries
      (after false calls).entries := by
  have hsame : List.Forall₂ Candidate.Alike calls calls :=
    List.forall₂_same.mpr fun x _ => Candidate.Alike.refl x
  obtain ⟨halike, hreports⟩ := (alike_empty true false).addAll hsame
  refine ⟨hreports, ?_⟩
  refine forall₂_entries (wellFormed_after _ _) (wellFormed_after _ _) fun key => ?_
  refine rel_of_forall_some (halike key) fun d e hd he hde => ?_
  obtain ⟨rfl, hlines⟩ := summarizes_of_find?_after calls hd
  obtain ⟨-, hfiles⟩ := summarizes_of_find?_after calls he
  refine ⟨hde, hlines.mem_references, hfiles.references_ascending, fun file => ?_⟩
  simp only [hfiles.mem_references, Reference.render_false]

/-- A message in the files `a` and `a-b`, whose order depends on whether lines follow the names. -/
def twoFiles : List Candidate :=
  [{ reference := ⟨"a", some 1⟩, text := "Hi" }, { reference := ⟨"a-b", some 1⟩, text := "Hi" }]

example : (after true twoFiles).entries.map Entry.references =
      [["a-b:1", "a:1"].map Text.ofString] ∧
    (after false twoFiles).entries.map Entry.references = [["a", "a-b"].map Text.ofString] := by
  decide +kernel

end Catalog

end MessageExtraction
