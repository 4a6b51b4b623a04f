import MessageExtraction.Catalog.Basic

/-!
# Adding candidates to a catalog

A candidate changes the entry of its key and no other. The entry either refuses
the plural form of the candidate, and then takes its reference alone, or it
takes everything that the candidate brings.

## Main definitions

* `Entry.Refuses` -- an entry has another plural form than a candidate.
* `Entry.accept` -- an entry with everything that a candidate brings.
* `Catalog.WellFormed` -- the entries of a catalog stand under their own keys, each key once.
* `Catalog.addAll` -- a catalog after several candidates, whether or not some bring conflicts.

## Main results

* `Entry.add_of_refuses`, `Entry.add_of_not_refuses` -- the two ways of adding a candidate.
* `Catalog.find?_add` -- the entries after adding a candidate.
* `Catalog.wellFormed_addAll` -- catalogs stay well formed.
-/

namespace MessageExtraction

theorem nonEmpty?_eq_some {t : Option Text} {value : Text} :
    nonEmpty? t = some value ↔ t = some value ∧ value ≠ [] := by
  simp [nonEmpty?, Option.filter_eq_some_iff]

theorem nonEmpty?_nonEmpty? (t : Option Text) : nonEmpty? (nonEmpty? t) = nonEmpty? t := by
  simp [nonEmpty?, Option.filter_filter]

namespace Entry

/-- Whether an entry has another plural form than a candidate brings. -/
def Refuses (e : Entry) (c : Candidate) : Prop :=
  ∃ existing plural, e.plural = some existing ∧ nonEmpty? c.plural = some plural ∧ existing ≠ plural

/-- An entry with everything that a candidate brings. -/
def accept (e : Entry) (lineNumbers : Bool) (c : Candidate) : Entry :=
  { e with
    plural := e.plural.or (nonEmpty? c.plural)
    references := SortedTexts.add e.references (c.reference.render lineNumbers)
    comments := (nonEmpty? c.comment).elim e.comments (SortedTexts.add e.comments)
    messageStrings := if (nonEmpty? c.plural).isSome then [[], []] else e.messageStrings }

variable {e : Entry} {lineNumbers : Bool} {c : Candidate}

theorem addComment_eq (e : Entry) (comment : Option Text) :
    e.addComment comment =
      { e with comments := (nonEmpty? comment).elim e.comments (SortedTexts.add e.comments) } := by
  rw [addComment]
  split <;> next h => rw [h]; rfl

/-- An entry that refuses a candidate takes its reference and reports both plural forms. -/
theorem add_of_refuses {existing plural : Text} (he : e.plural = some existing)
    (hp : nonEmpty? c.plural = some plural) (hne : existing ≠ plural) :
    e.add lineNumbers c =
      (e.addReference (c.reference.render lineNumbers),
        some ⟨e.msgid, existing, plural,
          SortedTexts.add e.references (c.reference.render lineNumbers)⟩) := by
  have hl : (e.addReference (c.reference.render lineNumbers)).plural = some existing := he
  simp only [add, addPlural, hp, hl, if_neg hne]
  rfl

/-- An entry that does not refuse a candidate accepts it and reports nothing. -/
theorem add_of_not_refuses (h : ¬ e.Refuses c) :
    e.add lineNumbers c = (e.accept lineNumbers c, none) := by
  cases hp : nonEmpty? c.plural with
  | none => simp [add, addPlural, hp, addComment_eq, accept, addReference]
  | some plural =>
    cases he : e.plural with
    | none => simp [add, addPlural, hp, he, addComment_eq, accept, addReference, setPlural]
    | some existing =>
      have heq : existing = plural :=
        Decidable.of_not_not fun hne => h ⟨existing, plural, he, hp, hne⟩
      simp [add, addPlural, hp, he, heq, addComment_eq, accept, addReference, setPlural]

@[simp] theorem key_blank (key : Text × Option Text) : (blank key).key = key := rfl

/-- Adding a candidate keeps the key of the entry. -/
@[simp] theorem key_add (e : Entry) (lineNumbers : Bool) (c : Candidate) :
    (e.add lineNumbers c).1.key = e.key := by
  by_cases h : e.Refuses c
  · obtain ⟨existing, plural, he, hp, hne⟩ := h
    rw [add_of_refuses he hp hne]
    rfl
  · rw [add_of_not_refuses h]
    rfl

end Entry

namespace Catalog

variable {c : Catalog}

/-- The entries of a catalog stand under their own keys, and no key is repeated. -/
structure WellFormed (c : Catalog) : Prop where
  nodup_messages : (Table.keys c.messages).Nodup
  nodup_contexts : ∀ m ∈ c.messages, (Table.keys m.2).Nodup
  key_eq : ∀ m ∈ c.messages, ∀ x ∈ m.2, x.2.key = (m.1, x.1)

/-- A catalog without entries is well formed. -/
theorem wellFormed_empty (lineNumbers : Bool) : WellFormed { lineNumbers := lineNumbers } where
  nodup_messages := List.nodup_nil
  nodup_contexts _ hm := absurd hm List.not_mem_nil
  key_eq _ hm := absurd hm List.not_mem_nil

/-- The entries of one message stand under their contexts. -/
theorem WellFormed.contexts (h : c.WellFormed) (msgid : Text) :
    (Table.keys (c.contexts msgid)).Nodup ∧ ∀ x ∈ c.contexts msgid, x.2.key = (msgid, x.1) := by
  rw [Catalog.contexts]
  cases hm : c.messages.get? msgid with
  | none => exact ⟨List.nodup_nil, fun _ hx => absurd hx List.not_mem_nil⟩
  | some contexts =>
    have hmem := Table.mem_of_get? hm
    exact ⟨h.nodup_contexts _ hmem, h.key_eq _ hmem⟩

/-- What is found under a key has this key. -/
theorem WellFormed.key_of_find? (h : c.WellFormed) {key : Text × Option Text} {e : Entry}
    (he : c.find? key = some e) : e.key = key :=
  (h.contexts key.1).2 _ (Table.mem_of_get? he)

/-- An entry is found under its key just if it stands somewhere in the catalog. -/
theorem WellFormed.find?_key_iff (h : c.WellFormed) {e : Entry} :
    c.find? e.key = some e ↔ ∃ m ∈ c.messages, ∃ x ∈ m.2, x.2 = e := by
  constructor
  · intro he
    rw [find?, Catalog.contexts] at he
    cases hm : c.messages.get? e.key.1 with
    | none => rw [hm] at he; exact absurd he (by simp [Table.get?])
    | some contexts =>
      rw [hm] at he
      exact ⟨_, Table.mem_of_get? hm, _, Table.mem_of_get? he, rfl⟩
  · rintro ⟨m, hm, x, hx, rfl⟩
    have hk := h.key_eq m hm x hx
    have hcontexts : c.contexts m.1 = m.2 := by
      rw [Catalog.contexts, (Table.get?_eq_some_iff h.nodup_messages).mpr hm]
      rfl
    rw [find?, hk, hcontexts]
    exact (Table.get?_eq_some_iff (h.nodup_contexts m hm)).mpr hx

/-- A candidate of blank text changes nothing. -/
theorem add_of_blank {x : Candidate} (hx : x.msgid = []) : c.add x = (c, none) := by
  simp [add, hx]

/-- A candidate changes the entry of its key, or begins it. -/
theorem add_of_not_blank {x : Candidate} (hx : x.msgid ≠ []) :
    c.add x =
      let added := ((c.find? x.key).getD (Entry.blank x.key)).add c.lineNumbers x
      ({ c with messages := c.messages.set x.key.1 ((c.contexts x.key.1).set x.key.2 added.1) },
        added.2) := by
  simp [add, hx]

@[simp] theorem lineNumbers_add (c : Catalog) (x : Candidate) :
    (c.add x).1.lineNumbers = c.lineNumbers := by
  by_cases hx : x.msgid = []
  · rw [add_of_blank hx]
  · rw [add_of_not_blank hx]

/-- A candidate changes the entry of its key and no other entry. -/
theorem find?_add (c : Catalog) {x : Candidate} (hx : x.msgid ≠ []) (key : Text × Option Text) :
    (c.add x).1.find? key =
      if x.key = key then
        some (((c.find? key).getD (Entry.blank key)).add c.lineNumbers x).1
      else c.find? key := by
  rw [add_of_not_blank hx]
  simp only [find?, Catalog.contexts, Table.get?_set]
  by_cases hm : x.key.1 = key.1
  · rw [if_pos hm, Option.getD_some, Table.get?_set]
    by_cases hc : x.key.2 = key.2
    · obtain rfl : x.key = key := Prod.ext hm hc
      rw [if_pos rfl, if_pos rfl]
    · have hne : x.key ≠ key := fun h => hc (h ▸ rfl)
      rw [if_neg hc, if_neg hne, hm]
  · have hne : x.key ≠ key := fun h => hm (h ▸ rfl)
    rw [if_neg hm, if_neg hne]

/-- Adding a candidate keeps a catalog well formed. -/
theorem WellFormed.add (h : c.WellFormed) (x : Candidate) : (c.add x).1.WellFormed := by
  by_cases hx : x.msgid = []
  · rwa [add_of_blank hx]
  rw [add_of_not_blank hx]
  obtain ⟨hnodup, hkeys⟩ := h.contexts x.key.1
  refine ⟨Table.nodup_keys_set _ _ h.nodup_messages, fun m hm => ?_, fun m hm y hy => ?_⟩
  · rcases Table.mem_set hm with rfl | hm
    · exact Table.nodup_keys_set _ _ hnodup
    · exact h.nodup_contexts m hm
  · rcases Table.mem_set hm with rfl | hm
    · rcases Table.mem_set hy with rfl | hy
      · simp only [Entry.key_add]
        cases hf : c.find? x.key with
        | none => rfl
        | some e => exact h.key_of_find? hf
      · exact hkeys y hy
    · exact h.key_eq m hm y hy

/-- A catalog after several candidates; those that bring a conflict are passed over like any
others. -/
def addAll (c : Catalog) (calls : List Candidate) : Catalog :=
  calls.foldl (fun c x => (c.add x).1) c

theorem addAll_append (c : Catalog) (before after : List Candidate) :
    c.addAll (before ++ after) = (c.addAll before).addAll after :=
  List.foldl_append

/-- Adding candidates keeps a catalog well formed. -/
theorem WellFormed.addAll (h : c.WellFormed) (calls : List Candidate) :
    (c.addAll calls).WellFormed := by
  induction calls generalizing c with
  | nil => exact h
  | cons x calls ih => exact ih (h.add x)

@[simp] theorem lineNumbers_addAll (c : Catalog) (calls : List Candidate) :
    (c.addAll calls).lineNumbers = c.lineNumbers := by
  induction calls generalizing c with
  | nil => rfl
  | cons x calls ih => exact (ih _).trans (lineNumbers_add c x)

end Catalog

end MessageExtraction
