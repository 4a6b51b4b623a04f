import MessageExtraction.Proofs.Catalog.Entries
import Mathlib.Data.List.Sort

/-!
# The listing of a catalog

The contexts of each message are sorted first, and a stable sort by messages
then keeps them in their order. The two sorts together put the entries into one
strict total order, so the listing forgets in which order entries came about: it
is a function of what is found under each key.

## Main definitions

* `Catalog.Precedes` -- the strict order of pairs, by the first part and then the second.
* `Catalog.ListedBefore` -- the strict order of entries.

## Main results

* `Catalog.pairwise_mergeSort_of_pairwise` -- sorting keeps the order of what it does not tell
  apart.
* `Catalog.pairwise_entries` -- the listing is strictly ordered.
* `Catalog.mem_entries` -- the listing holds what is found under a key.
* `Catalog.entries_congr` -- catalogs that find the same entries list the same entries.
-/

namespace MessageExtraction.Catalog

/-! ### Pairs in order -/

section Pairs

variable {α : Type} [LT α] {a b c : α × Text}

/-- The strict order of pairs: by the first part, then by the second. -/
def Precedes (a b : α × Text) : Prop :=
  a.1 < b.1 ∨ a.1 = b.1 ∧ a.2 < b.2

variable [LE α] [Std.IsLinearOrder α] [Std.LawfulOrderLT α]

theorem Precedes.trans (hab : Precedes a b) (hbc : Precedes b c) : Precedes a c := by
  rcases hab with hab | ⟨hab, hab'⟩ <;> rcases hbc with hbc | ⟨hbc, hbc'⟩
  · exact Or.inl (Std.lt_trans hab hbc)
  · exact Or.inl (hbc ▸ hab)
  · exact Or.inl (hab ▸ hbc)
  · exact Or.inr ⟨hab.trans hbc, List.lt_trans hab' hbc'⟩

omit [Std.IsLinearOrder α] in
theorem Precedes.irrefl (a : α × Text) : ¬ Precedes a a := by
  rintro (h | ⟨-, h⟩)
  · exact Std.lt_irrefl h
  · exact List.lt_irrefl _ h

/-- Of two different pairs one precedes the other. -/
theorem eq_of_not_precedes (hab : ¬ Precedes a b) (hba : ¬ Precedes b a) : a = b := by
  have hfst : a.1 = b.1 :=
    Std.le_antisymm (Std.not_lt.mp fun h => hba (Or.inl h)) (Std.not_lt.mp fun h => hab (Or.inl h))
  have hsnd : a.2 = b.2 :=
    List.le_antisymm (fun h => hba (Or.inr ⟨hfst.symm, h⟩)) fun h => hab (Or.inr ⟨hfst, h⟩)
  exact Prod.ext hfst hsnd

variable [DecidableLT α] [DecidableEq α]

theorem notAfter_iff : notAfter a b = true ↔ ¬ Precedes b a := by
  simp only [notAfter, Precedes, Bool.or_eq_true, Bool.and_eq_true, decide_eq_true_eq,
    Bool.not_eq_true', decide_eq_false_iff_not]
  constructor
  · rintro (h | ⟨h, h'⟩) (hc | ⟨hc, hc'⟩)
    · exact Std.lt_irrefl (Std.lt_trans h hc)
    · exact Std.lt_irrefl (hc ▸ h)
    · exact Std.lt_irrefl (h ▸ hc)
    · exact h' hc'
  · intro h
    by_cases hlt : a.1 < b.1
    · exact Or.inl hlt
    · have heq : a.1 = b.1 :=
        Std.le_antisymm (Std.not_lt.mp fun hc => h (Or.inl hc)) (Std.not_lt.mp hlt)
      exact Or.inr ⟨heq, fun hc => h (Or.inr ⟨heq.symm, hc⟩)⟩

theorem notAfter_trans (hab : notAfter a b = true) (hbc : notAfter b c = true) :
    notAfter a c = true := by
  rw [notAfter_iff] at *
  intro hca
  by_cases h : Precedes a b
  · exact hbc (hca.trans h)
  · exact hbc (eq_of_not_precedes h hab ▸ hca)

theorem notAfter_total (a b : α × Text) : (notAfter a b || notAfter b a) = true := by
  rw [Bool.or_eq_true, notAfter_iff, notAfter_iff]
  by_cases h : Precedes b a
  · exact Or.inr fun hab => Precedes.irrefl a (hab.trans h)
  · exact Or.inl h

end Pairs

/-! ### Stable sorting -/

/-- Sorting a list whose members stand in a relation keeps the relation between those that the
sorting does not tell apart. -/
theorem pairwise_mergeSort_of_pairwise {α : Type} {le : α → α → Bool} {r : α → α → Prop}
    (trans : ∀ a b c, le a b = true → le b c = true → le a c = true)
    (total : ∀ a b, (le a b || le b a) = true) {l : List α} (hl : l.Pairwise r) :
    (l.mergeSort le).Pairwise fun a b => le a b = true ∧ (le b a = true → r a b) := by
  rw [← List.mergeSort_zipIdx, List.pairwise_map]
  have hperm := List.mergeSort_perm l.zipIdx (List.zipIdxLE le)
  have hsorted := List.pairwise_mergeSort (List.zipIdxLE_trans trans) (List.zipIdxLE_total total)
    l.zipIdx
  have hplaces : (l.zipIdx.map Prod.snd).Nodup := by
    rw [List.zipIdx_map_snd]
    exact List.nodup_range'
  have hdistinct := List.pairwise_map.mp ((hperm.map Prod.snd).nodup_iff.mpr hplaces)
  refine (hsorted.and hdistinct).imp_of_mem ?_
  rintro ⟨a, i⟩ ⟨b, j⟩ ha hb ⟨hle, hne⟩
  rw [hperm.mem_iff, List.mem_zipIdx_iff_getElem?] at ha hb
  dsimp only at ha hb hne ⊢
  obtain ⟨hi, rfl⟩ := List.getElem?_eq_some_iff.mp ha
  obtain ⟨hj, rfl⟩ := List.getElem?_eq_some_iff.mp hb
  have hle' : (if le l[i] l[j] then if le l[j] l[i] then decide (i ≤ j) else true else false)
      = true := hle
  split at hle'
  · next hij =>
    refine ⟨hij, fun hji => ?_⟩
    rw [if_pos hji, decide_eq_true_eq] at hle'
    exact List.pairwise_iff_getElem.mp hl i j hi hj (Nat.lt_of_le_of_ne hle' hne)
  · exact absurd hle' Bool.false_ne_true

/-- Sorting by a key puts a list in strict order as far as the keys differ, and where they agree
keeps the order of the list. -/
theorem pairwise_mergeSort_key {α β : Type} [LT α] [LE α] [Std.IsLinearOrder α]
    [Std.LawfulOrderLT α] [DecidableLT α] [DecidableEq α] (key : β → α × Text)
    {r : β → β → Prop} {l : List β} (hl : l.Pairwise r) :
    (l.mergeSort fun a b => notAfter (key a) (key b)).Pairwise fun a b =>
      Precedes (key a) (key b) ∨ key a = key b ∧ r a b := by
  have htrans : ∀ a b c, notAfter (key a) (key b) = true → notAfter (key b) (key c) = true →
      notAfter (key a) (key c) = true := fun _ _ _ => notAfter_trans
  refine (pairwise_mergeSort_of_pairwise htrans
    (fun a b => notAfter_total (key a) (key b)) hl).imp ?_
  intro a b ⟨hle, htie⟩
  by_cases hab : Precedes (key a) (key b)
  · exact Or.inl hab
  · exact Or.inr ⟨eq_of_not_precedes hab (notAfter_iff.mp hle), htie (notAfter_iff.mpr hab)⟩

/-! ### The order of the listing -/

/-- The order of the listing: by the folded message, the message and the context. -/
def ListedBefore (a b : Entry) : Prop :=
  Precedes (collationKey a.msgid) (collationKey b.msgid) ∨
    a.msgid = b.msgid ∧ Precedes (contextKey a.context) (contextKey b.context)

instance : Std.Irrefl ListedBefore where
  irrefl _ h := h.elim (Precedes.irrefl _) fun h => Precedes.irrefl _ h.2

instance : Std.Asymm ListedBefore where
  asymm _ _ := by
    rintro (h | ⟨h, h'⟩) (hc | ⟨hc, hc'⟩)
    · exact Precedes.irrefl _ (h.trans hc)
    · exact Precedes.irrefl _ (hc ▸ h)
    · exact Precedes.irrefl _ (h ▸ hc)
    · exact Precedes.irrefl _ (h'.trans hc')

theorem contextKey_injective {a b : Option Text} (h : contextKey a = contextKey b) : a = b := by
  cases a <;> cases b <;> simp_all [contextKey]

variable {c : Catalog}

/-- The entries of a message are sorted by their contexts. -/
theorem WellFormed.pairwise_sortedContexts (h : c.WellFormed) {m : Text × Table (Option Text) Entry}
    (hm : m ∈ c.messages) :
    (sortedContexts m.2).Pairwise fun a b =>
      Precedes (contextKey a.context) (contextKey b.context) := by
  rw [sortedContexts, List.pairwise_map]
  have hcontext : ∀ x ∈ m.2, x.2.context = x.1 := fun x hx =>
    congrArg Prod.snd (h.key_eq m hm x hx)
  refine (pairwise_mergeSort_key (fun x => contextKey x.1)
    (List.pairwise_map.mp (h.nodup_contexts m hm))).imp_of_mem ?_
  intro a b ha hb hab
  rw [hcontext a (List.mem_mergeSort.mp ha), hcontext b (List.mem_mergeSort.mp hb)]
  rcases hab with hab | ⟨heq, hne⟩
  · exact hab
  · exact absurd (contextKey_injective heq) hne

theorem mem_sortedContexts {contexts : Table (Option Text) Entry} {e : Entry} :
    e ∈ sortedContexts contexts ↔ ∃ x ∈ contexts, x.2 = e := by
  rw [sortedContexts, List.mem_map]
  simp only [List.mem_mergeSort]

/-- The listing is strictly ordered. -/
theorem WellFormed.pairwise_entries (h : c.WellFormed) : c.entries.Pairwise ListedBefore := by
  have hmsgid : ∀ m ∈ c.messages, ∀ e ∈ sortedContexts m.2, e.msgid = m.1 := by
    intro m hm e he
    obtain ⟨x, hx, rfl⟩ := mem_sortedContexts.mp he
    exact congrArg Prod.fst (h.key_eq m hm x hx)
  have hgroups : (c.messages.flatMap fun m => sortedContexts m.2).Pairwise fun a b =>
      a.msgid = b.msgid → Precedes (contextKey a.context) (contextKey b.context) := by
    refine List.pairwise_flatMap.mpr ⟨fun m hm => ?_, ?_⟩
    · refine (h.pairwise_sortedContexts hm).imp ?_
      exact fun hab _ => hab
    · refine (List.pairwise_map.mp h.nodup_messages).imp_of_mem ?_
      intro m n hm hn hne a ha b hb hab
      rw [hmsgid m hm a ha, hmsgid n hn b hb] at hab
      exact absurd hab hne
  refine (pairwise_mergeSort_key (fun e : Entry => collationKey e.msgid) hgroups).imp ?_
  rintro a b (hab | ⟨heq, hab⟩)
  · exact Or.inl hab
  · have hmsgid : a.msgid = b.msgid := congrArg Prod.snd heq
    exact Or.inr ⟨hmsgid, hab hmsgid⟩

/-- The listing holds what is found under a key. -/
theorem WellFormed.mem_entries (h : c.WellFormed) {e : Entry} :
    e ∈ c.entries ↔ c.find? e.key = some e := by
  rw [h.find?_key_iff, entries, List.mem_mergeSort, List.mem_flatMap]
  simp only [mem_sortedContexts]

/-- Catalogs in which the same entries are found list the same entries. -/
theorem entries_congr {c d : Catalog} (hc : c.WellFormed) (hd : d.WellFormed)
    (h : ∀ key, c.find? key = d.find? key) : c.entries = d.entries := by
  refine hc.pairwise_entries.eq_of_mem_iff hd.pairwise_entries fun e => ?_
  rw [hc.mem_entries, hd.mem_entries, h]

/-- The listing has as many entries as the catalog. -/
theorem length_entries (c : Catalog) : c.entries.length = c.size := by
  simp [entries, size, sortedContexts, List.length_flatMap]

end MessageExtraction.Catalog
