import Mathlib.Data.List.Pairwise
import Mathlib.Data.List.Sort
import MessageExtraction.Proofs.Template.Searches

/-!
# Which interpolations are found

An interpolation is the opening delimiter, a gap, an expression and the closing delimiter. A gap is
made up of blanks and perhaps a mark for one-time binding, and the expression stands on one line. Of
all the ways to read an interpolation at a place, that with the longest gap is taken, and of these
that with the shortest expression. A longer gap after which no closing delimiter comes on the line
gives way to a shorter one, down to none at all.

Every place at which there is a way to read an interpolation lies within one that is found.
Delimiters are texts like any other: they may hold blanks, colons or parts of each other.

## Main definitions

* `IsGap` -- what may stand between the opening delimiter and the expression.
* `Delimiters.IsInterpolation` -- a way to read an interpolation at the start of a text.
* `Delimiters.Reads` -- the way that is taken.
* `Delimiters.Interpolates` -- what is found in a text are its interpolations.

## Main results

* `Delimiters.reads_of_interpolationAt?`, `Delimiters.isSome_interpolationAt?_iff` -- the
  interpolation at the start of a text.
* `Delimiters.interpolates_iff` -- a text has one list of interpolations, and it is found.
* `Delimiters.interpolations_exact` -- how the interpolations in a text stand.
-/

namespace MessageExtraction.Template

/-! ## The closing delimiter -/

section

variable {closing value rest t : Text} {n : Nat}

/-- The closing delimiter is found where it first comes. -/
theorem of_closingOffset? (h : closingOffset? closing 0 t = some n) :
    (∃ rest, t = t.take n ++ closing ++ rest) ∧ CodePoint.ofChar '\n' ∉ t.take n ∧
      ∀ first rest, t = first ++ closing ++ rest → n ≤ first.length := by
  induction t generalizing n with
  | nil =>
    rw [closingOffset?] at h
    split at h
    · next hempty =>
      cases h
      have hclosing : closing = [] := by simpa using hempty
      exact ⟨⟨[], by rw [hclosing]; rfl⟩, List.not_mem_nil, fun _ _ _ => Nat.zero_le _⟩
    · cases h
  | cons c t ih =>
    rw [closingOffset?] at h
    split at h
    · next hstarts =>
      cases h
      obtain ⟨rest, hrest⟩ := startsWith_iff.mp (Bool.and_eq_true_iff.mp hstarts).2
      exact ⟨⟨rest, hrest⟩, List.not_mem_nil, fun _ _ _ => Nat.zero_le _⟩
    · next hstarts =>
      split at h
      · cases h
      · next hfeed =>
        obtain ⟨m, hm, rfl⟩ := Option.map_eq_some_iff.mp h
        obtain ⟨⟨rest, hrest⟩, hline, hnearest⟩ := ih hm
        refine ⟨⟨rest, ?_⟩, ?_, fun first rest hfirst => ?_⟩
        · rw [List.take_succ_cons, List.cons_append, List.cons_append, ← hrest]
        · rw [List.take_succ_cons]
          refine List.not_mem_cons_of_ne_of_not_mem (fun heq => hfeed ?_) hline
          exact CodePoint.is_iff.mpr heq.symm
        · cases first with
          | nil => exact absurd (startsWith_iff.mpr ⟨rest, hfirst⟩) (by simpa using hstarts)
          | cons d first =>
            exact Nat.succ_le_succ (hnearest first rest (List.cons.inj hfirst).2)

/-- A closing delimiter on the line is found. -/
theorem isSome_closingOffset? (hline : CodePoint.ofChar '\n' ∉ value) (closing rest : Text) :
    (closingOffset? closing 0 (value ++ closing ++ rest)).isSome := by
  induction value with
  | nil =>
    cases hclosing : closing with
    | nil => cases rest <;> rfl
    | cons c closing =>
      have hstarts : Text.startsWith (c :: closing ++ rest) (c :: closing) :=
        startsWith_iff.mpr ⟨rest, rfl⟩
      rw [List.nil_append, List.cons_append, closingOffset?, ← List.cons_append, hstarts]
      rfl
  | cons c value ih =>
    have hfeed : c.is '\n' = false :=
      Bool.eq_false_iff.mpr fun hc => hline (CodePoint.is_iff.mp hc ▸ List.mem_cons_self ..)
    rw [List.cons_append, List.cons_append, closingOffset?]
    split
    · rfl
    · rw [hfeed, if_neg Bool.false_ne_true, Option.isSome_map]
      exact ih fun hmem => hline (List.mem_cons_of_mem c hmem)

end

/-! ## Gaps -/

/-- A text is made up of blanks and perhaps a mark for one-time binding after them. -/
def IsGap (gap : Text) : Prop :=
  ∃ blanks : Text, blanks.isBlank ∧ (gap = blanks ∨ gap = blanks ++ bindingMark)

theorem isGap_nil : IsGap [] :=
  ⟨[], rfl, .inl rfl⟩

section

variable {t : Text} {skip : Nat}

/-- What may be passed over are the gaps that a text begins with. -/
theorem mem_skips_iff : skip ∈ skips t ↔ ∃ gap rest, t = gap ++ rest ∧ IsGap gap ∧
    skip = gap.length := by
  rw [skips, List.mem_append, List.mem_reverse, List.mem_range, Nat.lt_succ_iff]
  constructor
  · rintro (hmarked | hblank)
    · split at hmarked
      · next hstarts =>
        obtain ⟨rest, hrest⟩ := startsWith_iff.mp hstarts
        refine ⟨t.take (Text.blankLength t) ++ bindingMark, rest, ?_,
          ⟨_, isBlank_take (Nat.le_refl _), .inr rfl⟩, ?_⟩
        · rw [List.append_assoc, ← hrest, List.take_append_drop]
        · rw [List.length_append, length_take_blankLength (Nat.le_refl _)]
          exact List.mem_singleton.mp hmarked
      · cases hmarked
    · exact ⟨t.take skip, t.drop skip, (List.take_append_drop skip t).symm,
        ⟨_, isBlank_take hblank, .inl rfl⟩, (length_take_blankLength hblank).symm⟩
  · rintro ⟨gap, rest, rfl, ⟨blanks, hblanks, rfl | rfl⟩, rfl⟩
    · exact .inr (length_le_blankLength hblanks rest)
    · have hcount : Text.blankLength (blanks ++ bindingMark ++ rest) = blanks.length := by
        rw [List.append_assoc]
        exact blankLength_append hblanks (by rintro c ⟨⟩; rfl)
      have hstarts : Text.startsWith (bindingMark ++ rest) bindingMark :=
        startsWith_iff.mpr ⟨rest, rfl⟩
      rw [hcount, List.append_assoc, List.drop_left, if_pos hstarts, List.length_append]
      exact .inl (List.mem_singleton.mpr rfl)

/-- Longer gaps are tried first. -/
theorem pairwise_skips (t : Text) : (skips t).Pairwise (· > ·) := by
  rw [skips, List.pairwise_append]
  refine ⟨?_, List.pairwise_reverse.mpr List.pairwise_lt_range, fun marked hmarked skip hskip => ?_⟩
  · split
    · exact List.pairwise_singleton _ _
    · exact .nil
  · rw [List.mem_reverse, List.mem_range] at hskip
    split at hmarked
    · obtain rfl := List.mem_singleton.mp hmarked
      omega
    · cases hmarked

/-- What is not tried before a gap is not longer. -/
theorem le_of_mem_skips {n : Nat} {earlier later : List Nat} (h : skips t = earlier ++ n :: later)
    (hskip : skip ∈ skips t) (hearlier : skip ∉ earlier) : skip ≤ n := by
  have hdescending := pairwise_skips t
  rw [h] at hskip hdescending
  rcases List.mem_cons.mp ((List.mem_append.mp hskip).resolve_left hearlier) with rfl | hlater
  · exact Nat.le_refl _
  · have hrest := (List.pairwise_append.mp hdescending).2.1
    exact Nat.le_of_lt (List.rel_of_pairwise_cons hrest hlater)

end

/-! ## The interpolation at the start of a text -/

namespace Delimiters

/-- A way to read an interpolation at the start of a text. -/
structure IsInterpolation (d : Delimiters) (gap value rest t : Text) : Prop where
  text_eq : t = d.opening ++ gap ++ value ++ d.closing ++ rest
  isGap : IsGap gap
  oneLine : CodePoint.ofChar '\n' ∉ value

/-- The way in which the interpolation at the start of a text is read: with the longest gap, and
then with the shortest expression. -/
structure Reads (d : Delimiters) (gap value rest t : Text) : Prop
    extends d.IsInterpolation gap value rest t where
  longest : ∀ gap' value' rest', d.IsInterpolation gap' value' rest' t → gap'.length ≤ gap.length
  shortest : ∀ value' rest', d.IsInterpolation gap value' rest' t → value.length ≤ value'.length

variable {d : Delimiters} {gap gap' value value' rest rest' t : Text} {n : Nat}

/-- There is one such way. -/
theorem Reads.unique (h : d.Reads gap value rest t) (h' : d.Reads gap' value' rest' t) :
    gap = gap' ∧ value = value' := by
  have hgap : gap.length = gap'.length :=
    Nat.le_antisymm (h'.longest _ _ _ h.toIsInterpolation) (h.longest _ _ _ h'.toIsInterpolation)
  have htext := h.text_eq.symm.trans h'.text_eq
  simp only [List.append_assoc, List.append_cancel_left_eq] at htext
  obtain ⟨rfl, hvalues⟩ := List.append_inj htext hgap
  have hvalue : value.length = value'.length :=
    Nat.le_antisymm (h.shortest _ _ h'.toIsInterpolation) (h'.shortest _ _ h.toIsInterpolation)
  exact ⟨rfl, (List.append_inj hvalues hvalue).1⟩

/-- The expression of an interpolation does not hold the closing delimiter. -/
theorem Reads.not_infix (h : d.Reads gap value rest t) (hclosing : d.closing ≠ []) :
    ¬ d.closing <:+: value := by
  rintro ⟨first, others, rfl⟩
  have hnearer : d.IsInterpolation gap first (others ++ d.closing ++ rest) t := by
    refine ⟨?_, h.isGap, fun hmem => h.oneLine (by simp [hmem])⟩
    rw [h.text_eq]
    simp only [List.append_assoc]
  have hle := h.shortest _ _ hnearer
  have hpos := List.length_pos_iff.mpr hclosing
  simp only [List.length_append] at hle
  omega

/-- With an opening delimiter no interpolation is empty, so that none has to be told from an empty
one. -/
theorem interpolationAt?_eq (hopening : d.opening ≠ []) (nonEmpty : Bool) (t : Text) :
    d.interpolationAt? nonEmpty t = (Text.after? d.opening t).bind fun rest =>
      (skips rest).findSome? fun skip =>
        (closingOffset? d.closing 0 (rest.drop skip)).map fun n =>
          ((rest.drop skip).take n, d.opening.length + skip + d.closing.length + n) := by
  have hpos := List.length_pos_iff.mpr hopening
  have hfixed (skip : Nat) : d.opening.length + skip + d.closing.length ≠ 0 := by omega
  simp only [interpolationAt?, hfixed, decide_false, Bool.and_false, Bool.false_eq_true, if_false]

/-- Up to the closing delimiter that comes first after a gap, a text is an interpolation. -/
theorem isInterpolation_of_closingOffset? (hgap : IsGap gap)
    (h : closingOffset? d.closing 0 t = some n) :
    ∃ rest, d.IsInterpolation gap (t.take n) rest (d.opening ++ (gap ++ t)) := by
  obtain ⟨⟨rest, hrest⟩, hline, -⟩ := of_closingOffset? h
  refine ⟨rest, ?_, hgap, hline⟩
  rw [List.append_assoc, List.append_assoc, ← List.append_assoc (t.take n), ← hrest,
    List.append_assoc]

/-- There is an interpolation where there is a way to read one. -/
theorem isSome_interpolationAt?_iff (hopening : d.opening ≠ []) {nonEmpty : Bool} :
    (d.interpolationAt? nonEmpty t).isSome ↔
      ∃ gap value rest, d.IsInterpolation gap value rest t := by
  rw [interpolationAt?_eq hopening]
  simp only [Option.isSome_bind, Option.any_eq_true, List.findSome?_isSome_iff, Option.isSome_map,
    Text.after?_eq_some, mem_skips_iff]
  constructor
  · rintro ⟨_, rfl, skip, ⟨gap, after, rfl, hgap, rfl⟩, hsome⟩
    rw [List.drop_left] at hsome
    obtain ⟨n, hn⟩ := Option.isSome_iff_exists.mp hsome
    exact ⟨gap, after.take n, isInterpolation_of_closingOffset? hgap hn⟩
  · rintro ⟨gap, value, rest, rfl, hgap, hline⟩
    refine ⟨gap ++ (value ++ d.closing ++ rest), by simp only [List.append_assoc], gap.length,
      ⟨gap, _, rfl, hgap, rfl⟩, ?_⟩
    rw [List.drop_left]
    exact isSome_closingOffset? hline d.closing rest

/-- The interpolation at the start of a text is read in the way described. -/
theorem reads_of_interpolationAt? (hopening : d.opening ≠ []) {nonEmpty : Bool}
    (h : d.interpolationAt? nonEmpty t = some (value, n)) :
    ∃ gap rest, d.Reads gap value rest t ∧
      n = (d.opening ++ gap ++ value ++ d.closing).length := by
  rw [interpolationAt?_eq hopening] at h
  obtain ⟨u, hu, h⟩ := Option.bind_eq_some_iff.mp h
  rw [Text.after?_eq_some] at hu
  obtain ⟨longer, skip, shorter, hskips, hskip, hnone⟩ := List.findSome?_eq_some_iff.mp h
  have hmem : skip ∈ skips u := by simp [hskips]
  obtain ⟨gap, after, rfl, hgap, rfl⟩ := mem_skips_iff.mp hmem
  obtain ⟨m, hm, heq⟩ := Option.map_eq_some_iff.mp hskip
  rw [List.drop_left] at hm heq
  obtain ⟨rfl, rfl⟩ := Prod.mk.inj heq
  obtain ⟨⟨_, hclosed⟩, -, hnearest⟩ := of_closingOffset? hm
  have hlength : (after.take m).length = m :=
    Nat.le_antisymm (List.length_take_le m after) (hnearest _ _ hclosed)
  obtain ⟨rest, hinterpolation⟩ := isInterpolation_of_closingOffset? hgap hm
  refine ⟨gap, rest, ⟨hu ▸ hinterpolation, fun gap' value' rest' h' => ?_,
    fun value' rest' h' => ?_⟩, ?_⟩
  · have htext := hu.symm.trans h'.text_eq
    simp only [List.append_assoc, List.append_cancel_left_eq] at htext
    have hmem' : gap'.length ∈ skips (gap ++ after) :=
      mem_skips_iff.mpr ⟨gap', _, htext, h'.isGap, rfl⟩
    refine le_of_mem_skips hskips hmem' fun hlonger => ?_
    have hnot := Option.map_eq_none_iff.mp (hnone _ hlonger)
    have hsome := isSome_closingOffset? h'.oneLine d.closing rest'
    rw [htext, List.drop_left, ← List.append_assoc] at hnot
    rw [hnot] at hsome
    cases hsome
  · have htext := hu.symm.trans h'.text_eq
    simp only [List.append_assoc, List.append_cancel_left_eq] at htext
    rw [hlength]
    exact hnearest value' rest' (by rw [htext, List.append_assoc])
  · simp only [List.length_append, hlength]
    omega

end Delimiters

/-! ## The interpolations in a text -/

namespace Delimiters

/-- What is found in a text are its interpolations: they stand in order and do not overlap, each is
read in the way described, and no place at which there is a way to read one is left out. -/
structure Interpolates (d : Delimiters) (t : Text) (found : List (Found Text)) : Prop where
  ascending : found.Pairwise fun f g => f.stop ≤ g.start
  reads : ∀ f ∈ found, ∃ before gap rest u, t = before ++ u ∧ d.Reads gap f.value rest u ∧
    f.start = before.length ∧
    f.stop = before.length + (d.opening ++ gap ++ f.value ++ d.closing).length
  covers : ∀ before gap value rest u, t = before ++ u → d.IsInterpolation gap value rest u →
    ∃ f ∈ found, f.start ≤ before.length ∧ before.length < f.stop

variable {d : Delimiters} {t : Text} {found found' : List (Found Text)}

/-- No interpolation is empty. -/
theorem Interpolates.start_lt_stop (h : d.Interpolates t found) (hopening : d.opening ≠ []) :
    ∀ f ∈ found, f.start < f.stop := by
  intro f hf
  obtain ⟨before, gap, rest, u, -, -, hstart, hstop⟩ := h.reads f hf
  have hpos := List.length_pos_iff.mpr hopening
  simp only [List.length_append] at hstop
  omega

/-- The interpolations stand in the order in which they begin. -/
theorem Interpolates.pairwise_start (h : d.Interpolates t found) (hopening : d.opening ≠ []) :
    found.Pairwise fun f g => f.start < g.start := by
  refine h.ascending.imp_of_mem fun {f g} hf _ hle => ?_
  exact Nat.lt_of_lt_of_le (h.start_lt_stop hopening f hf) hle

/-- Different interpolations do not overlap. -/
theorem Interpolates.apart (h : d.Interpolates t found) {f g : Found Text} (hf : f ∈ found)
    (hg : g ∈ found) (hne : f ≠ g) : f.stop ≤ g.start ∨ g.stop ≤ f.start := by
  have : Std.Symm fun f g : Found Text => f.stop ≤ g.start ∨ g.stop ≤ f.start :=
    ⟨fun _ _ => Or.symm⟩
  have hpairwise : found.Pairwise fun f g => f.stop ≤ g.start ∨ g.stop ≤ f.start :=
    h.ascending.imp .inl
  exact hpairwise.forall hf hg hne

/-- At one place one interpolation is read. -/
theorem Interpolates.eq_of_start_eq (h : d.Interpolates t found) (h' : d.Interpolates t found')
    {f g : Found Text} (hf : f ∈ found) (hg : g ∈ found') (hstart : f.start = g.start) : f = g := by
  obtain ⟨before, gap, rest, u, ht, hreads, hfstart, hfstop⟩ := h.reads f hf
  obtain ⟨before', gap', rest', u', ht', hreads', hgstart, hgstop⟩ := h'.reads g hg
  obtain ⟨rfl, rfl⟩ := List.append_inj (ht.symm.trans ht') (by rw [← hfstart, hstart, hgstart])
  obtain ⟨rfl, hvalue⟩ := hreads.unique hreads'
  obtain ⟨start, stop, value⟩ := f
  obtain ⟨start', stop', value'⟩ := g
  dsimp only at *
  subst hvalue hstart
  rw [hfstop, hgstop]

/-- Two lists of the interpolations in a text hold the same. -/
theorem Interpolates.subset (hopening : d.opening ≠ []) (h : d.Interpolates t found)
    (h' : d.Interpolates t found') {f : Found Text} (hf : f ∈ found) : f ∈ found' := by
  -- An interpolation of the other list over the place of this one begins no earlier: by induction
  -- the first list would hold that one too, and it would overlap this one.
  induction hstart : f.start using Nat.strongRecOn generalizing f found found' with
  | _ start ih =>
    obtain ⟨before, gap, rest, u, ht, hreads, hplace, -⟩ := h.reads f hf
    obtain ⟨g, hg, hle, hlt⟩ := h'.covers before gap f.value rest u ht hreads.toIsInterpolation
    rw [← hplace, hstart] at hle hlt
    rcases Nat.lt_or_eq_of_le hle with hbefore | heq
    · have hgfound : g ∈ found := ih g.start hbefore h' h hg rfl
      have hne : g ≠ f := fun heq => Nat.ne_of_lt hbefore (heq ▸ hstart)
      have hstop := h.start_lt_stop hopening f hf
      have hapart := h.apart hgfound hf hne
      omega
    · exact h.eq_of_start_eq h' hf hg (by rw [hstart, heq]) ▸ hg

/-- A text has one list of interpolations. -/
theorem Interpolates.unique (hopening : d.opening ≠ []) (h : d.Interpolates t found)
    (h' : d.Interpolates t found') : found = found' := by
  have hsame f : f ∈ found ↔ f ∈ found' := ⟨h.subset hopening h', h'.subset hopening h⟩
  have : Std.Irrefl fun f g : Found Text => f.start < g.start := ⟨fun f => Nat.lt_irrefl _⟩
  have : Std.Antisymm fun f g : Found Text => f.start < g.start :=
    ⟨fun f g hlt hgt => absurd hgt (Nat.lt_asymm hlt)⟩
  exact (h.pairwise_start hopening).eq_of_mem_iff (h'.pairwise_start hopening) hsame

/-- An interpolation is not empty and no longer than the text. -/
theorem progresses_interpolationAt? (hopening : d.opening ≠ []) :
    Progresses fun nonEmpty _ t => d.interpolationAt? nonEmpty t := by
  intro nonEmpty _ u value n h
  obtain ⟨gap, rest, hreads, rfl⟩ := reads_of_interpolationAt? hopening h
  have hpos := List.length_pos_iff.mpr hopening
  have hlength := congrArg List.length hreads.text_eq
  simp only [List.length_append] at hlength ⊢
  omega

/-- What is found in a text are its interpolations. -/
theorem interpolates_interpolations (hopening : d.opening ≠ []) (t : Text) :
    d.Interpolates t (d.interpolations t) := by
  have hprogresses := progresses_interpolationAt? hopening
  refine ⟨pairwise_findFrom, fun f hf => ?_, fun before gap value rest u ht h => ?_⟩
  · obtain ⟨_, before, u, n, ht, hstart, hstop, hvalue⟩ := place_of_mem_findFrom hprogresses f hf
    obtain ⟨gap, rest, hreads, rfl⟩ := reads_of_interpolationAt? hopening hvalue
    rw [Nat.zero_add] at hstart
    exact ⟨before, gap, rest, u, ht, hreads, hstart, hstart ▸ hstop⟩
  · have hcovered : ∃ f ∈ d.interpolations t,
        f.start ≤ 0 + before.length ∧ 0 + before.length < f.stop :=
      exists_mem_findFrom hprogresses ht fun _ =>
        (isSome_interpolationAt?_iff hopening).mpr ⟨gap, value, rest, h⟩
    rwa [Nat.zero_add] at hcovered

/-- What is found in a text is the one list of its interpolations. -/
theorem interpolates_iff (hopening : d.opening ≠ []) :
    d.Interpolates t found ↔ found = d.interpolations t :=
  ⟨fun h => h.unique hopening (interpolates_interpolations hopening t),
    fun h => h ▸ interpolates_interpolations hopening t⟩

/-- Without the opening delimiter there is no interpolation. -/
theorem expressions_eq_nil (hopening : d.opening ≠ []) (h : ¬d.opening <:+: t) :
    d.expressions t = [] := by
  have hnone : d.Interpolates t [] := by
    refine ⟨.nil, fun f hf => absurd hf List.not_mem_nil, fun before gap value rest u ht hu => ?_⟩
    refine absurd ⟨before, gap ++ value ++ d.closing ++ rest, ?_⟩ h
    rw [ht, hu.text_eq]
    simp only [List.append_assoc]
  rw [expressions, ← (interpolates_iff hopening).mp hnone, List.map_nil]

/-- An interpolation at the start of a text is the only one if the opening delimiter does not come
after it. -/
theorem Reads.expressions_eq {gap value rest : Text} (h : d.Reads gap value rest t)
    (hopening : d.opening ≠ []) (hrest : ¬d.opening <:+: rest) : d.expressions t = [value] := by
  have hsingle : d.Interpolates t
      [⟨0, (d.opening ++ gap ++ value ++ d.closing).length, value⟩] := by
    refine ⟨List.pairwise_singleton _ _, List.forall_mem_singleton.mpr
      ⟨[], gap, rest, t, rfl, h, rfl, (Nat.zero_add _).symm⟩, ?_⟩
    intro before gap' value' rest' u ht hu
    refine ⟨_, List.mem_singleton_self _, Nat.zero_le _, Nat.lt_of_not_le fun hle => hrest ?_⟩
    -- what stands beyond the interpolation is a part of the rest
    have hparts : t = (d.opening ++ gap ++ value ++ d.closing) ++ rest := h.text_eq
    obtain ⟨between, hbetween⟩ :=
      List.prefix_of_prefix_length_le ⟨rest, hparts.symm⟩ ⟨u, ht.symm⟩ hle
    rw [ht, ← hbetween, List.append_assoc] at hparts
    refine ⟨between, gap' ++ value' ++ d.closing ++ rest', ?_⟩
    rw [← List.append_cancel_left hparts, hu.text_eq]
    simp only [List.append_assoc]
  rw [expressions, ← (interpolates_iff hopening).mp hsingle]
  rfl

/-- The interpolations in a text stand in order and do not overlap. Each begins with the opening
delimiter and ends with the closing one; between them stand a gap and an expression, in which
neither a line feed nor the closing delimiter comes. Wherever the opening delimiter comes, and the
closing one after it with no line feed between them, there is an interpolation over that place.
Delimiters may be any texts, as long as neither is empty. -/
theorem interpolations_exact (hopening : d.opening ≠ []) (hclosing : d.closing ≠ []) (t : Text) :
    (d.interpolations t).Pairwise (fun f g => f.stop ≤ g.start) ∧
    (∀ f ∈ d.interpolations t, ∃ before gap after,
      t = before ++ d.opening ++ gap ++ f.value ++ d.closing ++ after ∧ IsGap gap ∧
      f.start = before.length ∧
      f.stop = (before ++ d.opening ++ gap ++ f.value ++ d.closing).length ∧
      CodePoint.ofChar '\n' ∉ f.value ∧ ¬d.closing <:+: f.value) ∧
    ∀ before line after, t = before ++ d.opening ++ line ++ d.closing ++ after →
      CodePoint.ofChar '\n' ∉ line →
      ∃ f ∈ d.interpolations t, f.start ≤ before.length ∧ before.length < f.stop := by
  have h := interpolates_interpolations hopening t
  refine ⟨h.ascending, fun f hf => ?_, fun before line after ht hline => ?_⟩
  · obtain ⟨before, gap, after, u, ht, hreads, hstart, hstop⟩ := h.reads f hf
    refine ⟨before, gap, after, ?_, hreads.isGap, hstart, ?_, hreads.oneLine,
      hreads.not_infix hclosing⟩
    · rw [ht, hreads.text_eq]
      simp only [List.append_assoc]
    · rw [hstop]
      simp only [List.length_append, Nat.add_assoc]
  · refine h.covers before [] line after (d.opening ++ line ++ d.closing ++ after) ?_
      ⟨by rw [List.append_nil], isGap_nil, hline⟩
    rw [ht]
    simp only [List.append_assoc]

/-- Delimiters with characters that mean something in patterns stand for themselves. The
closing delimiter shares a colon with what looks like a mark: since none comes after the mark, the
gap is the blank alone. -/
theorem interpolations_exact_stars :
    (⟨"(*", ":*)"⟩ : Delimiters).opening ≠ [] ∧ (⟨"(*", ":*)"⟩ : Delimiters).closing ≠ [] ∧
    CodePoint.ofChar '\n' ∉ (" :" : Text) ∧
    ((⟨"(*", ":*)"⟩ : Delimiters).interpolations "((* ::*)\n(*a:*)").map (·.value) = [":", "a"] ∧
    ∃ f ∈ (⟨"(*", ":*)"⟩ : Delimiters).interpolations "((* ::*)\n(*a:*)",
      f.start ≤ 1 ∧ 1 < f.stop :=
  ⟨by decide, by decide, by decide, by decide +kernel,
    (interpolations_exact (by decide) (by decide) "((* ::*)\n(*a:*)").2.2 "(" " :" "\n(*a:*)"
      (by decide) (by decide)⟩

end Delimiters

end MessageExtraction.Template
