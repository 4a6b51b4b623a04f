import MessageExtraction.Proofs.Po.Lasting

/-!
# Pieces of an escaped text

A text is escaped before its lines are filled, so that a line break could fall between a backslash
and the letter after it. It does not: two chunks meet only where a space or a hyphen is on one side,
and an escape has neither. White space is escaped except for spaces, and these are kept. So the
pieces of a field are the escapes of parts of its text, one part after the other.

## Main definitions

* `Wrap.Loose` -- the code points at which chunks can meet.
* `Wrap.Meet` -- two texts that can be neighbouring chunks.

## Main results

* `Wrap.meet_chunkTail` -- a chunk and what comes after it meet at a space or a hyphen.
* `Po.exists_parts_of_lines` -- lines filled with an escaped text.
* `Po.exists_parts_of_pieces` -- the pieces of a field.
-/

namespace MessageExtraction

/-! ## Where chunks meet -/

namespace Wrap

/-- White space or a hyphen. -/
def Loose (c : CodePoint) : Prop :=
  isSpace c = true ∨ c.is '-' = true

/-- Two texts that meet at white space or a hyphen, or of which the second is empty. -/
def Meet (t u : Text) : Prop :=
  u = [] ∨ (∃ c ∈ u.head?, Loose c) ∨ ∃ c ∈ t.getLast?, Loose c

section

variable {c : CodePoint} {t u before : Text} {n : Nat}

theorem Meet.cons (c : CodePoint) (h : Meet t u) : Meet (c :: t) u := by
  refine h.imp_right (Or.imp_right fun ⟨d, hd, hloose⟩ => ⟨d, ?_, hloose⟩)
  cases t with
  | nil => cases hd
  | cons e t => exact hd

theorem Meet.of_cons (h : Meet (c :: t) u) : t = [] ∨ Meet t u := by
  cases t with
  | nil => exact .inl rfl
  | cons d t => exact .inr (h.imp_right (Or.imp_right fun h => h))

/-- A chunk of loose code points meets whatever comes next. -/
theorem meet_of_loose (h : ∀ d ∈ c :: t, Loose d) (u : Text) : Meet (c :: t) u :=
  .inr (.inr ⟨_, List.getLast?_eq_some_getLast (List.cons_ne_nil c t),
    h _ (List.getLast_mem _)⟩)

/-- A dash begins with a hyphen, and its length counts hyphens. -/
theorem of_dashLength? (h : dashLength? t = some n) :
    n = (t.takeWhile fun c => c.is '-').length ∧ 2 ≤ n := by
  rw [dashLength?] at h
  split at h
  · next hlong =>
    cases h
    exact ⟨rfl, of_decide_eq_true (Bool.and_eq_true_iff.mp hlong).1⟩
  · cases h

theorem is_hyphen_of_dashLength? (h : (dashLength? (c :: t)).isSome) : c.is '-' = true := by
  obtain ⟨n, hn⟩ := Option.isSome_iff_exists.mp h
  obtain ⟨hlength, htwo⟩ := of_dashLength? hn
  by_contra hc
  rw [List.takeWhile_cons, if_neg hc] at hlength
  rw [hlength] at htwo
  cases htwo

/-- The code points that are counted belong to a dash. -/
theorem mem_take_takeWhile {p : CodePoint → Bool} (h : n ≤ (t.takeWhile p).length) {d : CodePoint}
    (hd : d ∈ t.take n) : p d = true := by
  rw [← List.takeWhile_append_dropWhile (p := p) (l := t), List.take_append_of_le_length h] at hd
  exact List.all_eq_true.mp List.all_takeWhile d (List.mem_of_mem_take hd)

/-- A word ends at the end of the text, before white space or a dash, or after a hyphen. -/
theorem meet_wordLength (before t : Text) :
    Meet (t.take (wordLength before t)) (t.drop (wordLength before t)) := by
  fun_induction wordLength before t with
  | case1 => exact .inl rfl
  | case2 before c t hhyphen =>
    simp only [Bool.and_eq_true] at hhyphen
    exact .inr (.inr ⟨c, rfl, .inr hhyphen.1.1⟩)
  | case3 before c t _ hspace => exact .inr (.inl ⟨c, rfl, .inl hspace⟩)
  | case4 before c t _ _ hdash =>
    exact .inr (.inl ⟨c, rfl, .inr (is_hyphen_of_dashLength? (Bool.and_eq_true_iff.mp hdash).2)⟩)
  | case5 before c t _ _ _ ih => exact ih.cons c

/-- A chunk and what comes after it meet at white space or a hyphen. -/
theorem meet_chunkTail (before : Text) (c : CodePoint) (t : Text) :
    Meet (c :: t.take (chunkTail before c t)) (t.drop (chunkTail before c t)) := by
  rw [chunkTail]
  split
  · next hspace =>
    refine meet_of_loose (fun d hd => ?_) _
    rcases List.mem_cons.mp hd with rfl | hd
    · exact .inl hspace
    · exact .inl (mem_take_takeWhile (Nat.le_refl _) hd)
  · split
    · next n hdash =>
      split at hdash
      · obtain ⟨hlength, htwo⟩ := of_dashLength? hdash
        refine meet_of_loose (fun d hd => .inr ?_) _
        have htake : c :: t.take (n - 1) = (c :: t).take n := by
          obtain ⟨m, rfl⟩ : ∃ m, n = m + 1 := ⟨n - 1, by omega⟩
          rfl
        exact mem_take_takeWhile (p := fun c => c.is '-') (Nat.le_of_eq hlength) (htake ▸ hd)
      · cases hdash
    · exact (meet_wordLength (c :: before) t).cons c

end

end Wrap

/-! ## Escapes -/

namespace Po

open Wrap (Loose Meet isSpace)

/-- A code point is escaped or stands for itself. -/
theorem escapePoint_cases (c : CodePoint) :
    (∃ e ∈ escapes, c = CodePoint.ofChar e.1 ∧
      escapePoint c = [CodePoint.ofChar '\\', CodePoint.ofChar e.2]) ∨
    escapePoint c = [c] ∧ ∀ e ∈ escapes, c ≠ CodePoint.ofChar e.1 := by
  rw [escapePoint]
  cases hletter : escapeLetter? c with
  | some letter =>
    obtain ⟨e, he, rfl⟩ := Option.map_eq_some_iff.mp hletter
    exact .inl ⟨e, List.mem_of_find?_eq_some he,
      CodePoint.is_iff.mp (by simpa using List.find?_some he), rfl⟩
  | none =>
    refine .inr ⟨rfl, fun e he heq => ?_⟩
    have hnone := List.find?_eq_none.mp (Option.map_eq_none_iff.mp hletter) e he
    exact hnone (CodePoint.is_iff.mpr heq)

theorem escape_append (t u : Text) : escape (t ++ u) = escape t ++ escape u :=
  List.flatMap_append

theorem flatten_map_escape (ts : List Text) : (ts.map escape).flatten = escape ts.flatten := by
  induction ts with
  | nil => rfl
  | cons t ts ih => rw [List.map_cons, List.flatten_cons, ih, List.flatten_cons, escape_append]

/-- Neither a backslash nor a letter after it is loose. -/
theorem not_loose_of_mem_escapes {e : Char × Char} (he : e ∈ escapes) :
    ¬Loose (CodePoint.ofChar '\\') ∧ ¬Loose (CodePoint.ofChar e.2) := by
  have hall : ∀ e ∈ escapes, (isSpace (CodePoint.ofChar e.2) || (CodePoint.ofChar e.2).is '-') =
      false := by decide
  have hletter := hall e he
  constructor
  · rintro (h | h) <;> cases h
  · rintro (h | h)
    · rw [h] at hletter
      cases hletter
    · rw [h, Bool.or_true] at hletter
      cases hletter

/-- An escaped text is divided only between escapes where its halves meet. -/
theorem exists_of_escape_eq_append {t u v : Text} (h : escape t = u ++ v) (hmeet : Meet u v) :
    ∃ first last, t = first ++ last ∧ u = escape first ∧ v = escape last := by
  induction t generalizing u with
  | nil =>
    obtain ⟨rfl, rfl⟩ := List.append_eq_nil_iff.mp h.symm
    exact ⟨[], [], rfl, rfl, rfl⟩
  | cons c t ih =>
    have hcons : escape (c :: t) = escapePoint c ++ escape t := rfl
    -- the division comes after the escape of the first code point
    have hafter {w : Text} (hu : u = escapePoint c ++ w) (hw : w = [] ∨ Meet w v) :
        ∃ first last, c :: t = first ++ last ∧ u = escape first ∧ v = escape last := by
      rw [hcons, hu, List.append_assoc, List.append_cancel_left_eq] at h
      rcases hw with rfl | hw
      · exact ⟨[c], t, rfl, by rw [hu]; rfl, h.symm⟩
      · obtain ⟨first, last, rfl, rfl, rfl⟩ := ih h hw
        exact ⟨c :: first, last, rfl, hu, rfl⟩
    cases u with
    | nil => exact ⟨[], c :: t, rfl, rfl, h.symm⟩
    | cons d u =>
      rcases escapePoint_cases c with ⟨e, he, -, hpoint⟩ | ⟨hpoint, -⟩
      · obtain ⟨hslash, hletter⟩ := not_loose_of_mem_escapes he
        have hcut : CodePoint.ofChar '\\' :: CodePoint.ofChar e.2 :: escape t =
            d :: (u ++ v) := by
          rw [← List.cons_append, ← h, hcons, hpoint]
          rfl
        obtain ⟨rfl, hletters⟩ := List.cons.inj hcut
        cases u with
        | nil =>
          -- the backslash and the letter would meet
          obtain rfl : CodePoint.ofChar e.2 :: escape t = v := hletters
          rcases hmeet with hnil | ⟨x, hx, hloose⟩ | ⟨x, hx, hloose⟩
          · cases hnil
          · cases hx
            exact absurd hloose hletter
          · cases hx
            exact absurd hloose hslash
        | cons x u =>
          obtain ⟨rfl, -⟩ := List.cons.inj hletters
          refine hafter (w := u) (by rw [hpoint]; rfl) ?_
          rcases hmeet.of_cons with hnil | hmeet
          · cases hnil
          · exact hmeet.of_cons
      · have hcut : c :: escape t = d :: (u ++ v) := by
          rw [← List.cons_append, ← h, hcons, hpoint]
          rfl
        obtain ⟨rfl, -⟩ := List.cons.inj hcut
        exact hafter (by rw [hpoint]; rfl) hmeet.of_cons

/-- White space is escaped, but for spaces. -/
theorem eq_space_of_mem_escape {t : Text} {c : CodePoint} (hc : c ∈ escape t)
    (h : isSpace c = true) : c = ' ' := by
  obtain ⟨d, -, hc⟩ := List.mem_flatMap.mp hc
  rcases escapePoint_cases d with ⟨e, he, -, hpoint⟩ | ⟨hpoint, hplain⟩
  · obtain ⟨hslash, hletter⟩ := not_loose_of_mem_escapes he
    rw [hpoint, List.mem_cons, List.mem_singleton] at hc
    rcases hc with rfl | rfl
    · exact absurd (.inl h) hslash
    · exact absurd (.inl h) hletter
  · rw [hpoint, List.mem_singleton] at hc
    subst hc
    simp only [isSpace, CodePoint.isAny, List.any_cons, List.any_nil, Bool.or_false,
      Bool.or_eq_true, CodePoint.is_iff] at h
    rcases h with h | h | h | h | h | h
    · exact absurd h (hplain ('\t', 't') (by decide))
    · exact absurd h (hplain ('\n', 'n') (by decide))
    · exact absurd h (hplain ('\x0b', 'v') (by decide))
    · exact absurd h (hplain ('\x0c', 'f') (by decide))
    · exact absurd h (hplain ('\r', 'r') (by decide))
    · exact h

theorem not_mem_escape {t : Text} {ch : Char} (hspace : isSpace ch = true)
    (hne : CodePoint.ofChar ch ≠ ' ') : CodePoint.ofChar ch ∉ escape t :=
  fun h => hne (eq_space_of_mem_escape h hspace)

end Po

namespace Wrap

theorem expandTabs_of_not_mem {t : Text} (h : CodePoint.ofChar '\t' ∉ t) (column : Nat) :
    expandTabs column t = t := by
  induction t generalizing column with
  | nil => rfl
  | cons c t ih =>
    have htab : ¬c.is '\t' = true := fun hc => h (CodePoint.is_iff.mp hc ▸ List.mem_cons_self ..)
    have hrest : CodePoint.ofChar '\t' ∉ t := fun hmem => h (List.mem_cons_of_mem c hmem)
    rw [expandTabs, if_neg htab]
    split <;> rw [ih hrest]

/-- A text is even if its only white space are spaces. -/
theorem evenSpaces_of_spaces {t : Text} (h : ∀ c ∈ t, isSpace c = true → c = ' ') :
    evenSpaces t = t := by
  have htab : CodePoint.ofChar '\t' ∉ t := fun hmem => absurd (h _ hmem rfl) (by decide)
  rw [evenSpaces, expandTabs_of_not_mem htab]
  conv_rhs => rw [← List.map_id t]
  refine List.map_congr_left fun c hc => ?_
  split
  · next hspace => exact (h c hc hspace).symm
  · rfl

end Wrap

namespace Po

/-- The chunks of an escaped text are the escapes of its parts. -/
theorem exists_parts_of_chunksAfter (before t : Text) :
    ∃ ts : List Text, Wrap.chunksAfter before (escape t) = ts.map escape ∧ ts.flatten = t := by
  generalize hu : escape t = u
  fun_induction Wrap.chunksAfter before u generalizing t with
  | case1 =>
    have hnil : t = [] := by
      cases t with
      | nil => rfl
      | cons c t =>
        obtain ⟨hpoint, -⟩ := List.append_eq_nil_iff.mp hu
        rcases escapePoint_cases c with ⟨_, _, -, h⟩ | ⟨h, -⟩ <;>
          · rw [h] at hpoint
            cases hpoint
    exact ⟨[], rfl, hnil.symm⟩
  | case2 before c u n chunk ih =>
    have hparts : escape t = chunk ++ u.drop n := by
      rw [hu, List.cons_append, List.take_append_drop]
    obtain ⟨first, last, rfl, hchunk, hrest⟩ :=
      exists_of_escape_eq_append hparts (Wrap.meet_chunkTail before c u)
    obtain ⟨ts, hchunks, rfl⟩ := ih last hrest.symm
    exact ⟨first :: ts, by rw [hchunks, hchunk, List.map_cons], rfl⟩

/-- Lines that are filled with the escapes of texts are the escapes of several texts each. -/
theorem exists_parts_of_fillFrom (width : Nat) (started : Bool) (ts : List Text) :
    ∃ us : List Text, Wrap.fillFrom false width started (ts.map escape) = us.map escape ∧
      us.flatten = ts.flatten := by
  generalize hcs : ts.map escape = cs
  fun_induction Wrap.fillFrom false width started cs generalizing ts with
  | case1 => exact ⟨[], rfl, by rw [List.map_eq_nil_iff.mp hcs]⟩
  | case2 started cs _ next line hempty ih =>
    have happend : next.1 ++ next.2 = cs := Wrap.nextLine_append width cs
    rw [show next.1 = [] from List.isEmpty_iff.mp hempty, List.nil_append] at happend
    exact ih ts (hcs.trans happend.symm)
  | case3 started cs _ next line _ ih =>
    have happend : next.1 ++ next.2 = cs := Wrap.nextLine_append width cs
    obtain ⟨first, last, rfl, hfirst, hlast⟩ := List.map_eq_append_iff.mp (hcs.trans happend.symm)
    obtain ⟨us, hus, hflatten⟩ := ih last hlast
    refine ⟨first.flatten :: us, ?_, by rw [List.flatten_cons, hflatten, List.flatten_append]⟩
    rw [hus, List.map_cons, ← flatten_map_escape, hfirst]
    rfl

/-- Lines filled with an escaped text are the escapes of its parts. -/
theorem exists_parts_of_lines (width : Nat) (t : Text) :
    ∃ us : List Text, Wrap.lines false width (escape t) = us.map escape ∧ us.flatten = t := by
  obtain ⟨ts, hchunks, rfl⟩ := exists_parts_of_chunksAfter [] t
  rw [Wrap.lines, Wrap.fill, Wrap.chunks, Wrap.evenSpaces_of_spaces fun c => eq_space_of_mem_escape,
    hchunks]
  exact exists_parts_of_fillFrom width false ts

/-- The pieces of a field, of which there is at least one, are the escapes of the parts of its
text. -/
theorem exists_parts_of_pieces (keyword t : Text) : ∃ (first : Text) (others : List Text),
    pieces keyword t = (first :: others).map escape ∧ (first :: others).flatten = t := by
  rw [pieces]
  dsimp only
  split
  · exact ⟨[], t.linesWithEnds, rfl, t.flatten_linesWithEnds⟩
  · split
    · obtain ⟨others, hlines, hflatten⟩ := exists_parts_of_lines (lineWidth - 2) t
      exact ⟨[], others, by rw [hlines]; rfl, hflatten⟩
    · exact ⟨t, [], rfl, List.append_nil t⟩

end Po

end MessageExtraction
