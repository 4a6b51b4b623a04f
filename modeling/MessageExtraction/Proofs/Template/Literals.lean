import MessageExtraction.Expression.Filters
import MessageExtraction.Proofs.Template.Searches

/-!
# Which translated literals are found

A translated literal is found at a place of a text exactly when the text is written there as one:
the opening delimiter, blanks and perhaps a mark for one-time binding, a body between two equal
quotation marks, a bar, the word `translate` and after it another bar or the closing delimiter. The
body holds no line feed, but it may hold anything else, quotation marks included; and where the
closing delimiter is empty, anything may come after the word.

## Main definitions

* `PipesOn` -- a text pipes what comes before it into the filter.
* `Delimiters.IsLead` -- what may stand before the quotation mark.
* `Delimiters.IsLiteralAt`, `Delimiters.Holds` -- a translated literal at the start of a text or
  anywhere in it.

## Main results

* `holds_of_mem_literals`, `literals_eq_nil_iff` -- the search for translated literals.
-/

namespace MessageExtraction.Template

open Expression (translateFilter)

/-! ## The filter after a literal -/

/-- A text pipes what comes before it into the filter `translate`, and another filter or the closing
delimiter comes next. -/
def PipesOn (closing t : Text) : Prop :=
  ∃ beforeBar beforeName beforeEnding ending rest : Text,
    beforeBar.isBlank ∧ beforeName.isBlank ∧ beforeEnding.isBlank ∧
      (ending = closing ∨ ending = Text.ofChar '|') ∧
      t = beforeBar ++ Text.ofChar '|' ++ beforeName ++ translateFilter ++ beforeEnding ++ ending ++
        rest

section

variable {closing mark body ending t : Text} {n : Nat}

theorem isSome_endingAt?_iff :
    (endingAt? closing t).isSome ↔ ∃ blanks ending rest : Text, blanks.isBlank ∧
      (ending = closing ∨ ending = Text.ofChar '|') ∧ t = blanks ++ ending ++ rest := by
  rw [endingAt?, List.findSome?_isSome_iff]
  simp only [List.mem_reverse, List.mem_range, Nat.lt_succ_iff]
  constructor
  · rintro ⟨n, hn, h⟩
    have hparts {ending rest : Text} (hdrop : t.drop n = ending ++ rest) :
        t = t.take n ++ ending ++ rest := by
      rw [List.append_assoc, ← hdrop, List.take_append_drop]
    split at h
    · next hstarts =>
      obtain ⟨rest, hrest⟩ := startsWith_iff.mp hstarts
      exact ⟨_, closing, rest, isBlank_take hn, .inl rfl, hparts hrest⟩
    · split at h
      · next hstarts =>
        obtain ⟨rest, hrest⟩ := startsWith_iff.mp hstarts
        exact ⟨_, _, rest, isBlank_take hn, .inr rfl, hparts hrest⟩
      · cases h
  · rintro ⟨blanks, ending, rest, hblanks, hending, rfl⟩
    rw [List.append_assoc]
    refine ⟨blanks.length, length_le_blankLength hblanks _, ?_⟩
    rw [List.drop_left]
    have hstarts : Text.startsWith (ending ++ rest) ending := startsWith_iff.mpr ⟨rest, rfl⟩
    split
    · rfl
    · next hclosing =>
      rcases hending with rfl | rfl
      · exact absurd hstarts hclosing
      · exact Option.isSome_of_eq_some (if_pos hstarts)

theorem afterBlanks?_bar_eq_some_iff : afterBlanks? ['|'] t = some n ↔
    ∃ blanks rest : Text, blanks.isBlank ∧ t = blanks ++ Text.ofChar '|' ++ rest ∧
      n = (blanks ++ Text.ofChar '|').length :=
  afterBlanks?_eq_some_iff ⟨_, rfl, rfl⟩

theorem afterBlanks?_name_eq_some_iff : afterBlanks? "translate" t = some n ↔
    ∃ blanks rest : Text, blanks.isBlank ∧ t = blanks ++ translateFilter ++ rest ∧
      n = (blanks ++ translateFilter).length :=
  have hhead : ∃ c ∈ List.head? translateFilter, c.isBlank = false := ⟨_, rfl, rfl⟩
  afterBlanks?_eq_some_iff hhead

theorem isSome_pipedEnd?_iff : (pipedEnd? closing t).isSome ↔ PipesOn closing t := by
  constructor
  · intro h
    obtain ⟨found, h⟩ := Option.isSome_iff_exists.mp h
    obtain ⟨bar, hbar, h⟩ := Option.bind_eq_some_iff.mp h
    obtain ⟨name, hname, h⟩ := Option.bind_eq_some_iff.mp h
    obtain ⟨⟨ending, n⟩, hending, -⟩ := Option.bind_eq_some_iff.mp h
    obtain ⟨beforeBar, rest, hblank₁, rfl, rfl⟩ := afterBlanks?_bar_eq_some_iff.mp hbar
    rw [List.drop_left] at hname
    obtain ⟨beforeName, rest, hblank₂, rfl, rfl⟩ := afterBlanks?_name_eq_some_iff.mp hname
    rw [← List.drop_drop, List.drop_left, List.drop_left] at hending
    obtain ⟨beforeEnding, ending', rest, hblank₃, hends, rfl⟩ :=
      isSome_endingAt?_iff.mp (Option.isSome_of_eq_some hending)
    exact ⟨beforeBar, beforeName, beforeEnding, ending', rest, hblank₁, hblank₂, hblank₃, hends,
      by simp only [List.append_assoc]⟩
  · rintro ⟨beforeBar, beforeName, beforeEnding, ending, rest, hblank₁, hblank₂, hblank₃, hends,
      rfl⟩
    have hending : (endingAt? closing (beforeEnding ++ ending ++ rest)).isSome :=
      isSome_endingAt?_iff.mpr ⟨_, _, rest, hblank₃, hends, rfl⟩
    obtain ⟨found, hfound⟩ := Option.isSome_iff_exists.mp hending
    have hname := afterBlanks?_name_eq_some_iff.mpr
      ⟨beforeName, beforeEnding ++ ending ++ rest, hblank₂, rfl, rfl⟩
    have hbar := afterBlanks?_bar_eq_some_iff.mpr
      ⟨beforeBar, beforeName ++ translateFilter ++ (beforeEnding ++ ending ++ rest), hblank₁, rfl,
        rfl⟩
    have hparts : beforeBar ++ Text.ofChar '|' ++ beforeName ++ translateFilter ++ beforeEnding ++
        ending ++ rest = beforeBar ++ Text.ofChar '|' ++
          (beforeName ++ translateFilter ++ (beforeEnding ++ ending ++ rest)) := by
      simp only [List.append_assoc]
    rw [hparts, pipedEnd?, hbar]
    simp only [Option.bind_eq_bind, Option.bind_some, List.drop_left, hname, ← List.drop_drop,
      hfound]
    rfl

/-- Where a mark begins, the body of a literal is empty if the filter comes after the mark. -/
theorem isSome_here_iff :
    ((Text.after? mark t).bind fun rest =>
      (pipedEnd? closing rest).map fun (ending, n) => (ending, mark.length + n)).isSome ↔
      ∃ rest, t = mark ++ rest ∧ PipesOn closing rest := by
  simp only [Option.isSome_bind, Option.any_eq_true, Option.isSome_map, isSome_pipedEnd?_iff,
    Text.after?_eq_some]

/-- A body that is found stands before a mark after which the filter comes. -/
theorem of_literalBody? (h : literalBody? closing mark t = some (body, ending, n)) :
    CodePoint.ofChar '\n' ∉ body ∧ ∃ rest, t = body ++ mark ++ rest ∧ PipesOn closing rest := by
  induction t generalizing body ending n with
  | nil => cases h
  | cons c t ih =>
    rw [literalBody?] at h
    split at h
    · next hhere =>
      cases h
      obtain ⟨rest, hrest, hpipes⟩ := isSome_here_iff.mp (Option.isSome_of_eq_some hhere)
      exact ⟨List.not_mem_nil, rest, hrest, hpipes⟩
    · split at h
      · cases h
      · next hfeed =>
        obtain ⟨⟨body', ending', n'⟩, hbody, heq⟩ := Option.map_eq_some_iff.mp h
        cases heq
        obtain ⟨hnot, rest, rfl, hpipes⟩ := ih hbody
        refine ⟨List.not_mem_cons_of_ne_of_not_mem (fun heq => hfeed ?_) hnot, rest, rfl, hpipes⟩
        exact CodePoint.is_iff.mpr heq.symm

/-- Where there is a body, the nearest one is found. -/
theorem isSome_literalBody? (hmark : mark ≠ []) (hbody : CodePoint.ofChar '\n' ∉ body)
    (h : PipesOn closing t) : (literalBody? closing mark (body ++ mark ++ t)).isSome := by
  induction body with
  | nil =>
    obtain ⟨c, mark', rfl⟩ := List.exists_cons_of_ne_nil hmark
    obtain ⟨found, hfound⟩ := Option.isSome_iff_exists.mp (isSome_here_iff.mpr ⟨t, rfl, h⟩)
    rw [List.nil_append, List.cons_append, literalBody?, ← List.cons_append, hfound]
    rfl
  | cons c body ih =>
    rw [List.cons_append, List.cons_append, literalBody?]
    split
    · rfl
    · have hfeed : c.is '\n' = false :=
        Bool.eq_false_iff.mpr fun hc => hbody (CodePoint.is_iff.mp hc ▸ List.mem_cons_self ..)
      rw [if_neg (Bool.eq_false_iff.mp hfeed), Option.isSome_map]
      exact ih fun hmem => hbody (List.mem_cons_of_mem c hmem)

end

/-! ## Translated literals -/

/-- There are no delimiters, so that literals are looked for at the start of a text only. -/
def Delimiters.IsBare (d : Delimiters) : Prop :=
  d.opening = [] ∧ d.closing = []

/-- What may stand between the opening delimiter and the quotation mark: blanks, among which a mark
for one-time binding may be if there are delimiters. -/
def Delimiters.IsLead (d : Delimiters) (lead : Text) : Prop :=
  lead.isBlank ∨ ¬d.IsBare ∧ ∃ first last : Text,
    first.isBlank ∧ last.isBlank ∧ lead = first ++ bindingMark ++ last

/-- A text begins with a translated literal. -/
def Delimiters.IsLiteralAt (d : Delimiters) (body t : Text) : Prop :=
  ∃ lead mark rest : Text, d.IsLead lead ∧ mark ∈ literalMarks ∧ CodePoint.ofChar '\n' ∉ body ∧
    PipesOn d.closing rest ∧ t = d.opening ++ lead ++ mark ++ body ++ mark ++ rest

/-- A translated literal stands in a text, at its start if there are no delimiters. -/
def Delimiters.Holds (d : Delimiters) (body t : Text) : Prop :=
  ∃ first rest : Text, t = first ++ rest ∧ (d.IsBare → first = []) ∧ d.IsLiteralAt body rest

section

variable {d : Delimiters} {index n : Nat} {t lead mark : Text} {literal : TranslatedLiteral}

/-- No mark begins with a blank or a colon, and where one begins no other does. -/
theorem mark_cases (h : mark ∈ literalMarks) :
    mark ≠ [] ∧ (∀ c ∈ mark.head?, c.isBlank = false ∧ c ≠ ':') ∧
      ∀ u, literalMarks.find? (fun m => Text.startsWith (mark ++ u) m) = some mark := by
  simp only [literalMarks, List.map_cons, List.map_nil, List.mem_cons, List.not_mem_nil,
    or_false] at h
  rcases h with rfl | rfl | rfl | rfl
  · exact ⟨List.cons_ne_nil _ _, by decide, fun _ => rfl⟩
  · exact ⟨List.cons_ne_nil _ _, by decide, fun _ => rfl⟩
  · exact ⟨List.cons_ne_nil _ _, by decide, fun _ => rfl⟩
  · exact ⟨List.cons_ne_nil _ _, by decide, fun _ => rfl⟩

theorem isBare_iff : (d.opening.isEmpty && d.closing.isEmpty) = true ↔ d.IsBare := by
  simp only [Bool.and_eq_true, List.isEmpty_iff, Delimiters.IsBare]

theorem afterBlanks?_binding_eq_some_iff : afterBlanks? bindingMark t = some n ↔
    ∃ blanks rest : Text, blanks.isBlank ∧ t = blanks ++ bindingMark ++ rest ∧
      n = (blanks ++ bindingMark).length :=
  afterBlanks?_eq_some_iff ⟨_, rfl, rfl⟩

/-- How many code points at the start of a text may stand before the quotation mark. -/
def Delimiters.leadLength (d : Delimiters) (t : Text) : Nat :=
  let binding := if d.opening.isEmpty && d.closing.isEmpty then 0 else bindingLength t
  binding + Text.blankLength (t.drop binding)

theorem leadLength_of_bare (h : d.IsBare) (t : Text) : d.leadLength t = Text.blankLength t := by
  simp only [Delimiters.leadLength, if_pos (isBare_iff.mpr h), List.drop_zero, Nat.zero_add]

theorem leadLength_of_none (h : ¬d.IsBare) (hnone : afterBlanks? bindingMark t = none) :
    d.leadLength t = Text.blankLength t := by
  simp only [Delimiters.leadLength, if_neg (mt isBare_iff.mp h), bindingLength, hnone,
    List.drop_zero, Nat.zero_add]

theorem leadLength_of_some (h : ¬d.IsBare) (hsome : afterBlanks? bindingMark t = some n) :
    d.leadLength t = n + Text.blankLength (t.drop n) := by
  simp only [Delimiters.leadLength, if_neg (mt isBare_iff.mp h), bindingLength, hsome,
    ← List.drop_drop, blankLength_drop, Nat.add_zero]

/-- What is passed over may stand before the mark. -/
theorem exists_lead (d : Delimiters) (t : Text) :
    ∃ lead, d.IsLead lead ∧ t = lead ++ t.drop (d.leadLength t) ∧ lead.length = d.leadLength t := by
  have hblank (h : d.leadLength t = Text.blankLength t) : ∃ lead, d.IsLead lead ∧
      t = lead ++ t.drop (d.leadLength t) ∧ lead.length = d.leadLength t := by
    rw [h]
    exact ⟨_, .inl (isBlank_take (Nat.le_refl _)), (List.take_append_drop _ t).symm,
      length_take_blankLength (Nat.le_refl _)⟩
  by_cases hbare : d.IsBare
  · exact hblank (leadLength_of_bare hbare t)
  · cases hbinding : afterBlanks? bindingMark t with
    | none => exact hblank (leadLength_of_none hbare hbinding)
    | some n =>
      rw [leadLength_of_some hbare hbinding]
      obtain ⟨blanks, rest, hblanks, rfl, rfl⟩ := afterBlanks?_binding_eq_some_iff.mp hbinding
      rw [List.drop_left, ← List.drop_drop, List.drop_left]
      refine ⟨blanks ++ bindingMark ++ rest.take (Text.blankLength rest), .inr ⟨hbare, blanks, _, hblanks,
        isBlank_take (Nat.le_refl _), rfl⟩, ?_, ?_⟩
      · rw [List.append_assoc _ (rest.take _), List.take_append_drop]
      · rw [List.length_append, length_take_blankLength (Nat.le_refl _)]

/-- All that may stand before the mark is passed over. -/
theorem leadLength_append (hlead : d.IsLead lead)
    (h : ∀ c ∈ t.head?, c.isBlank = false ∧ c ≠ ':') : d.leadLength (lead ++ t) = lead.length := by
  have hhead : ∀ c ∈ t.head?, c.isBlank = false := fun c hc => (h c hc).1
  by_cases hbare : d.IsBare
  · rcases hlead with hblank | ⟨hnot, -⟩
    · rw [leadLength_of_bare hbare, blankLength_append hblank hhead]
    · exact absurd hbare hnot
  · rcases hlead with hblank | ⟨-, first, last, hfirst, hlast, rfl⟩
    · rw [leadLength_of_none hbare, blankLength_append hblank hhead]
      refine Option.eq_none_iff_forall_ne_some.mpr fun n hn => ?_
      obtain ⟨blanks, rest, hblanks, heq, -⟩ := afterBlanks?_binding_eq_some_iff.mp hn
      -- the mark for one-time binding would begin where the quotation mark does
      have hlength : lead.length = blanks.length := by
        rw [← blankLength_append hblank hhead, heq, List.append_assoc,
          blankLength_append hblanks (by rintro c ⟨⟩; rfl)]
      rw [List.append_assoc] at heq
      obtain ⟨-, rfl⟩ := List.append_inj heq hlength
      exact (h _ rfl).2 rfl
    · have hbinding := afterBlanks?_binding_eq_some_iff.mpr
        ⟨first, last ++ t, hfirst, rfl, rfl⟩
      rw [List.append_assoc _ last, leadLength_of_some hbare hbinding, List.drop_left,
        blankLength_append hlast hhead, ← List.length_append]

/-- Reading a literal after the opening delimiter. -/
theorem literalAt?_eq (d : Delimiters) (index : Nat) (t : Text) : d.literalAt? index t =
    (if d.opening.isEmpty && d.closing.isEmpty then (if index = 0 then some t else none)
      else Text.after? d.opening t).bind fun rest =>
    (literalMarks.find? fun m => Text.startsWith (rest.drop (d.leadLength rest)) m).bind fun mark =>
    (literalBody? d.closing mark ((rest.drop (d.leadLength rest)).drop mark.length)).bind
      fun (body, ending, n) => some (⟨mark, body, ending⟩,
        d.opening.length + d.leadLength rest + mark.length + body.length + n) := by
  rw [Delimiters.literalAt?]
  simp only [Option.bind_eq_bind, Delimiters.leadLength]
  split <;> rfl

theorem of_literalAt? (h : d.literalAt? index t = some (literal, n)) :
    d.IsLiteralAt literal.body t ∧ (d.IsBare → index = 0) := by
  rw [literalAt?_eq] at h
  obtain ⟨rest, hrest, h⟩ := Option.bind_eq_some_iff.mp h
  obtain ⟨mark, hmark, h⟩ := Option.bind_eq_some_iff.mp h
  obtain ⟨⟨body, ending, m⟩, hbody, heq⟩ := Option.bind_eq_some_iff.mp h
  cases heq
  obtain ⟨hfeed, after, hafter, hpipes⟩ := of_literalBody? hbody
  obtain ⟨lead, hlead, hparts, -⟩ := exists_lead d rest
  obtain ⟨quoted, hquoted⟩ := startsWith_iff.mp (List.find?_some hmark)
  rw [hquoted, List.drop_left] at hafter
  rw [hquoted, hafter] at hparts
  have hopening : t = d.opening ++ rest ∧ (d.IsBare → index = 0) := by
    split at hrest
    · next hbare =>
      split at hrest
      · next hindex =>
        cases hrest
        rw [(isBare_iff.mp hbare).1]
        exact ⟨rfl, fun _ => hindex⟩
      · cases hrest
    · next hbare => exact ⟨Text.after?_eq_some.mp hrest, fun h => absurd (isBare_iff.mpr h) hbare⟩
  refine ⟨⟨lead, mark, after, hlead, List.mem_of_find?_eq_some hmark, hfeed, hpipes, ?_⟩,
    hopening.2⟩
  rw [hopening.1, hparts]
  simp only [List.append_assoc]

theorem isSome_literalAt? {body : Text} (hindex : d.IsBare → index = 0)
    (h : d.IsLiteralAt body t) : (d.literalAt? index t).isSome := by
  obtain ⟨lead, mark, after, hlead, hmark, hfeed, hpipes, rfl⟩ := h
  obtain ⟨hne, hhead, hfind⟩ := mark_cases hmark
  have hopening : (if d.opening.isEmpty && d.closing.isEmpty then
      (if index = 0 then some (d.opening ++ (lead ++ (mark ++ (body ++ mark ++ after)))) else none)
      else Text.after? d.opening (d.opening ++ (lead ++ (mark ++ (body ++ mark ++ after))))) =
      some (lead ++ (mark ++ (body ++ mark ++ after))) := by
    split
    · next hbare =>
      rw [if_pos (hindex (isBare_iff.mp hbare)), (isBare_iff.mp hbare).1]
      rfl
    · exact Text.after?_eq_some.mpr rfl
  have hlength : d.leadLength (lead ++ (mark ++ (body ++ mark ++ after))) = lead.length := by
    refine leadLength_append hlead fun c hc => hhead c ?_
    rwa [List.head?_append, List.head?_eq_some_head hne, Option.some_or,
      ← List.head?_eq_some_head hne] at hc
  have hparts : d.opening ++ lead ++ mark ++ body ++ mark ++ after =
      d.opening ++ (lead ++ (mark ++ (body ++ mark ++ after))) := by
    simp only [List.append_assoc]
  rw [literalAt?_eq, hparts, hopening, Option.bind_some, hlength, List.drop_left, hfind,
    Option.bind_some, List.drop_left]
  obtain ⟨found, hfound⟩ := Option.isSome_iff_exists.mp (isSome_literalBody? hne hfeed hpipes)
  rw [hfound]
  rfl

/-- Only literals that a text holds are found in it. -/
theorem holds_of_mem_literals {found : Found TranslatedLiteral} (h : found ∈ d.literals t) :
    d.Holds found.value.body t := by
  refine of_mem_findFrom (p := fun literal => d.Holds literal.body t)
    (fun _ index first u literal n hu hle hliteral => ?_) found h
  obtain ⟨hliteral, hindex⟩ := of_literalAt? hliteral
  refine ⟨first, u, hu, fun hbare => List.eq_nil_of_length_eq_zero ?_, hliteral⟩
  have hzero := hindex hbare
  omega

/-- Where a text holds literals, some are found. -/
theorem literals_eq_nil_iff : d.literals t = [] ↔ ∀ body, ¬d.Holds body t := by
  rw [Delimiters.literals, findFrom_eq_nil_iff]
  constructor
  · rintro h body ⟨first, u, rfl, hbare, hliteral⟩
    have hindex : d.IsBare → 0 + first.length = 0 := fun hd => by rw [hbare hd]; rfl
    have hsome := isSome_literalAt? hindex hliteral
    rw [h first u rfl] at hsome
    cases hsome
  · intro h first u hu
    refine Option.eq_none_iff_forall_ne_some.mpr fun ⟨literal, n⟩ hliteral => ?_
    obtain ⟨hliteral, hindex⟩ := of_literalAt? hliteral
    refine h literal.body ⟨first, u, hu, fun hbare => List.eq_nil_of_length_eq_zero ?_, hliteral⟩
    have hzero := hindex hbare
    omega

/-- A translated literal begins with the opening delimiter. -/
theorem Delimiters.IsLiteralAt.begins (h : d.IsLiteralAt body t) : d.opening <+: t := by
  obtain ⟨lead, mark, rest, -, -, -, -, rfl⟩ := h
  simp only [List.append_assoc]
  exact List.prefix_append _ _

/-- With an opening delimiter no translated literal is empty. -/
theorem exists_eq_succ_of_literalAt? (hopening : d.opening ≠ []) {index n : Nat}
    {literal : TranslatedLiteral} (h : d.literalAt? index t = some (literal, n)) :
    ∃ m, n = m + 1 := by
  rw [literalAt?_eq] at h
  obtain ⟨rest, -, h⟩ := Option.bind_eq_some_iff.mp h
  obtain ⟨mark, -, h⟩ := Option.bind_eq_some_iff.mp h
  obtain ⟨⟨body, ending, m⟩, -, heq⟩ := Option.bind_eq_some_iff.mp h
  cases heq
  have hpos := List.length_pos_iff.mpr hopening
  exact Nat.exists_eq_succ_of_ne_zero (by omega)

/-- Where no literal begins after the start of a text, at most the one at the start is found. -/
theorem map_literals_of_start (hopening : d.opening ≠ [])
    (h : ∀ first u, t = first ++ u → first ≠ [] → ∀ body, ¬d.IsLiteralAt body u) :
    (d.literals t).map (·.value) = ((d.literalAt? 0 t).map (·.1)).toList := by
  have hnone (index : Nat) {first u : Text} (ht : t = first ++ u) (hfirst : first ≠ []) :
      d.literalAt? index u = none := by
    refine Option.eq_none_iff_forall_ne_some.mpr fun ⟨literal, n⟩ hliteral => ?_
    exact h first u ht hfirst literal.body (of_literalAt? hliteral).1
  cases hstart : d.literalAt? 0 t with
  | none =>
    have hnil : d.literals t = [] := by
      refine findFrom_eq_nil_iff.mpr fun first u ht => ?_
      cases first with
      | nil => rwa [ht] at hstart
      | cons c first => exact hnone _ ht (List.cons_ne_nil _ _)
    rw [hnil]
    rfl
  | some found =>
    obtain ⟨literal, n⟩ := found
    obtain ⟨m, rfl⟩ := exists_eq_succ_of_literalAt? hopening hstart
    have hne : t ≠ [] := by
      rintro rfl
      exact hopening (List.prefix_nil.mp (of_literalAt? hstart).1.begins)
    have hrest : findFrom (fun _ index u => d.literalAt? index u) false (0 + m + 1)
        (t.drop (m + 1)) = [] := by
      refine findFrom_eq_nil_iff.mpr fun first u hu => ?_
      have hplace : t = t.take (m + 1) ++ first ++ u := by
        rw [List.append_assoc, ← hu, List.take_append_drop]
      refine hnone _ hplace (List.append_ne_nil_of_left_ne_nil (fun hnil => ?_) _)
      exact (List.take_eq_nil_iff.mp hnil).elim (Nat.succ_ne_zero m) hne
    rw [Delimiters.literals, findFrom_eq_cons hne hstart, hrest]
    rfl

end

end MessageExtraction.Template
