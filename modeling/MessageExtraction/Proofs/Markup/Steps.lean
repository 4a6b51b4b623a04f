import MessageExtraction.Markup.Tree

/-!
# Reading markup step by step

A document is read in steps. Each of them takes a piece of the document, and the
pieces one after another make up the document. A piece is read into one event at
most: a text is read into itself, a start tag may open a raw element, and inside
a raw element there is nothing but texts up to the end tag.

## Main definitions

* `Markup.Step` -- a piece of a document, what stands before it, and its events.
* `Markup.steps?` -- the steps in which a document is read.
* `Markup.Reads` -- what one step can read.

## Main results

* `read?_eq` -- the events of a document are those of its steps.
* `reads_readNext` -- every step is one of `Reads`.
* `foldl_steps` -- what every step preserves holds at the end.
-/

namespace MessageExtraction.Markup

/-- The line that a place is on, given what stands before it. -/
def lineAfter (before : Text) : Nat :=
  Text.lineFeeds before + 1

@[simp] theorem lineFeeds_nil : Text.lineFeeds [] = 0 := rfl

@[simp] theorem lineFeeds_append (t u : Text) :
    Text.lineFeeds (t ++ u) = Text.lineFeeds t + Text.lineFeeds u :=
  List.countP_append

@[simp] theorem lineAfter_append (before taken : Text) :
    lineAfter (before ++ taken) = lineAfter before + Text.lineFeeds taken := by
  simp only [lineAfter, lineFeeds_append]
  omega

/-- A piece of a document: what stands before it, its text, and the events that it is read into. -/
structure Step where
  before : Text
  taken : Text
  events : List Event

/-- The piece of a text of a length, at least one code point. -/
def piece (length : Nat) : Text → Text
  | [] => []
  | c :: t => c :: t.take (length - 1)

/-- What comes after the piece of a text of a length. -/
def afterPiece (length : Nat) : Text → Text
  | [] => []
  | _ :: t => t.drop (length - 1)

@[simp] theorem piece_append_afterPiece (length : Nat) (t : Text) :
    piece length t ++ afterPiece length t = t := by
  cases t with
  | nil => rfl
  | cons c t => simp [piece, afterPiece]

theorem piece_eq_take {length : Nat} (h : 0 < length) (t : Text) :
    piece length t = t.take length := by
  cases t with
  | nil => simp [piece]
  | cons c t => rw [piece, ← List.take_succ_cons, Nat.sub_add_cancel h]

theorem afterPiece_eq_drop {length : Nat} (h : 0 < length) (t : Text) :
    afterPiece length t = t.drop length := by
  cases t with
  | nil => simp [afterPiece]
  | cons c t => rw [afterPiece, ← List.drop_succ_cons, Nat.sub_add_cancel h]

theorem length_afterPiece_lt {length : Nat} {t : Text} (h : t ≠ []) :
    (afterPiece length t).length < t.length := by
  cases t with
  | nil => exact absurd rfl h
  | cons c t =>
    simp only [afterPiece, List.length_drop, List.length_cons]
    omega

/-- The steps in which a text is read, after what stands before it and inside a raw element or
outside of one, or nothing for an unreadable document. -/
def stepsFrom? (raw : Option Text) (before : Text) : Text → Option (List Step)
  | [] => some []
  | c :: t =>
    match readNext raw (lineAfter before) (c :: t) with
    | .events events length raw =>
      (stepsFrom? raw (before ++ piece length (c :: t)) (afterPiece length (c :: t))).map
        (⟨before, piece length (c :: t), events⟩ :: ·)
    | .endless => none
    | .unreadable => none
termination_by t => t.length
decreasing_by
  exact length_afterPiece_lt (List.cons_ne_nil c t)

/-- The steps in which a document is read, or nothing for an unreadable document. -/
def steps? (document : Text) : Option (List Step) :=
  stepsFrom? none [] document

theorem readFrom?_eq (raw : Option Text) (before t : Text) :
    readFrom? raw (lineAfter before) t =
      (stepsFrom? raw before t).map (List.flatMap Step.events) := by
  fun_induction stepsFrom? raw before t with
  | case1 => simp [readFrom?]
  | case2 raw before c t events length raw' hread ih =>
    rw [lineAfter_append] at ih
    simp only [readFrom?, hread, piece] at ih ⊢
    rw [show t.drop (length - 1) = afterPiece length (c :: t) from rfl, ih, Option.map_map,
      Option.map_map]
    rfl
  | case3 raw before c t hread => simp [readFrom?, hread]
  | case4 raw before c t hread => simp [readFrom?, hread]

/-- The events of a document are those of its steps. -/
theorem read?_eq (document : Text) :
    read? document = (steps? document).map (List.flatMap Step.events) :=
  readFrom?_eq none [] document

/-! ## What one step reads -/

/-- Where a pattern is found, it matches. -/
theorem match_of_search {pattern : Text → Option Nat} {t : Text} {i n : Nat}
    (h : search pattern t = some (i, n)) : pattern (t.drop i) = some n := by
  induction t generalizing i with
  | nil =>
    obtain ⟨m, hm, heq⟩ := Option.map_eq_some_iff.mp h
    obtain ⟨rfl, rfl⟩ := Prod.mk.injEq .. ▸ heq
    exact hm
  | cons c t ih =>
    rw [search] at h
    split at h
    · next m hm =>
      obtain ⟨rfl, rfl⟩ := Prod.mk.injEq .. ▸ Option.some.inj h
      exact hm
    · obtain ⟨⟨j, m⟩, hj, heq⟩ := Option.map_eq_some_iff.mp h
      obtain ⟨rfl, rfl⟩ := Prod.mk.injEq .. ▸ heq
      exact ih hj

/-- Where a pattern is not found, it matches nowhere. -/
theorem eq_none_of_search {pattern : Text → Option Nat} {t : Text} (h : search pattern t = none)
    (i : Nat) : pattern (t.drop i) = none := by
  induction t generalizing i with
  | nil => simpa [search] using h
  | cons c t ih =>
    rw [search] at h
    split at h
    · cases h
    · next hnone =>
      cases i with
      | zero => exact hnone
      | succ i => exact ih (Option.map_eq_none_iff.mp h) i

/-- Void elements are not raw. -/
theorem not_mem_rawNames_of_mem_voidNames : ∀ name ∈ voidNames, name ∉ rawNames := by
  decide +kernel

/-- The raw element that is open after a start tag outside of one. -/
def StartTag.rawAfter (tag : StartTag) : Option Text :=
  if !tag.selfClosing && rawNames.contains tag.name then some tag.name else none

/-- What one step can read at the start of a text on a line: its events, its length, and the raw
elements that are open before and after it. Inside a raw element that ends nowhere, the rest of the
document is dropped. -/
inductive Reads (line : Nat) (t : Text) : Option Text → List Event → Nat → Option Text → Prop
  | nothing (length : Nat) : Reads line t none [] length none
  | dropped (name : Text) (h : ∀ i, endsRaw name (t.drop i) = false) :
      Reads line t (some name) [] t.length (some name)
  | text (raw : Option Text) (length : Nat) :
      Reads line t raw [.text (piece length t)] length raw
  | startTag (tag : StartTag) (length : Nat)
      (h : StartTag.read (t.drop 1) = .tag tag (afterPiece length t)) :
      Reads line t none [.startTag tag line] length tag.rawAfter
  | endTag {raw : Option Text} (name : Text) (length : Nat)
      (h : ∀ r ∈ raw, r = name ∧ endsRaw r t = true) : Reads line t raw [.endTag name] length none
  | special (kind : SpecialKind) (content : Text) (length : Nat) :
      Reads line t none [.special kind content] length none

variable {line length : Nat} {t : Text} {raw raw' : Option Text} {events : List Event}

theorem reads_take (hpos : 0 < length) (raw : Option Text) :
    Reads line t raw [.text (t.take length)] length raw :=
  piece_eq_take hpos t ▸ .text raw length

theorem reads_readEndTag (hends : ∀ r ∈ raw, endsRaw r t = true)
    (h : readEndTag raw t = .events events length raw') : Reads line t raw events length raw' := by
  rw [readEndTag] at h
  split at h
  · cases h
  · dsimp only at h
    split at h
    · next name _ =>
      split at h
      · cases h
        exact reads_take (Nat.succ_pos _) raw
      · next hraw =>
        cases h
        refine .endTag name _ fun r hr => ⟨?_, hends r hr⟩
        rw [Option.mem_def] at hr
        simpa [hr] using hraw
    · split at h
      · cases h
        exact reads_take (Nat.succ_pos _) raw
      · next hraw =>
        obtain rfl : raw = none := by simpa using hraw
        split at h
        · split at h
          · cases h
            exact .endTag _ _ fun _ hr => by cases hr
          · cases h
        · split at h
          · cases h
            exact .nothing _
          · cases h
            exact .special _ _ _

theorem reads_readComment (h : readComment t = .events events length raw') :
    Reads line t none events length raw' := by
  rw [readComment] at h
  split at h
  · cases h
  · cases h
    exact .special _ _ _

theorem reads_readSection {close : Text → Option Nat}
    (h : readSection t close = .events events length raw') :
    Reads line t none events length raw' := by
  rw [readSection] at h
  dsimp only at h
  split at h
  · cases h
  · cases h
    split
    · exact .special _ _ _
    · exact .special _ _ _

theorem reads_readMarkedSection (h : readMarkedSection t = .events events length raw') :
    Reads line t none events length raw' := by
  rw [readMarkedSection] at h
  dsimp only at h
  repeat' split at h
  all_goals first | exact reads_readSection h | cases h

theorem reads_readUpToClosing {kind : SpecialKind} {skipped dropped : Nat}
    (h : readUpToClosing kind skipped dropped t = .events events length raw') :
    Reads line t none events length raw' := by
  rw [readUpToClosing] at h
  split at h
  · cases h
  · cases h
    exact .special _ _ _

theorem suffix_readAttributes (before : CodePoint) (t : Text) :
    (readAttributes before t).2 <:+ t := by
  fun_induction readAttributes before t with
  | case1 => exact List.suffix_rfl
  | case2 => exact List.suffix_rfl
  | case3 before c t a n _ others rest hrest ih =>
    rw [hrest] at ih
    exact ih.trans ((List.drop_suffix n t).trans (List.suffix_cons c t))

/-- What follows a start tag, or a stray piece, ends the text that it begins. -/
theorem StartTag.suffix_of_read {t rest : Text}
    (h : (∃ tag, StartTag.read t = .tag tag rest) ∨ StartTag.read t = .stray rest) :
    rest <:+ t := by
  simp only [StartTag.read] at h
  split at h
  · rcases h with ⟨_, h⟩ | h <;> cases h
  · next n _ =>
    have hsuffix := (suffix_readAttributes ((List.take (n + gapLength (t.drop n)) t).getLastD
      (CodePoint.ofChar '<')) (t.drop (n + gapLength (t.drop n)))).trans (List.drop_suffix _ _)
    split at h
    · rcases h with ⟨_, h⟩ | h <;> cases h
    · next c others heq =>
      rw [heq] at hsuffix
      have hothers := (List.suffix_cons c others).trans hsuffix
      repeat' split at h
      all_goals rcases h with ⟨_, h⟩ | h
      all_goals cases h
      · exact hothers
      · exact (List.drop_suffix _ _).trans hothers
      · exact heq ▸ hsuffix

theorem length_lt_of_suffix {rest : Text} (hne : t ≠ []) (h : rest <:+ t.drop 1) :
    0 < t.length - rest.length := by
  have hpos := List.length_pos_iff.mpr hne
  have hle := h.length_le
  rw [List.length_drop] at hle
  omega

theorem reads_readPiece (hne : t ≠ []) (h : readPiece none line t = .events events length raw') :
    Reads line t none events length raw' := by
  rw [readPiece] at h
  split at h
  · next hlast =>
    cases h
    have hpiece : piece 1 t = t := by
      have := List.take_append_drop 1 t
      rwa [hlast, List.append_nil, ← piece_eq_take Nat.one_pos] at this
    have hreads : Reads line t none [.text (piece 1 t)] 1 none := .text none 1
    rwa [hpiece] at hreads
  · next c others hrest =>
    split at h
    · split at h
      · next tag rest htag =>
        cases h
        refine .startTag tag _ ?_
        have hsuffix := StartTag.suffix_of_read (.inl ⟨tag, htag⟩)
        rw [← hrest] at hsuffix
        rw [hrest, htag, afterPiece_eq_drop (length_lt_of_suffix hne hsuffix)]
        exact congrArg _ (List.suffix_iff_eq_drop.mp (hsuffix.trans (List.drop_suffix 1 t)))
      · next rest hstray =>
        cases h
        have hsuffix := StartTag.suffix_of_read (.inr hstray)
        rw [← hrest] at hsuffix
        exact reads_take (length_lt_of_suffix hne hsuffix) none
      · cases h
    · split at h
      · exact reads_readEndTag (fun _ hr => by cases hr) h
      · split at h
        · repeat' split at h
          all_goals first
            | exact reads_readComment h
            | exact reads_readMarkedSection h
            | exact reads_readUpToClosing h
        · split at h
          · exact reads_readUpToClosing h
          · cases h
            exact reads_take Nat.one_pos none

/-- At the end tag of a raw element it is an end tag that is read. -/
theorem readPiece_of_endsRaw {name : Text} (h : endsRaw name t = true) :
    readPiece raw line t = readEndTag raw t := by
  rw [endsRaw] at h
  split at h
  · cases h
  · next rest hrest =>
    obtain rfl := Text.after?_eq_some.mp hrest
    rfl

/-- The place of a raw element's end tag, if it is the first place of a text. -/
theorem endsRaw_of_search {name : Text}
    (h : (search (fun t => if endsRaw name t then some 1 else none) t).map (·.1) = some 0) :
    endsRaw name t = true := by
  obtain ⟨⟨i, n⟩, hsearch, rfl⟩ := Option.map_eq_some_iff.mp h
  have hmatch := match_of_search hsearch
  rw [List.drop_zero] at hmatch
  split at hmatch
  · assumption
  · cases hmatch

theorem strayLength_pos (t : Text) : 0 < strayLength t := by
  rw [strayLength]
  split
  · exact Nat.succ_pos _
  · split
    · exact Nat.succ_pos _
    · exact Nat.one_pos

/-- What a step reads, whatever stands at the place. -/
theorem reads_readNext (hne : t ≠ []) (h : readNext raw line t = .events events length raw') :
    Reads line t raw events length raw' := by
  unfold readNext at h
  dsimp only at h
  split at h
  · next hnone =>
    cases h
    cases raw with
    | none => cases hnone
    | some name =>
      refine .dropped name fun i => ?_
      have := eq_none_of_search (Option.map_eq_none_iff.mp hnone) i
      split at this
      · cases this
      · next hends => exact Bool.not_eq_true _ ▸ hends
  · next hzero =>
    split at h
    · cases h
      exact reads_take (strayLength_pos t) raw
    · cases raw with
      | none => exact reads_readPiece hne h
      | some name =>
        have hends := endsRaw_of_search hzero
        rw [readPiece_of_endsRaw hends] at h
        exact reads_readEndTag (fun r hr => by rwa [← Option.some.inj hr]) h
  · next n hn _ =>
    cases h
    exact reads_take (Nat.pos_of_ne_zero hn) raw

/-! ## Steps outside of raw elements -/

/-- Outside of raw elements a step at a `<` reads what stands there, and takes as text what does not
end. -/
theorem readNext_lt (line : Nat) (t : Text) :
    readNext none line ('<' :: t) =
      match readPiece none line ('<' :: t) with
      | .endless =>
        .events [.text (List.take (strayLength ('<' :: t)) ('<' :: t))]
          (strayLength ('<' :: t)) none
      | piece => piece := rfl

/-- Outside of raw elements a step that is not at a `<` takes the text up to the next one. -/
theorem readNext_of_ne_lt {c : CodePoint} (hc : c.is '<' = false) (line : Nat) (t : Text) :
    readNext none line (c :: t) =
      .events [.text (c :: t.takeWhile fun c => !c.is '<')]
        ((t.takeWhile fun c => !c.is '<').length + 1) none := by
  have htext : ((c :: t).takeWhile fun c => !c.is '<') = c :: t.takeWhile fun c => !c.is '<' := by
    rw [List.takeWhile_cons, hc]
    rfl
  have htake : (c :: t).take ((t.takeWhile fun c => !c.is '<').length + 1) =
      c :: t.takeWhile fun c => !c.is '<' := by
    rw [List.take_succ_cons, ← List.prefix_iff_eq_take.mp (List.takeWhile_prefix _)]
  unfold readNext
  dsimp only
  rw [htext]
  simp only [List.length_cons, htake]

/-! ## Runs -/

/-- What every step preserves holds after all steps. The property may depend on the raw element that
is open, on what has been taken and on what is left, and all steps may be known to have another
property. -/
theorem foldl_steps {σ : Type} {f : σ → Step → σ} {Q : Step → Prop}
    {P : Option Text → Text → Text → σ → Prop}
    (hstep : ∀ {raw before t events length raw' s}, t ≠ [] →
      Reads (lineAfter before) t raw events length raw' → Q ⟨before, piece length t, events⟩ →
      P raw before t s →
      P raw' (before ++ piece length t) (afterPiece length t)
        (f s ⟨before, piece length t, events⟩))
    {raw : Option Text} {before t : Text} {steps : List Step} {s : σ}
    (h : stepsFrom? raw before t = some steps) (hQ : ∀ step ∈ steps, Q step)
    (hs : P raw before t s) : ∃ raw', P raw' (before ++ t) [] (steps.foldl f s) := by
  fun_induction stepsFrom? raw before t generalizing steps s with
  | case1 raw before =>
    cases h
    exact ⟨raw, by rwa [List.append_nil]⟩
  | case2 raw before c t events length raw' hread ih =>
    obtain ⟨others, hothers, rfl⟩ := Option.map_eq_some_iff.mp h
    have hne := List.cons_ne_nil c t
    obtain ⟨hfirst, hrest⟩ := List.forall_mem_cons.mp hQ
    obtain ⟨last, hlast⟩ := ih hothers hrest (hstep hne (reads_readNext hne hread) hfirst hs)
    rw [List.append_assoc, piece_append_afterPiece] at hlast
    exact ⟨last, hlast⟩
  | case3 => cases h
  | case4 => cases h

end MessageExtraction.Markup
