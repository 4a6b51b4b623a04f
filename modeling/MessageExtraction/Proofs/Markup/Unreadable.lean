import MessageExtraction.Proofs.Markup.Steps
import Mathlib.Data.List.TakeWhile

/-!
# Unreadable documents

One thing alone makes a document unreadable: that reading reaches a marked section of a
kind that is not known. A document without `<![` is read whatever it holds.

## Main definitions

* `Markup.UnknownSection` -- a marked section of unknown kind stands at the start of a text.
* `Markup.Reaches` -- reading gets from one place to another.

## Main results

* `Markup.parse?_eq_none_iff` -- what makes a document unreadable.
-/

namespace MessageExtraction.Markup

/-- The name of a marked section at the start of a text. -/
def sectionName (t : Text) : Text :=
  t.takeWhile fun c => c.isAsciiLetter || c.isAsciiDigit || c.isAny ['-', '_', '.']

/-- A marked section of unknown kind stands at the start of a text: after `<![` there is something
that is no name, or a name that is not known and that something other than blanks follows. -/
def UnknownSection (t : Text) : Prop :=
  ∃ c body, t = Text.ofString "<![" ++ c :: body ∧ (c.isAsciiLetter = true →
    ¬ Text.isBlank ((c :: body).drop (sectionName (c :: body)).length) = true ∧
      Text.lower (sectionName (c :: body)) ∉ sectionNames ++ conditionNames)

theorem length_eq_blankLength_iff {t : Text} :
    t.length = Text.blankLength t ↔ Text.isBlank t = true := by
  rw [Text.blankLength, Text.isBlank]
  constructor
  · intro h
    rw [← (List.takeWhile_prefix CodePoint.isBlank).eq_of_length h.symm]
    exact List.all_takeWhile
  · intro h
    rw [List.takeWhile_eq_self_iff.mpr (List.all_eq_true.mp h)]

section

variable {line : Nat} {t : Text} {raw : Option Text}

theorem readEndTag_ne_unreadable : readEndTag raw t ≠ .unreadable := by
  intro h
  rw [readEndTag] at h
  dsimp only at h
  repeat' split at h
  all_goals cases h

theorem readComment_ne_unreadable : readComment t ≠ .unreadable := by
  intro h
  rw [readComment] at h
  split at h <;> cases h

theorem readSection_ne_unreadable {close : Text → Option Nat} :
    readSection t close ≠ .unreadable := by
  intro h
  rw [readSection] at h
  dsimp only at h
  split at h <;> cases h

theorem readUpToClosing_ne_unreadable {kind : SpecialKind} {skipped dropped : Nat} :
    readUpToClosing kind skipped dropped t ≠ .unreadable := by
  intro h
  rw [readUpToClosing] at h
  split at h <;> cases h

theorem readMarkedSection_eq_unreadable_iff {body : Text} :
    readMarkedSection (Text.ofString "<![" ++ body) = .unreadable ↔
      UnknownSection (Text.ofString "<![" ++ body) := by
  cases body with
  | nil =>
    refine iff_of_false (fun h => by cases h) ?_
    rintro ⟨c, body, h, -⟩
    exact absurd (List.append_cancel_left h) (List.cons_ne_nil c body).symm
  | cons c body =>
    have hdrop : (Text.ofString "<![" ++ c :: body).drop 3 = c :: body := rfl
    have hunknown : UnknownSection (Text.ofString "<![" ++ c :: body) ↔ (c.isAsciiLetter = true →
        ¬ Text.isBlank ((c :: body).drop (sectionName (c :: body)).length) = true ∧
          Text.lower (sectionName (c :: body)) ∉ sectionNames ++ conditionNames) := by
      constructor
      · rintro ⟨d, rest, h, hd⟩
        obtain ⟨rfl, rfl⟩ := List.cons.inj (List.append_cancel_left h)
        exact hd
      · exact fun h => ⟨c, body, rfl, h⟩
    rw [hunknown, readMarkedSection, hdrop]
    dsimp only
    rw [show ((c :: body).takeWhile fun c => c.isAsciiLetter || c.isAsciiDigit ||
      c.isAny ['-', '_', '.']) = sectionName (c :: body) from rfl]
    simp only [← length_eq_blankLength_iff, List.mem_append, not_or]
    by_cases hc : c.isAsciiLetter = true
    · simp only [hc, if_true, forall_const]
      split
      · next hblank => exact iff_of_false (fun h => by cases h) fun h => h.1 hblank
      · next hblank =>
        split
        · next hknown =>
          exact iff_of_false readSection_ne_unreadable
            fun h => h.2.1 (List.contains_iff_mem.mp hknown)
        · next hsection =>
          split
          · next hknown =>
            exact iff_of_false readSection_ne_unreadable
              fun h => h.2.2 (List.contains_iff_mem.mp hknown)
          · next hcondition =>
            refine iff_of_true rfl ⟨hblank, ?_, ?_⟩
            · exact fun h => hsection (List.contains_iff_mem.mpr h)
            · exact fun h => hcondition (List.contains_iff_mem.mpr h)
    · rw [if_neg hc]
      exact iff_of_true rfl fun h => absurd h hc

theorem readPiece_eq_unreadable_iff {t : Text} :
    readPiece none line ('<' :: t) = .unreadable ↔ UnknownSection ('<' :: t) := by
  by_cases hsection : ∃ body, CodePoint.ofChar '<' :: t = Text.ofString "<![" ++ body
  · obtain ⟨body, hbody⟩ := hsection
    rw [hbody]
    exact readMarkedSection_eq_unreadable_iff
  · refine iff_of_false (fun h => hsection ?_) fun ⟨c, body, h, _⟩ => hsection ⟨c :: body, h⟩
    rw [readPiece] at h
    split at h
    · cases h
    · next c others hothers =>
      obtain rfl : t = c :: others := hothers
      split at h
      · split at h <;> cases h
      · split at h
        · exact absurd h readEndTag_ne_unreadable
        · split at h
          · next hmark =>
            obtain rfl := CodePoint.is_iff.mp hmark
            split at h
            · exact absurd h readComment_ne_unreadable
            · split at h
              · next hbracket =>
                obtain ⟨rest, hrest⟩ := Option.isSome_iff_exists.mp hbracket
                exact ⟨rest, by rw [Text.after?_eq_some.mp hrest]; rfl⟩
              · split at h <;> exact absurd h readUpToClosing_ne_unreadable
          · split at h
            · exact absurd h readUpToClosing_ne_unreadable
            · cases h

/-- A step fails just at an unknown section outside of raw elements. -/
theorem readNext_eq_unreadable_iff :
    readNext raw line t = .unreadable ↔ raw = none ∧ UnknownSection t := by
  cases raw with
  | some name =>
    refine iff_of_false (fun h => ?_) fun h => by cases h.1
    unfold readNext at h
    dsimp only at h
    split at h
    · cases h
    · next hzero =>
      rw [readPiece_of_endsRaw (endsRaw_of_search hzero)] at h
      split at h
      · cases h
      · exact readEndTag_ne_unreadable h
    · cases h
  | none =>
    cases t with
    | nil =>
      refine iff_of_false (fun h => by cases h) ?_
      rintro ⟨-, c, body, h, -⟩
      cases h
    | cons c t =>
      cases hc : c.is '<' with
      | false =>
        rw [readNext_of_ne_lt hc]
        refine iff_of_false (fun h => by cases h) ?_
        rintro ⟨-, d, body, hunknown, -⟩
        obtain rfl := (List.cons.inj hunknown).1
        cases hc
      | true =>
        obtain rfl := CodePoint.is_iff.mp hc
        rw [readNext_lt, and_iff_right rfl, ← @readPiece_eq_unreadable_iff line]
        split
        · next h => exact iff_of_false (fun h => by cases h) (by rw [h]; exact fun h => by cases h)
        · exact Iff.rfl

theorem readNext_ne_endless : readNext raw line t ≠ .endless := by
  intro h
  unfold readNext at h
  dsimp only at h
  split at h
  · cases h
  · split at h
    · cases h
    · next hne => exact hne h
  · cases h

end

/-- Reading gets from one place to another. A place is known by the raw element that is open, by
what stands before it and by what comes after it. -/
inductive Reaches : (raw : Option Text) → (before t : Text) →
    (raw' : Option Text) → (before' t' : Text) → Prop
  | here (raw : Option Text) (before t : Text) : Reaches raw before t raw before t
  | step {raw raw' last : Option Text} {before t before' t' : Text} {events : List Event}
      {length : Nat} (hne : t ≠ [])
      (hread : readNext raw (lineAfter before) t = .events events length raw')
      (h : Reaches raw' (before ++ piece length t) (afterPiece length t) last before' t') :
      Reaches raw before t last before' t'

theorem stepsFrom?_eq_none_iff {raw : Option Text} {before t : Text} :
    stepsFrom? raw before t = none ↔
      ∃ before' t', Reaches raw before t none before' t' ∧ UnknownSection t' := by
  fun_induction stepsFrom? raw before t with
  | case1 raw before =>
    refine iff_of_false (fun h => by cases h) ?_
    rintro ⟨before', t', hreaches, hunknown⟩
    cases hreaches with
    | here =>
      obtain ⟨c, body, h, -⟩ := hunknown
      cases h
    | step hne => exact hne rfl
  | case2 raw before c t events length raw' hread ih =>
    rw [Option.map_eq_none_iff, ih]
    constructor
    · rintro ⟨before', t', hreaches, hunknown⟩
      exact ⟨before', t', .step (List.cons_ne_nil c t) hread hreaches, hunknown⟩
    · rintro ⟨before', t', hreaches, hunknown⟩
      cases hreaches with
      | here =>
        have hunreadable : readNext none (lineAfter before) (c :: t) = .unreadable :=
          readNext_eq_unreadable_iff.mpr ⟨rfl, hunknown⟩
        rw [hread] at hunreadable
        cases hunreadable
      | step _ hstep hreaches =>
        rw [hread] at hstep
        cases hstep
        exact ⟨before', t', hreaches, hunknown⟩
  | case3 raw before c t hread => exact absurd hread readNext_ne_endless
  | case4 raw before c t hread =>
    obtain ⟨rfl, hunknown⟩ := readNext_eq_unreadable_iff.mp hread
    exact iff_of_true rfl ⟨before, c :: t, .here .., hunknown⟩

/-- A document is unreadable just if reading reaches a marked section of unknown kind. -/
theorem parse?_eq_none_iff {document : Text} :
    parse? document = none ↔
      ∃ before t, Reaches none [] document none before t ∧ UnknownSection t := by
  rw [parse?, Option.map_eq_none_iff, read?_eq, Option.map_eq_none_iff]
  exact stepsFrom?_eq_none_iff

end MessageExtraction.Markup
