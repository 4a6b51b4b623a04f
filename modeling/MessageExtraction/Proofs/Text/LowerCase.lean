import MessageExtraction.Text.LowerCase

/-!
# Lower case twice

The code points that lower case changes form runs, and lower case moves every run off all of them.
So the lower-case form of a text is its own lower-case form.

## Main definitions

* `CaseRun.holds`, `CodePoint.isCapital` -- the code points that lower case changes.
* `CaseRun.isClear` -- evenly spaced numbers miss a run.

## Main results

* `CodePoint.isCapital_of_mem_lower` -- no lower-case form holds a code point that lower case changes.
* `Text.lower_lower` -- the lower-case form of a lower-case form.
-/

namespace MessageExtraction

namespace CaseRun

/-- A number is that of a code point on a run. -/
def holds (r : CaseRun) (n : Nat) : Bool :=
  r.first ≤ n && n ≤ r.last && (n - r.first) % r.step == 0

/-- Numbers from a first to a last one, a step apart, miss a run: they lie after it or before it, or
they fall between its steps. -/
def isClear (first last step : Nat) (r : CaseRun) : Bool :=
  Nat.blt r.last first || Nat.blt last r.first ||
    ((first == last || step % r.step == 0) && r.first ≤ first && (first - r.first) % r.step != 0)

theorem holds_eq_false_of_isClear {r : CaseRun} {first last step k : Nat}
    (h : isClear first last step r = true) (hk : first + k * step ≤ last) :
    r.holds (first + k * step) = false := by
  rw [Bool.eq_false_iff]
  intro hholds
  simp only [holds, Bool.and_eq_true, decide_eq_true_eq, beq_iff_eq] at hholds
  obtain ⟨⟨hfirst, hlast⟩, hmod⟩ := hholds
  simp only [isClear, Bool.or_eq_true, Nat.blt_eq, Bool.and_eq_true, beq_iff_eq, bne_iff_ne,
    decide_eq_true_eq] at h
  rcases h with (h | h) | ⟨⟨hstep, hle⟩, hne⟩
  · omega
  · omega
  · have hmultiple : k * step % r.step = 0 := by
      rcases hstep with hsame | hstep
      · have hzero : k * step = 0 := by omega
        rw [hzero, Nat.zero_mod]
      · rw [Nat.mul_mod, hstep, Nat.mul_zero, Nat.zero_mod]
    rw [Nat.sub_add_comm hle, Nat.add_mod, hmultiple, Nat.add_zero, Nat.mod_mod] at hmod
    exact hne hmod

theorem image?_eq (r : CaseRun) (c : CodePoint) :
    r.image? c =
      if r.holds c.val = true then CodePoint.ofNat? (c.val + r.distance).toNat else none :=
  rfl

theorem image?_eq_none {r : CaseRun} {c : CodePoint} (h : r.holds c.val = false) :
    r.image? c = none := by
  rw [image?_eq, h]
  rfl

/-- A run that moves its code points to code points holds none that it does not move. -/
theorem holds_eq_false_of_image? {r : CaseRun} {c : CodePoint}
    (hlast : r.last + r.distance < 0x110000) (h : r.image? c = none) : r.holds c.val = false := by
  rw [Bool.eq_false_iff]
  intro hholds
  rw [image?_eq, if_pos hholds, CodePoint.ofNat?, dif_pos] at h
  · cases h
  · simp only [holds, Bool.and_eq_true, decide_eq_true_eq] at hholds
    omega

end CaseRun

namespace CodePoint

/-- The runs of the code points that lower case changes. -/
def capitalRuns : List CaseRun :=
  ⟨65, 90, 1, 32⟩ :: ⟨0x130, 0x130, 1, 0⟩ :: lowerRuns

/-- Lower case changes the code point of a number. -/
def isCapital (n : Nat) : Bool :=
  capitalRuns.any fun r => r.holds n

/-- Lower case moves every run off all runs. -/
theorem isClear_lowerRuns : lowerRuns.all fun r => capitalRuns.all
    (CaseRun.isClear (r.first + r.distance).toNat (r.last + r.distance).toNat r.step) := by
  decide +kernel

theorem lowerRuns_fit : ∀ r ∈ lowerRuns,
    0x80 ≤ r.first ∧ 0 < r.step ∧ 0 ≤ r.first + r.distance ∧ r.last + r.distance < 0x110000 := by
  decide +kernel

/-- Lower case changes the capital letters of ASCII, the capital I with dot and the code points on
the runs. -/
theorem isCapital_eq_false_iff {n : Nat} :
    isCapital n = false ↔
      ¬ (65 ≤ n ∧ n ≤ 90) ∧ n ≠ 0x130 ∧ ∀ r ∈ lowerRuns, r.holds n = false := by
  simp only [isCapital, capitalRuns, List.any_cons, Bool.or_eq_false_iff, List.any_eq_false,
    Bool.not_eq_true]
  refine and_congr ?_ (and_congr ?_ Iff.rfl)
  · simp [CaseRun.holds, Nat.mod_one]
  · simp only [CaseRun.holds, Nat.mod_one, beq_self_eq_true, Bool.and_true, Bool.and_eq_false_iff,
      decide_eq_false_iff_not]
    omega

/-- The code point that a run moves another one to is not changed by lower case. -/
theorem isCapital_of_image? {r : CaseRun} {c d : CodePoint} (hr : r ∈ lowerRuns)
    (h : r.image? d = some c) : isCapital c.val = false := by
  rw [CaseRun.image?_eq] at h
  split at h
  · next hon =>
    simp only [CaseRun.holds, Bool.and_eq_true, decide_eq_true_eq, beq_iff_eq] at hon
    obtain ⟨⟨hfirst, hlast⟩, hmod⟩ := hon
    obtain ⟨-, hstep, hfit, -⟩ := lowerRuns_fit r hr
    have hd : d.val = r.first + (d.val - r.first) / r.step * r.step := by
      have := Nat.div_add_mod' (d.val - r.first) r.step
      omega
    have hc : c.val = (r.first + r.distance).toNat + (d.val - r.first) / r.step * r.step := by
      rw [ofNat?] at h
      split at h
      · cases h
        simp only
        omega
      · cases h
    rw [isCapital, List.any_eq_false]
    intro q hq
    have hclear := List.all_eq_true.mp (List.all_eq_true.mp isClear_lowerRuns r hr) q hq
    rw [hc, CaseRun.holds_eq_false_of_isClear hclear (by omega)]
    exact Bool.false_ne_true
  · cases h

theorem isCapital_of_ascii {n : Nat} (hn : n < 0x80) (h : ¬ (65 ≤ n ∧ n ≤ 90)) :
    isCapital n = false := by
  refine isCapital_eq_false_iff.mpr ⟨h, by omega, fun r hr => ?_⟩
  have hfirst := (lowerRuns_fit r hr).1
  simp only [CaseRun.holds, Bool.and_eq_false_iff, decide_eq_false_iff_not]
  omega

/-- A code point of the lower-case form of another one is not changed by lower case. -/
theorem isCapital_of_mem_lower {c d : CodePoint} (h : c ∈ d.lower) : isCapital c.val = false := by
  rw [lower] at h
  split at h
  · next hascii =>
    split at h
    · next hletter =>
      simp only [between, Bool.and_eq_true, decide_eq_true_eq] at hletter
      obtain ⟨hA, hZ⟩ : 65 ≤ d.val ∧ d.val ≤ 90 := hletter
      have hc : c.val = d.val + 32 := by
        rw [ofNat?, dif_pos (by omega)] at h
        rw [List.mem_singleton.mp h]
      exact isCapital_of_ascii (by omega) (by omega)
    · next hletter =>
      rw [List.mem_singleton.mp h]
      refine isCapital_of_ascii hascii fun hrange => hletter ?_
      simpa [between] using hrange
  · next hascii =>
    split at h
    · rcases List.mem_cons.mp h with rfl | h
      · decide +kernel
      · rw [List.mem_singleton.mp h]
        decide +kernel
    · next hdotted =>
      rw [List.mem_singleton.mp h, mapRuns]
      cases hfound : lowerRuns.findSome? fun r => r.image? d with
      | some e =>
        obtain ⟨r, hr, himage⟩ := List.exists_of_findSome?_eq_some hfound
        exact isCapital_of_image? hr himage
      | none =>
        refine isCapital_eq_false_iff.mpr ⟨?_, hdotted, fun r hr => ?_⟩
        · rw [Option.getD_none]
          omega
        · exact CaseRun.holds_eq_false_of_image? (lowerRuns_fit r hr).2.2.2
            (List.findSome?_eq_none_iff.mp hfound r hr)

/-- What lower case does not change is its own lower-case form. -/
theorem lower_of_isCapital_eq_false {c : CodePoint} (h : isCapital c.val = false) :
    c.val ≠ 0x3A3 ∧ c.lower = [c] := by
  obtain ⟨hletter, hdotted, hruns⟩ := isCapital_eq_false_iff.mp h
  constructor
  · intro hsigma
    rw [hsigma] at h
    exact absurd h (by decide +kernel)
  · rw [lower]
    split
    · rw [if_neg]
      simpa [between] using hletter
    · rw [mapRuns, List.findSome?_eq_none_iff.mpr]
      · rfl
      · exact fun r hr => CaseRun.image?_eq_none (hruns r hr)

end CodePoint

/-- The lower-case form of a text is its own lower-case form. -/
theorem Text.lower_lower (t : Text) : lower (lower t) = lower t := by
  refine lower_eq_self fun c hc => CodePoint.lower_of_isCapital_eq_false ?_
  rcases mem_lower hc with rfl | rfl | ⟨d, -, -, hc⟩
  · decide +kernel
  · decide +kernel
  · exact CodePoint.isCapital_of_mem_lower hc

end MessageExtraction
