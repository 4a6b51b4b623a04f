import MessageExtraction.Extraction
import MessageExtraction.Proofs.Catalog.Consistency

/-!
# The order of sources

Extraction from several sources records what scanning them yields, one after
another. It succeeds just if no scan fails and all candidates are consistent,
and the catalog then depends on which candidates there are alone. So neither the
order of the sources nor how often each of them is extracted makes a difference.

## Main definitions

* `candidatesIn` -- the candidates among what scanning yields.

## Main results

* `Options.extract_eq_record` -- extraction records what all sources yield, as if they were one.
* `Options.extract_error_eq_none_iff` -- when extraction succeeds.
* `Options.extract_of_mem_iff` -- the same sources lead to the same catalog in any order.
-/

namespace MessageExtraction

/-- The candidate of an event, if it is one. -/
def ScanEvent.candidate? : ScanEvent → Option Candidate
  | .candidate x => some x
  | _ => none

/-- The candidates among what scanning yields. -/
def candidatesIn (events : List ScanEvent) : List Candidate :=
  events.filterMap ScanEvent.candidate?

theorem mem_candidatesIn {events : List ScanEvent} {x : Candidate} :
    x ∈ candidatesIn events ↔ .candidate x ∈ events := by
  rw [candidatesIn, List.mem_filterMap]
  constructor
  · rintro ⟨event, hevent, hx⟩
    cases event with
    | candidate y => rwa [← Option.some.inj hx]
    | notice _ => exact absurd hx (Option.some_ne_none _).symm
    | failure _ => exact absurd hx (Option.some_ne_none _).symm
  · exact fun h => ⟨_, h, rfl⟩

namespace Catalog

/-- Recording events one after the other goes on after the first ones unless these fail. -/
theorem record_append (c : Catalog) (first others : List ScanEvent) :
    c.record (first ++ others) =
      match (c.record first).error with
      | some _ => c.record first
      | none =>
        let rest := (c.record first).catalog.record others
        { rest with notices := (c.record first).notices ++ rest.notices } := by
  induction first generalizing c with
  | nil => rfl
  | cons event first ih =>
    cases event with
    | notice n =>
      simp only [List.cons_append, record, ih]
      split <;> next h => simp only [h]
    | failure e => rfl
    | candidate x =>
      simp only [List.cons_append, record]
      rcases c.add x with ⟨after, _ | conflict⟩
      · exact ih after
      · rfl

/-- Recording succeeds just if no scan fails and the catalog accepts the candidates. -/
theorem record_error_eq_none_iff {c : Catalog} {events : List ScanEvent} :
    (c.record events).error = none ↔
      (∀ f, .failure f ∉ events) ∧ c.Accepts (candidatesIn events) := by
  induction events generalizing c with
  | nil => exact iff_of_true rfl ⟨fun _ => List.not_mem_nil, trivial⟩
  | cons event events ih =>
    cases event with
    | notice n =>
      have hcalls : candidatesIn (.notice n :: events) = candidatesIn events := rfl
      rw [show (c.record (.notice n :: events)).error = (c.record events).error from rfl, ih,
        hcalls]
      simp
    | failure e =>
      refine iff_of_false (Option.some_ne_none _) fun h => ?_
      exact h.1 e List.mem_cons_self
    | candidate x =>
      have hcalls : candidatesIn (.candidate x :: events) = x :: candidatesIn events := rfl
      rw [hcalls, record, Accepts]
      rcases c.add x with ⟨after, _ | conflict⟩
      · simp [ih]
      · simp

/-- A catalog that accepts what is recorded holds all candidates. -/
theorem record_catalog {c : Catalog} {events : List ScanEvent}
    (h : (c.record events).error = none) :
    (c.record events).catalog = c.addAll (candidatesIn events) := by
  induction events generalizing c with
  | nil => rfl
  | cons event events ih =>
    cases event with
    | notice n => exact ih h
    | failure e => exact absurd h (Option.some_ne_none _)
    | candidate x =>
      have hcalls : candidatesIn (.candidate x :: events) = x :: candidatesIn events := rfl
      rw [hcalls, addAll, List.foldl_cons]
      rw [record] at h ⊢
      rcases hadd : c.add x with ⟨after, _ | conflict⟩
      · rw [hadd] at h
        exact ih h
      · rw [hadd] at h
        exact absurd h (Option.some_ne_none _)

/-- If recording stops at a failed scan, scanning has yielded the failure. -/
theorem mem_of_record_error {c : Catalog} {events : List ScanEvent} {f : ScanFailure}
    (h : (c.record events).error = some (.failure f)) : .failure f ∈ events := by
  induction events generalizing c with
  | nil => exact absurd h (Option.some_ne_none _).symm
  | cons event events ih =>
    cases event with
    | notice n => exact List.mem_cons_of_mem _ (ih h)
    | failure e =>
      obtain rfl : e = f := ExtractionError.failure.inj (Option.some.inj h)
      exact List.mem_cons_self
    | candidate x =>
      rw [record] at h
      rcases hadd : c.add x with ⟨after, _ | conflict⟩
      · rw [hadd] at h
        exact List.mem_cons_of_mem _ (ih h)
      · rw [hadd] at h
        exact absurd (Option.some.inj h) ExtractionError.noConfusion

end Catalog

namespace Options

variable (o : Options)

/-- Extraction from several sources records what all of them yield, as if they were one. -/
theorem extractInto_eq_record (c : Catalog) (sources : List Source) :
    o.extractInto c sources = c.record (sources.flatMap o.events) := by
  induction sources generalizing c with
  | nil => rfl
  | cons s sources ih =>
    rw [List.flatMap_cons, Catalog.record_append, extractInto]
    cases (c.record (o.events s)).error with
    | some e => rfl
    | none => simp only [ih]

/-- The candidates that sources yield. -/
def candidatesOf (sources : List Source) : List Candidate :=
  candidatesIn (sources.flatMap o.events)

/-- Extraction succeeds just if no scan fails and the candidates are consistent. -/
theorem extract_error_eq_none_iff {sources : List Source} :
    (o.extract sources).error = none ↔
      (∀ s ∈ sources, ∀ f, .failure f ∉ o.events s) ∧ Consistent (o.candidatesOf sources) := by
  rw [extract, extractInto_eq_record, Catalog.record_error_eq_none_iff,
    show o.emptyCatalog = Catalog.after o.lineNumbers [] from rfl, Catalog.accepts_iff_consistent]
  simp only [List.mem_flatMap, not_exists, not_and]
  exact and_congr_left fun _ => ⟨fun h s hs f => h f s hs, fun h f s hs => h s hs f⟩

theorem extract_catalog {sources : List Source} (h : (o.extract sources).error = none) :
    (o.extract sources).catalog = Catalog.after o.lineNumbers (o.candidatesOf sources) := by
  rw [extract, extractInto_eq_record] at h ⊢
  exact Catalog.record_catalog h

/-- Where no scan fails, extraction meets a conflict or succeeds. -/
theorem exists_conflict_iff {sources : List Source}
    (hscans : ∀ s ∈ sources, ∀ f, .failure f ∉ o.events s) :
    (∃ e, (o.extract sources).error = some (.conflict e)) ↔ (o.extract sources).error ≠ none := by
  refine ⟨fun ⟨e, he⟩ hnone => ?_, fun h => ?_⟩
  · rw [he] at hnone
    exact Option.some_ne_none _ hnone
  · obtain ⟨error, herror⟩ := Option.ne_none_iff_exists'.mp h
    cases error with
    | conflict e => exact ⟨e, herror⟩
    | failure f =>
      rw [extract, extractInto_eq_record] at herror
      obtain ⟨s, hs, hf⟩ := List.mem_flatMap.mp (Catalog.mem_of_record_error herror)
      exact absurd hf (hscans s hs f)

/-- **Extraction does not depend on the order of the sources.** If it succeeds, it succeeds on any
list of the same sources, in any order and with any repeats, and then lists the same entries and
renders the same file. Where no scan fails, a conflict of plural forms arises on both lists or on
neither. -/
theorem extract_of_mem_iff {sources others : List Source}
    (hmem : ∀ s, s ∈ others ↔ s ∈ sources) :
    ((o.extract others).error = none ↔ (o.extract sources).error = none) ∧
    ((o.extract sources).error = none →
      (o.extract others).catalog.entries = (o.extract sources).catalog.entries ∧
      (o.extract others).catalog.size = (o.extract sources).catalog.size ∧
      o.render (o.extract others).catalog = o.render (o.extract sources).catalog) ∧
    ((∀ s ∈ sources, ∀ f, .failure f ∉ o.events s) →
      ((∃ e, (o.extract others).error = some (.conflict e)) ↔
        ∃ e, (o.extract sources).error = some (.conflict e))) := by
  have hcandidates : ∀ x, x ∈ o.candidatesOf others ↔ x ∈ o.candidatesOf sources := fun x => by
    simp only [candidatesOf, mem_candidatesIn, List.mem_flatMap, hmem]
  have herror : (o.extract others).error = none ↔ (o.extract sources).error = none := by
    rw [extract_error_eq_none_iff, extract_error_eq_none_iff]
    simp only [hmem]
    exact and_congr_right fun _ => ⟨fun h => h.subset fun x => (hcandidates x).mpr,
      fun h => h.subset fun x => (hcandidates x).mp⟩
  refine ⟨herror, fun hok => ?_, fun hscans => ?_⟩
  · have hentries :
        (o.extract others).catalog.entries = (o.extract sources).catalog.entries := by
      rw [extract_catalog o hok, extract_catalog o (herror.mpr hok)]
      refine Catalog.entries_congr (Catalog.wellFormed_after _ _) (Catalog.wellFormed_after _ _) ?_
      exact Catalog.find?_after_congr _ ((extract_error_eq_none_iff o).mp hok).2 hcandidates
    refine ⟨hentries, ?_, ?_⟩
    · rw [← Catalog.length_entries, ← Catalog.length_entries, hentries]
    · rw [render, render, Po.Document.ofCatalog, Po.Document.ofCatalog, hentries]
  · rw [exists_conflict_iff o hscans, exists_conflict_iff o fun s hs => hscans s ((hmem s).mp hs),
      ne_eq, ne_eq, herror]

/-- A script with a message in two forms. -/
def countingScript : Source :=
  ⟨"birds.js", "gettextCatalog.getPlural(n, 'Bird', 'Birds')"⟩

/-- A template with the same message in one form. -/
def namingTemplate : Source :=
  ⟨"bird.html", "<p translate>Bird</p>"⟩

/-- Extracting the template before the script, and once more after it, changes nothing. -/
theorem extract_template_twice :
    (∀ s, s ∈ [namingTemplate, countingScript, namingTemplate] ↔
      s ∈ [countingScript, namingTemplate]) ∧
    (extract {} [countingScript, namingTemplate]).error = none ∧
    (extract {} [namingTemplate, countingScript, namingTemplate]).error = none ∧
    (extract {} [namingTemplate, countingScript, namingTemplate]).catalog.entries =
      (extract {} [countingScript, namingTemplate]).catalog.entries ∧
    (extract {} [countingScript, namingTemplate]).catalog.size = 1 := by
  have hmem : ∀ s, s ∈ [namingTemplate, countingScript, namingTemplate] ↔
      s ∈ [countingScript, namingTemplate] := by
    intro s
    simp only [List.mem_cons, List.not_mem_nil, or_false]
    exact ⟨fun h => h.elim Or.inr id, Or.inr⟩
  have hok : (extract {} [countingScript, namingTemplate]).error = none := by decide +kernel
  have h := extract_of_mem_iff {} hmem
  exact ⟨hmem, hok, h.1.mpr hok, (h.2.1 hok).1, by decide +kernel⟩

end Options

end MessageExtraction
