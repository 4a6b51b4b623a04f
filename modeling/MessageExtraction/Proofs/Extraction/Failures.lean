import MessageExtraction.CommandLine.Run
import MessageExtraction.Proofs.Extraction.SourceOrder
import MessageExtraction.Proofs.Markup.Unreadable
import MessageExtraction.Proofs.Script.Failures
import MessageExtraction.Proofs.Template.Nesting

/-!
# Sources that end an extraction

Whatever a source holds, there are two things that scanning does not get past: an escape beyond the
last code point in an argument that marks a message, and a marked section of unknown kind. They end
the extraction wherever they stand, in a source or in a script or a template within it, and no
source after it is read. Nothing but these and conflicts of plural forms ends an extraction.

## Main definitions

* `Template.FaultyTemplate` -- a template that cannot be scanned.
* `Options.FaultySource` -- a source that cannot be scanned.

## Main results

* `Template.failure_mem_scan_iff` -- which templates cannot be scanned.
* `Options.extractInto_ends` -- when an extraction goes through and what ends one.
* `CommandLine.runOn_of_faulty` -- a faulty file ends a run of the command line.
-/

namespace MessageExtraction

namespace Template

open Markup

/-- A template is unreadable, or an element in it holds a faulty script or a faulty template. -/
inductive FaultyTemplate (markers : List Text) : Text → Prop
  | unreadable {document before t : Text}
      (hreaches : Reaches none [] (protectEntities document) none before t)
      (hunknown : UnknownSection t) : FaultyTemplate markers document
  | code {document : Text} {nodes : List Node} {e : PlacedElement}
      (hnodes : parse? (protectEntities document) = some nodes)
      (he : e ∈ elementsOfNodes (lineCount document) nodes) (hrole : e.role = .code)
      (h : Script.FaultyScript markers e.rawText) : FaultyTemplate markers document
  | template {document : Text} {nodes : List Node} {e : PlacedElement}
      (hnodes : parse? (protectEntities document) = some nodes)
      (he : e ∈ elementsOfNodes (lineCount document) nodes) (hrole : e.role = .template)
      (h : FaultyTemplate markers e.rawText) : FaultyTemplate markers document

variable {d : Delimiters} {file : Text} {f : ScanFailure}

theorem failure_not_mem_notices_append_messages (notices : List Notice) (line : Int)
    (messages : List Text) :
    ScanEvent.failure f ∉ notices.map .notice ++ messages.map (plainCandidate file line) := by
  simp [plainCandidate]

theorem failure_not_mem_textEvents (line : Int) (text : Text) :
    .failure f ∉ textEvents d file line text := by
  intro h
  obtain ⟨expression, -, h⟩ := List.mem_flatMap.mp h
  exact failure_not_mem_notices_append_messages _ _ _ h

theorem failure_not_mem_valueEvents (line : Int) (value : Text) :
    .failure f ∉ valueEvents d file line value := by
  rw [valueEvents]
  split
  · exact List.not_mem_nil
  · exact failure_not_mem_notices_append_messages _ _ _

/-- Attributes and texts can always be scanned. -/
theorem failure_not_mem_plainEvents (e : PlacedElement) (offset : Int) :
    .failure f ∉ e.plainEvents d file offset := by
  intro h
  rcases List.mem_append.mp h with h | h
  · obtain ⟨a, -, h⟩ := List.mem_flatMap.mp h
    exact failure_not_mem_valueEvents _ _ h
  · obtain ⟨r, -, h⟩ := List.mem_flatMap.mp h
    exact failure_not_mem_textEvents _ _ h

/-- An element cannot be scanned just if the script or the template that it holds cannot. -/
theorem failure_mem_events_iff {e : PlacedElement} {s : Setting} {offset : Int}
    {scanTemplate : Int → Text → List ScanEvent} :
    (∃ f, .failure f ∈ e.events s file offset scanTemplate) ↔
      e.role = .code ∧ Script.FaultyScript s.markers e.rawText ∨
      e.role = .template ∧ ∃ f, .failure f ∈ scanTemplate (offset + e.line - 1) e.rawText := by
  rw [PlacedElement.events]
  split
  · next hrole => simp [hrole]
  · next hrole => simp [hrole, Script.failure_mem_scan_iff]
  · next hrole => simp [hrole]
  · next hrole => simp [hrole, failure_not_mem_plainEvents]

theorem failure_mem_nodesEvents_iff {s : Setting} {offset lastLine : Int} {nodes : List Node}
    {scanTemplate : Int → Text → List ScanEvent} :
    (∃ f, .failure f ∈ nodesEvents s file offset lastLine nodes scanTemplate) ↔
      ∃ e ∈ elementsOfNodes lastLine nodes,
        ∃ f, .failure f ∈ e.events s file offset scanTemplate := by
  rw [nodesEvents]
  constructor
  · rintro ⟨f, hf⟩
    rcases List.mem_append.mp hf with h | h
    · obtain ⟨r, -, h⟩ := List.mem_flatMap.mp h
      exact absurd h (failure_not_mem_textEvents _ _)
    · obtain ⟨e, he, h⟩ := List.mem_flatMap.mp h
      exact ⟨e, he, f, h⟩
  · rintro ⟨e, he, f, hf⟩
    exact ⟨f, List.mem_append_right _ (List.mem_flatMap.mpr ⟨e, he, hf⟩)⟩

/-- A template cannot be scanned just if it is faulty. -/
theorem failure_mem_scan_iff {s : Setting} {offset : Int} {document : Text} :
    (∃ f, .failure f ∈ scan s file offset document) ↔ FaultyTemplate s.markers document := by
  -- The templates in a document are shorter than it is, so the statement is known of them.
  induction hlength : document.length using Nat.strongRecOn generalizing document offset with
  | ind length ih =>
    subst hlength
    rw [scan_eq]
    cases hparse : parse? (protectEntities document) with
    | none =>
      obtain ⟨before, t, hreaches, hunknown⟩ := parse?_eq_none_iff.mp hparse
      exact iff_of_true ⟨_, List.mem_cons_self⟩ (.unreadable hreaches hunknown)
    | some nodes =>
      dsimp only
      rw [failure_mem_nodesEvents_iff]
      constructor
      · rintro ⟨e, he, h⟩
        rcases failure_mem_events_iff.mp h with ⟨hrole, hscript⟩ | ⟨hrole, htemplate⟩
        · exact .code hparse he hrole hscript
        · have hlt := length_rawText_lt hparse he (.inl hrole)
          exact .template hparse he hrole ((ih _ hlt rfl).mp htemplate)
      · intro h
        cases h with
        | unreadable hreaches hunknown =>
          rw [parse?_eq_none_iff.mpr ⟨_, _, hreaches, hunknown⟩] at hparse
          cases hparse
        | code hnodes he hrole hscript =>
          cases hparse.symm.trans hnodes
          exact ⟨_, he, failure_mem_events_iff.mpr (.inl ⟨hrole, hscript⟩)⟩
        | template hnodes he hrole htemplate =>
          cases hparse.symm.trans hnodes
          have hlt := length_rawText_lt hparse he (.inl hrole)
          exact ⟨_, he, failure_mem_events_iff.mpr (.inr ⟨hrole, (ih _ hlt rfl).mpr htemplate⟩)⟩

end Template

namespace Options

variable (o : Options)

/-- A source is scanned as a script or a template that is faulty. -/
def FaultySource (s : Source) : Prop :=
  match o.strategy? s.extension with
  | some .template => Template.FaultyTemplate o.markers s.content
  | some .script => Script.FaultyScript o.markers s.content
  | none => False

theorem failure_mem_events_iff {s : Source} :
    (∃ f, .failure f ∈ o.events s) ↔ o.FaultySource s := by
  rw [events, FaultySource]
  cases o.strategy? s.extension with
  | none => exact iff_of_false (by simp) not_false
  | some strategy =>
    cases strategy with
    | template => exact Template.failure_mem_scan_iff
    | script => exact Script.failure_mem_scan_iff

/-- A faulty source ends an extraction if nothing has ended it before. -/
theorem exists_error_of_faulty {sources : List Source} {s : Source} (hs : s ∈ sources)
    (h : o.FaultySource s) (c : Catalog) : ∃ e, (o.extractInto c sources).error = some e := by
  obtain ⟨f, hf⟩ := (o.failure_mem_events_iff).mpr h
  refine Option.ne_none_iff_exists'.mp fun hnone => ?_
  rw [extractInto_eq_record] at hnone
  exact (Catalog.record_error_eq_none_iff.mp hnone).1 f (List.mem_flatMap.mpr ⟨s, hs, hf⟩)

/-- Nothing is recorded after a faulty source. -/
theorem extractInto_append_of_faulty {s : Source} (h : o.FaultySource s) (c : Catalog)
    (first others : List Source) :
    o.extractInto c (first ++ s :: others) = o.extractInto c (first ++ [s]) := by
  have hs : s ∈ first ++ [s] := List.mem_append_right _ List.mem_cons_self
  obtain ⟨error, herror⟩ := o.exists_error_of_faulty hs h c
  rw [extractInto_eq_record] at herror ⊢
  rw [extractInto_eq_record, List.append_cons, List.flatMap_append, Catalog.record_append, herror]

/-- **Only faulty sources and conflicts end an extraction.** An extraction into a catalog goes
through just if no source is faulty and the catalog accepts all candidates. What ends it otherwise
is a conflict unless a source is faulty, and no source after a faulty one makes a difference. -/
theorem extractInto_ends (c : Catalog) (sources : List Source) :
    ((o.extractInto c sources).error = none ↔
      (∀ s ∈ sources, ¬ o.FaultySource s) ∧ c.Accepts (o.candidatesOf sources)) ∧
    ((∃ f, (o.extractInto c sources).error = some (.failure f)) →
      ∃ s ∈ sources, o.FaultySource s) ∧
    (∀ first s others, sources = first ++ s :: others → o.FaultySource s →
      o.extractInto c sources = o.extractInto c (first ++ [s])) := by
  refine ⟨?_, ?_, ?_⟩
  · rw [extractInto_eq_record, Catalog.record_error_eq_none_iff]
    refine and_congr_left fun _ => ?_
    simp only [← failure_mem_events_iff, List.mem_flatMap, not_exists, not_and]
    exact ⟨fun h s hs f => h f s hs, fun h f s hs => h s hs f⟩
  · rintro ⟨f, hf⟩
    rw [extractInto_eq_record] at hf
    obtain ⟨s, hs, hmem⟩ := List.mem_flatMap.mp (Catalog.mem_of_record_error hf)
    exact ⟨s, hs, (o.failure_mem_events_iff).mp ⟨f, hmem⟩⟩
  · rintro first s others rfl h
    exact o.extractInto_append_of_faulty h c first others

/-- A script whose call names a code point that there is not. -/
def beyondLastCodePoint : Source :=
  ⟨"app.js", "gettext(name, \x7b\x7d, '\\u\x7b110000\x7d');"⟩

/-- An escape in a context ends an extraction though nothing is in conflict. -/
theorem extract_beyondLastCodePoint :
    (extract {} [beyondLastCodePoint]).error = some (.failure .invalidEscape) := by
  decide +kernel

/-- So does a marked section that a template opens and that is none that is known. -/
example : FaultySource {} ⟨"page.html", "<![what]>"⟩ :=
  (failure_mem_events_iff {}).mp ⟨.unreadableMarkup, by decide +kernel⟩

end Options

namespace CommandLine

variable {k : Console} {t : FileTree} {cwd : Location} {a : Arguments} {o : Options}
  {paths : List Path}

/-- A faulty file ends a run, and the run then writes nothing. -/
theorem runOn_of_faulty {s : Source} (hs : s ∈ sourcesOf (readingsOf t cwd paths))
    (h : o.FaultySource s) :
    (runOn k t cwd a o paths).tree = t ∧ (runOn k t cwd a o paths).outcome ≠ .success := by
  obtain ⟨error, herror⟩ :
      ∃ e, (o.extract (sourcesOf (readingsOf t cwd paths))).error = some e :=
    o.exists_error_of_faulty hs h o.emptyCatalog
  rw [runOn]
  simp only [herror]
  cases error <;> exact ⟨rfl, nofun⟩

end CommandLine

end MessageExtraction
