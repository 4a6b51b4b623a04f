import MessageExtraction.Proofs.Catalog.LineNumbers
import MessageExtraction.Proofs.Extraction.SourceOrder
import MessageExtraction.Proofs.Template.Offsets

/-!
# Offsets of lines in a catalog

A catalog that records what scanning yields is given one candidate after another, until scanning
fails or a candidate brings a conflict. Where a template is scanned at an offset further down, the
catalog is given the same candidates in the same order, moved by the difference of the offsets, with
the same notices on the way. Recording then ends in the same way, since a conflict does not depend
on lines.

## Main definitions

* `Catalog.attempts` -- the candidates that a catalog is given while it records.
* `ExtractionError.Alike` -- extraction stops for the same reason.

## Main results

* `Catalog.catalog_record` -- recording adds the candidates that the catalog is given.
* `Catalog.Alike.record` -- recording what is moved.
* `Template.attempts_scan_add` -- scanning a template at two offsets.
-/

namespace MessageExtraction

/-- Extraction stops for the same reason, wherever the candidates stand. -/
inductive ExtractionError.Alike : ExtractionError → ExtractionError → Prop
  | conflict {p q : PluralConflict} (h : p.Alike q) : Alike (.conflict p) (.conflict q)
  | failure (e : ScanFailure) : Alike (.failure e) (.failure e)

/-- The notice of an event, if it is one. -/
def ScanEvent.notice? : ScanEvent → Option Notice
  | .notice n => some n
  | _ => none

/-- The notices among what scanning yields. -/
def noticesAmong (events : List ScanEvent) : List Notice :=
  events.filterMap ScanEvent.notice?

/-! ### Moved candidates -/

theorem Candidate.alike_move (k : Int) (x : Candidate) : x.Alike (x.move k) :=
  ⟨_, rfl⟩

/-- Candidates agree with moved ones but for their references. -/
theorem forall₂_alike_move (k : Int) (calls : List Candidate) :
    List.Forall₂ Candidate.Alike calls (calls.map (Candidate.move k)) := by
  rw [List.forall₂_map_right_iff, List.forall₂_same]
  exact fun x _ => x.alike_move k

theorem candidatesIn_map_move (k : Int) (events : List ScanEvent) :
    candidatesIn (events.map (ScanEvent.move k)) =
      (candidatesIn events).map (Candidate.move k) := by
  rw [candidatesIn, candidatesIn, List.filterMap_map, List.map_filterMap]
  refine List.filterMap_congr fun event _ => ?_
  cases event <;> rfl

theorem noticesAmong_map_move (k : Int) (events : List ScanEvent) :
    noticesAmong (events.map (ScanEvent.move k)) = noticesAmong events := by
  rw [noticesAmong, noticesAmong, List.filterMap_map]
  refine List.filterMap_congr fun event _ => ?_
  cases event <;> rfl

namespace Catalog

variable {c d : Catalog} {events : List ScanEvent}

/-! ### The candidates of a recording -/

/-- The candidates that a catalog is given while it records: those up to the first failure or the
first one that brings a conflict. -/
def attempts (c : Catalog) : List ScanEvent → List Candidate
  | [] => []
  | .notice _ :: events => c.attempts events
  | .failure _ :: _ => []
  | .candidate x :: events =>
    match c.add x with
    | (after, none) => x :: after.attempts events
    | (_, some _) => [x]

/-- Recording adds the candidates that the catalog is given, however it ends. -/
theorem catalog_record (c : Catalog) (events : List ScanEvent) :
    (c.record events).catalog = c.addAll (c.attempts events) := by
  induction events generalizing c with
  | nil => rfl
  | cons event events ih =>
    cases event with
    | notice n => exact ih c
    | failure e => rfl
    | candidate x =>
      rw [record, attempts]
      rcases hadd : c.add x with ⟨after, _ | conflict⟩
      · rw [addAll, List.foldl_cons, hadd]
        exact ih after
      · rw [addAll, List.foldl_cons, hadd]
        rfl

/-- A catalog is given candidates in the order in which scanning yields them. -/
theorem attempts_prefix (c : Catalog) (events : List ScanEvent) :
    c.attempts events <+: candidatesIn events := by
  induction events generalizing c with
  | nil => exact List.prefix_refl _
  | cons event events ih =>
    cases event with
    | notice n => exact ih c
    | failure e => exact List.nil_prefix
    | candidate x =>
      have hcalls : candidatesIn (.candidate x :: events) = x :: candidatesIn events := rfl
      rw [hcalls, attempts]
      rcases c.add x with ⟨after, _ | conflict⟩
      · exact List.prefix_cons_inj x |>.mpr (ih after)
      · exact ⟨candidatesIn events, rfl⟩

/-- A recording that succeeds is given all candidates and passes on all notices. -/
theorem attempts_of_record (h : (c.record events).error = none) :
    c.attempts events = candidatesIn events ∧ (c.record events).notices = noticesAmong events := by
  induction events generalizing c with
  | nil => exact ⟨rfl, rfl⟩
  | cons event events ih =>
    cases event with
    | notice n =>
      have hrest : (c.record events).error = none := h
      obtain ⟨hcalls, hnotices⟩ := ih hrest
      exact ⟨hcalls, congrArg (n :: ·) hnotices⟩
    | failure e => exact absurd h (Option.some_ne_none _)
    | candidate x =>
      rw [record] at h ⊢
      rw [attempts]
      rcases hadd : c.add x with ⟨after, _ | conflict⟩
      · rw [hadd] at h
        obtain ⟨hcalls, hnotices⟩ := ih h
        exact ⟨congrArg (x :: ·) hcalls, hnotices⟩
      · rw [hadd] at h
        exact absurd h (Option.some_ne_none _)

/-! ### Recording what is moved -/

/-- Catalogs that are alike are given the same candidates while one records what scanning yields and
the other the same some lines further down. They pass on the same notices, stop for the same reason
and are alike afterwards. -/
theorem Alike.record (h : c.Alike d) (k : Int) (events : List ScanEvent) :
    d.attempts (events.map (ScanEvent.move k)) = (c.attempts events).map (Candidate.move k) ∧
    (d.record (events.map (ScanEvent.move k))).notices = (c.record events).notices ∧
    Option.Rel ExtractionError.Alike (c.record events).error
      (d.record (events.map (ScanEvent.move k))).error := by
  induction events generalizing c d with
  | nil => exact ⟨rfl, rfl, .none⟩
  | cons event events ih =>
    cases event with
    | notice n =>
      obtain ⟨hcalls, hnotices, herror⟩ := ih h
      exact ⟨hcalls, congrArg (n :: ·) hnotices, herror⟩
    | failure e => exact ⟨rfl, rfl, .some (.failure e)⟩
    | candidate x =>
      have hadd := h.add (x.alike_move k)
      rw [List.map_cons, ScanEvent.move, Catalog.record, Catalog.record, attempts, attempts]
      -- What both catalogs do next depends on nothing but the relation of what adding leads to.
      generalize c.add x = added at hadd ⊢
      generalize d.add (x.move k) = added' at hadd ⊢
      obtain ⟨after, report⟩ := added
      obtain ⟨after', report'⟩ := added'
      obtain ⟨hafter, hreport⟩ := hadd
      cases hreport with
      | none =>
        obtain ⟨hcalls, hnotices, herror⟩ := ih hafter
        exact ⟨congrArg (x.move k :: ·) hcalls, hnotices, herror⟩
      | some hconflict => exact ⟨rfl, rfl, .some (.conflict hconflict)⟩

end Catalog

namespace Template

/-- **Offsets of lines move references and nothing else.** Catalogs that are alike are given the
same candidates while a template is scanned at two offsets, moved by the difference of the offsets;
they pass on the same notices, stop for the same reason, and are alike afterwards. Where neither
scan stops early this holds of any two catalogs. All candidates refer to lines of the file. -/
theorem attempts_scan_add (s : Setting) (file document : Text) (j k : Int) :
    (∀ c d : Catalog, c.Alike d →
      d.attempts (scan s file (j + k) document) =
        (c.attempts (scan s file j document)).map (Candidate.move k) ∧
      (d.record (scan s file (j + k) document)).notices =
        (c.record (scan s file j document)).notices ∧
      Option.Rel ExtractionError.Alike (c.record (scan s file j document)).error
        (d.record (scan s file (j + k) document)).error ∧
      (c.record (scan s file j document)).catalog.Alike
        (d.record (scan s file (j + k) document)).catalog) ∧
    (∀ c d : Catalog, (c.record (scan s file j document)).error = none →
      (d.record (scan s file (j + k) document)).error = none →
      d.attempts (scan s file (j + k) document) =
        (c.attempts (scan s file j document)).map (Candidate.move k) ∧
      (d.record (scan s file (j + k) document)).notices =
        (c.record (scan s file j document)).notices) ∧
    ∀ c : Catalog, ∀ x ∈ c.attempts (scan s file j document),
      ∃ line, x.reference = ⟨file, some line⟩ := by
  refine ⟨fun c d h => ?_, fun c d hc hd => ?_, fun c x hx => ?_⟩
  · rw [scan_add]
    obtain ⟨hcalls, hnotices, herror⟩ := h.record k (scan s file j document)
    refine ⟨hcalls, hnotices, herror, ?_⟩
    rw [Catalog.catalog_record, Catalog.catalog_record, hcalls]
    exact (h.addAll (forall₂_alike_move k _)).1
  · obtain ⟨hcalls, hnotices⟩ := Catalog.attempts_of_record hc
    obtain ⟨hcalls', hnotices'⟩ := Catalog.attempts_of_record hd
    rw [hcalls', hnotices', hcalls, hnotices, scan_add, candidatesIn_map_move,
      noticesAmong_map_move]
    exact ⟨rfl, rfl⟩
  · have hmem := (c.attempts_prefix (scan s file j document)).subset hx
    exact referTo_scan file j s document x (mem_candidatesIn.mp hmem)

/-- Delimiters of two braces, and the usual marker. -/
def usualSetting : Setting :=
  ⟨⟨"\x7b\x7b", "\x7d\x7d"⟩, ["gettext"]⟩

/-- A document with a message, a template with a text and a script in it, and another script. -/
def layeredDocument : Text :=
  "<p translate>Hi</p>\n<script type='text/ng-template'>\n\x7b\x7b'a' | translate\x7d\x7d" ++
    Text.ofString "<b></b>\n<i title='x | translate'></i></script>\n<script>\ngettext('Bird')</script>"

theorem scan_layeredDocument : scan usualSetting "t.html" 0 layeredDocument =
    [.candidate { reference := ⟨"t.html", some 1⟩, text := "Hi" },
      plainCandidate "t.html" 2 "a",
      .notice (.notLiteral "Identifier"),
      .candidate { reference := ⟨"t.html", some 6⟩, text := "Bird", comment := some [] }] := by
  decide +kernel

/-- Ten lines further down, all three messages of the document stand ten lines further down. -/
theorem attempts_layeredDocument :
    (Catalog.record {} (scan usualSetting "t.html" 0 layeredDocument)).error = none ∧
    (Catalog.record {} (scan usualSetting "t.html" (0 + 10) layeredDocument)).error = none ∧
    (Catalog.attempts {} (scan usualSetting "t.html" (0 + 10) layeredDocument)).map
        (fun x => x.reference.line) = [some 11, some 12, some 16] ∧
    (Catalog.record {} (scan usualSetting "t.html" (0 + 10) layeredDocument)).notices =
      [.notLiteral "Identifier"] := by
  have hfirst : (Catalog.record {}
      (scan usualSetting "t.html" 0 layeredDocument)).error = none := by
    rw [scan_layeredDocument]
    decide +kernel
  have hsecond : (Catalog.record {}
      (scan usualSetting "t.html" (0 + 10) layeredDocument)).error = none := by
    rw [scan_add, scan_layeredDocument]
    decide +kernel
  have hmoved := attempts_scan_add usualSetting "t.html" layeredDocument 0 10
  obtain ⟨-, hnotices⟩ := hmoved.2.1 {} {} hfirst hsecond
  refine ⟨hfirst, hsecond, ?_, ?_⟩
  · rw [(hmoved.1 {} {} (Catalog.alike_empty true true)).1, scan_layeredDocument]
    decide +kernel
  · rw [hnotices, scan_layeredDocument]
    rfl

end Template

end MessageExtraction
