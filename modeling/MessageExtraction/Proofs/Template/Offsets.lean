import Mathlib.Data.List.Basic
import MessageExtraction.Template.Scan

/-!
# Offsets of lines

Scanning refers to the file that it is given, and on its lines. At another offset it yields the same
in the same order, with the candidates moved by the difference of the offsets. So what scanning
yields tells two offsets apart just if it holds a candidate.

## Main definitions

* `ScanEvent.move` -- what scanning comes upon, some lines further down.
* `ReferTo` -- candidates refer to lines of a file.

## Main results

* `Script.scan_add`, `Template.scan_add` -- scanning at an offset further down.
* `Script.referTo_scan`, `Template.referTo_scan` -- scanning refers to lines of its file.
* `ReferTo.map_move_eq_iff` -- when moving changes nothing.
-/

namespace MessageExtraction

/-- A candidate that stands some lines further down. -/
def Candidate.move (k : Int) (c : Candidate) : Candidate :=
  { c with reference := ⟨c.reference.file, c.reference.line.map (· + k)⟩ }

/-- What scanning comes upon, some lines further down. -/
def ScanEvent.move (k : Int) : ScanEvent → ScanEvent
  | .candidate c => .candidate (c.move k)
  | .notice n => .notice n
  | .failure e => .failure e

/-- All candidates refer to lines of a file. -/
def ReferTo (file : Text) (events : List ScanEvent) : Prop :=
  ∀ c, .candidate c ∈ events → ∃ line, c.reference = ⟨file, some line⟩

namespace ReferTo

variable {file : Text} {events others : List ScanEvent}

theorem append (h : ReferTo file events) (hothers : ReferTo file others) :
    ReferTo file (events ++ others) :=
  fun c hc => (List.mem_append.mp hc).elim (h c) (hothers c)

theorem flatMap {α : Type} {f : α → List ScanEvent} {l : List α} (h : ∀ a ∈ l, ReferTo file (f a)) :
    ReferTo file (l.flatMap f) := fun c hc =>
  let ⟨a, ha, hc⟩ := List.mem_flatMap.mp hc
  h a ha c hc

/-- Moving changes nothing just if it moves by no lines or moves no candidate. -/
theorem map_move_eq_iff (h : ReferTo file events) {k : Int} :
    events.map (ScanEvent.move k) = events ↔ k = 0 ∨ ∀ c, .candidate c ∉ events := by
  constructor
  · intro hmove
    by_cases hnone : ∀ c, .candidate c ∉ events
    · exact .inr hnone
    · obtain ⟨c, hc⟩ := Classical.not_forall_not.mp hnone
      obtain ⟨line, hline⟩ := h c hc
      have hself : ScanEvent.move k (.candidate c) = .candidate c :=
        List.map_inj_left.mp (hmove.trans (List.map_id events).symm) _ hc
      have hlines : c.reference.line.map (· + k) = c.reference.line :=
        congrArg (fun c : Candidate => c.reference.line) (ScanEvent.candidate.inj hself)
      rw [hline] at hlines
      have hsame : line + k = line := Option.some.inj hlines
      exact .inl (by omega)
  · intro hmove
    refine (List.map_inj_left.mpr fun e he => ?_).trans (List.map_id events)
    cases e with
    | candidate c =>
      obtain rfl := hmove.resolve_right fun hnone => hnone c he
      rcases c with ⟨reference, text, plural, comment, context⟩
      obtain ⟨line, rfl⟩ := h _ he
      simp [ScanEvent.move, Candidate.move]
    | notice => rfl
    | failure => rfl

end ReferTo

namespace Script

variable (markers : List Text) (file : Text) (offset : Int)

/-- A call marks the same candidate at every offset, on a line of its own. -/
theorem callCandidate_add (k : Int) (call : Tree) (comments : List Tree) :
    callCandidate markers file (offset + k) call comments =
      (callCandidate markers file offset call comments).map (Option.map (Candidate.move k)) := by
  rw [callCandidate, callCandidate]
  split
  · rfl
  · split
    · rfl
    · cases markedMessage markers _ _ call.arguments with
      | error e => rfl
      | ok message =>
        simp only [bind, Except.bind]
        split
        · rfl
        · simp only [pure, Except.pure, Except.map, Option.map_some, Candidate.move, Int.add_assoc]

theorem partEvents_add (k : Int) (part : Tree × List Tree) :
    partEvents markers file (offset + k) part =
      (partEvents markers file offset part).map (ScanEvent.move k) := by
  rw [partEvents, partEvents, callCandidate_add]
  split
  · rcases callCandidate markers file offset part.1 part.2 with e | _ | c <;> rfl
  · rfl

/-- Scanning a script at an offset further down moves what it yields. -/
theorem scan_add (k : Int) (source : Text) :
    scan markers file (offset + k) source =
      (scan markers file offset source).map (ScanEvent.move k) := by
  rw [scan, scan]
  split
  · rfl
  · rw [scanTree, scanTree, List.map_flatMap]
    exact List.flatMap_congr fun part _ => partEvents_add markers file offset k part

theorem reference_callCandidate {call : Tree} {comments : List Tree} {c : Candidate}
    (h : callCandidate markers file offset call comments = .ok (some c)) :
    ∃ line, c.reference = ⟨file, some line⟩ := by
  rw [callCandidate] at h
  split at h
  · cases h
  · split at h
    · cases h
    · cases hmessage : markedMessage markers _ _ call.arguments with
      | error e =>
        rw [hmessage] at h
        cases h
      | ok message =>
        rw [hmessage] at h
        simp only [bind, Except.bind] at h
        split at h
        · cases h
        · cases h
          exact ⟨_, rfl⟩

/-- Scanning a script refers to lines of its file. -/
theorem referTo_scan (source : Text) : ReferTo file (scan markers file offset source) := by
  rw [scan]
  split
  · intro c hc
    cases List.mem_singleton.mp hc
  · refine ReferTo.flatMap fun part _ c hc => ?_
    rw [partEvents] at hc
    split at hc
    · split at hc
      · next hcandidate =>
        cases List.mem_singleton.mp hc
        exact reference_callCandidate markers file offset hcandidate
      · exact absurd hc List.not_mem_nil
      · cases List.mem_singleton.mp hc
    · exact absurd hc List.not_mem_nil

end Script

namespace Template

variable (file : Text) (offset : Int)

/-- Notices and then plain candidates, which is what expressions and values yield. -/
theorem move_plain (k : Int) (notices : List Notice) (texts : List Text) :
    (notices.map ScanEvent.notice ++ texts.map (plainCandidate file offset)).map
        (ScanEvent.move k) =
      notices.map ScanEvent.notice ++ texts.map (plainCandidate file (offset + k)) := by
  rw [List.map_append, List.map_map, List.map_map]
  rfl

theorem referTo_plain (notices : List Notice) (texts : List Text) :
    ReferTo file (notices.map ScanEvent.notice ++ texts.map (plainCandidate file offset)) := by
  intro c hc
  rcases List.mem_append.mp hc with hc | hc
  · obtain ⟨n, -, hn⟩ := List.mem_map.mp hc
    cases hn
  · obtain ⟨t, -, ht⟩ := List.mem_map.mp hc
    cases ht
    exact ⟨offset, rfl⟩

theorem textEvents_add (d : Delimiters) (k : Int) (t : Text) :
    textEvents d file (offset + k) t = (textEvents d file offset t).map (ScanEvent.move k) := by
  rw [textEvents, textEvents, List.map_flatMap]
  exact List.flatMap_congr fun expression _ => (move_plain file offset k _ _).symm

theorem referTo_textEvents (d : Delimiters) (t : Text) :
    ReferTo file (textEvents d file offset t) :=
  .flatMap fun _ _ => referTo_plain file offset _ _

theorem valueEvents_add (d : Delimiters) (k : Int) (value : Text) :
    valueEvents d file (offset + k) value =
      (valueEvents d file offset value).map (ScanEvent.move k) := by
  rw [valueEvents, valueEvents]
  split
  · rfl
  · exact (move_plain file offset k _ _).symm

theorem referTo_valueEvents (d : Delimiters) (value : Text) :
    ReferTo file (valueEvents d file offset value) := by
  rw [valueEvents]
  split
  · exact fun c hc => absurd hc List.not_mem_nil
  · exact referTo_plain file offset _ _

variable (s : Setting)

theorem plainEvents_add (e : PlacedElement) (d : Delimiters) (k : Int) :
    e.plainEvents d file (offset + k) = (e.plainEvents d file offset).map (ScanEvent.move k) := by
  rw [PlacedElement.plainEvents, PlacedElement.plainEvents, List.map_append, List.map_flatMap,
    List.map_flatMap]
  refine congr (congrArg _ (List.flatMap_congr fun a _ => ?_)) (List.flatMap_congr fun t _ => ?_)
  · rw [← valueEvents_add, Int.add_assoc]
  · rw [← textEvents_add, Int.add_assoc]

theorem referTo_plainEvents (e : PlacedElement) (d : Delimiters) :
    ReferTo file (e.plainEvents d file offset) :=
  .append (.flatMap fun _ _ => referTo_valueEvents file _ d _)
    (.flatMap fun _ _ => referTo_textEvents file _ d _)

/-- What an element yields moves if what templates yield does. -/
theorem events_add {f : Int → Text → List ScanEvent} {k : Int}
    (hf : ∀ o t, f (o + k) t = (f o t).map (ScanEvent.move k)) (e : PlacedElement) :
    e.events s file (offset + k) f = (e.events s file offset f).map (ScanEvent.move k) := by
  have hoffset : offset + k + e.line - 1 = offset + e.line - 1 + k := by omega
  rw [PlacedElement.events, PlacedElement.events]
  split
  · rw [hoffset, hf]
  · rw [hoffset, Script.scan_add]
  · simp only [List.map_cons, List.map_nil, ScanEvent.move, Candidate.move,
      PlacedElement.messageCandidate, Option.map_some, Int.add_assoc]
  · exact plainEvents_add file offset e s.delimiters k

theorem referTo_events {f : Int → Text → List ScanEvent} (hf : ∀ o t, ReferTo file (f o t))
    (e : PlacedElement) : ReferTo file (e.events s file offset f) := by
  rw [PlacedElement.events]
  split
  · exact hf _ _
  · exact Script.referTo_scan s.markers file _ _
  · intro c hc
    cases List.mem_singleton.mp hc
    exact ⟨_, rfl⟩
  · exact referTo_plainEvents file offset e s.delimiters

theorem scanToDepth_add (depth : Nat) (k : Int) (document : Text) :
    scanToDepth s file depth (offset + k) document =
      (scanToDepth s file depth offset document).map (ScanEvent.move k) := by
  induction depth generalizing offset document with
  | zero => rfl
  | succ depth ih =>
    rw [scanToDepth, scanToDepth]
    split
    · rfl
    · rw [nodesEvents, nodesEvents, List.map_append, List.map_flatMap, List.map_flatMap]
      refine congr (congrArg _ (List.flatMap_congr fun t _ => ?_))
        (List.flatMap_congr fun e _ => ?_)
      · rw [← textEvents_add, Int.add_assoc]
      · exact events_add file offset s (fun o t => ih o t) e

/-- Scanning a template at an offset further down moves what it yields. -/
theorem scan_add (k : Int) (document : Text) :
    scan s file (offset + k) document = (scan s file offset document).map (ScanEvent.move k) :=
  scanToDepth_add file offset s _ k document

theorem referTo_scanToDepth (depth : Nat) (document : Text) :
    ReferTo file (scanToDepth s file depth offset document) := by
  induction depth generalizing offset document with
  | zero => exact fun c hc => absurd hc List.not_mem_nil
  | succ depth ih =>
    rw [scanToDepth]
    split
    · intro c hc
      cases List.mem_singleton.mp hc
    · exact .append (.flatMap fun _ _ => referTo_textEvents file _ _ _)
        (.flatMap fun e _ => referTo_events file offset s ih e)

/-- Scanning a template refers to lines of its file. -/
theorem referTo_scan (document : Text) : ReferTo file (scan s file offset document) :=
  referTo_scanToDepth file offset s _ document

end Template

end MessageExtraction
