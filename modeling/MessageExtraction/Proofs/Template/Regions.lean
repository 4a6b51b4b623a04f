import MessageExtraction.Proofs.Template.BlankContent
import MessageExtraction.Proofs.Template.Offsets

/-!
# Script elements scanned on their own

A script element of code or of a template yields what its raw content yields when it is scanned on
its own. The line that this begins on is reckoned from the start of the start tag. So it falls short
of the line of the content by the line feeds in the start tag, and, where templates are nested, by
those in the start tags of all script elements around it.

## Main definitions

* `Template.Region` -- a script element that is scanned on its own.
* `Template.Holds` -- an element of a document is such a region.
* `Template.Emits` -- what a region yields as a document is scanned, at any depth of templates.

## Main results

* `exists_holds` -- every script element of code or of a template is a region.
* `events_of_emits` -- what a region yields, and when it is what it yields on its own lines.
* `scan_tagOverTwoLines` -- a document whose only candidate is referenced one line too high.
-/

namespace MessageExtraction.Template

open Markup

/-- A script element that is scanned on its own: how it is scanned, what stands before its start
tag, that tag, and its raw content. -/
structure Region where
  role : Role
  before : Text
  opening : Text
  content : Text

/-- What scanning a text yields that is scanned as a template or as code. -/
def scanAs (role : Role) (s : Setting) (file : Text) (offset : Int) (t : Text) : List ScanEvent :=
  match role with
  | .template => scan s file offset t
  | _ => Script.scan s.markers file offset t

theorem scanAs_of_space (role : Role) (s : Setting) (file : Text) (offset : Int) {t : Text}
    (h : IsSpace t) : scanAs role s file offset t = [] := by
  unfold scanAs
  split
  · exact scan_of_space s file offset h
  · exact Script.scan_of_space s.markers file offset h

/-- What scanning the raw content of a region yields. -/
def Region.scan (r : Region) (s : Setting) (file : Text) (offset : Int) : List ScanEvent :=
  scanAs r.role s file offset r.content

namespace Region

variable (r : Region) (s : Setting) (file : Text) (offset : Int)

theorem scan_add (k : Int) :
    r.scan s file (offset + k) = (r.scan s file offset).map (ScanEvent.move k) := by
  unfold scan scanAs
  split
  · exact Template.scan_add file offset s k r.content
  · exact Script.scan_add s.markers file offset k r.content

theorem referTo_scan : ReferTo file (r.scan s file offset) := by
  unfold scan scanAs
  split
  · exact Template.referTo_scan file offset s r.content
  · exact Script.referTo_scan s.markers file offset r.content

/-- What a region yields tells two offsets apart just if it holds a candidate. -/
theorem scan_sub_eq_iff (k : Int) :
    r.scan s file (offset - k) = r.scan s file offset ↔
      k = 0 ∨ ∀ c, .candidate c ∉ r.scan s file (offset - k) := by
  have hoffset : offset = offset - k + k := by omega
  rw [eq_comm]
  conv_lhs => lhs; rw [hoffset]
  rw [scan_add]
  exact (r.referTo_scan s file (offset - k)).map_move_eq_iff

end Region

/-- An element of a document is a region of it. -/
structure Holds (document : Text) (e : LocatedElement × Ahead) (r : Region) : Prop where
  mem : ∃ nodes, locate? (protectEntities document) = some nodes ∧
    e ∈ elementsIn (.ofEnd (protectEntities document)) nodes
  role_eq : (placed e.1 e.2).role = r.role
  scanned : r.role = .template ∨ r.role = .code
  before_eq : e.1.before = protectEntities r.before
  opening_eq : e.1.opening = protectEntities r.opening
  content : ∃ tag rest, document = r.before ++ r.opening ++ r.content ++ rest ∧
    StartTag.read ((protectEntities (r.opening ++ r.content ++ rest)).drop 1) =
      .tag tag (protectEntities (r.content ++ rest)) ∧
    HoldsRaw e.1 tag (protectEntities r.content) (protectEntities rest)

/-- Every script element of code or of a template is a region. -/
theorem exists_holds {document : Text} {nodes : List Located} {e : LocatedElement × Ahead}
    (hnodes : locate? (protectEntities document) = some nodes)
    (he : e ∈ elementsIn (.ofEnd (protectEntities document)) nodes)
    (hrole : (placed e.1 e.2).role = .template ∨ (placed e.1 e.2).role = .code) :
    ∃ r, Holds document e r := by
  obtain ⟨tag, content', rest', preserved, hbegins, hholds, -⟩ :=
    exists_content_of_mem_elementsIn hnodes he hrole
  obtain ⟨head, tail, rfl, hhead, htail⟩ := List.map_eq_append_iff.mp hbegins.document_eq
  obtain ⟨before, opening, rfl, hbefore, hopening⟩ := List.map_eq_append_iff.mp hhead
  obtain ⟨content, rest, rfl, rfl, rfl⟩ := List.map_eq_append_iff.mp htail
  refine ⟨⟨(placed e.1 e.2).role, before, opening, content⟩, ⟨nodes, hnodes, he⟩, rfl, hrole,
    hbefore.symm, hopening.symm, tag, rest, (List.append_assoc ..).symm, ?_, hholds⟩
  have hread := hbegins.read_eq
  rw [← hopening] at hread
  simpa only [protectEntities, List.map_append, List.append_assoc] using hread

/-- No element stands in white space. -/
theorem Holds.not_isSpace {document : Text} {e : LocatedElement × Ahead} {r : Region}
    (h : Holds document e r) : ¬ IsSpace document := by
  intro hspace
  obtain ⟨nodes, hnodes, he⟩ := h.mem
  have hparse := parse?_of_space hspace
  rw [parse?_eq, hnodes, Option.map_some] at hparse
  have hplaced := elementsOfNodes_eq (.ofEnd (protectEntities document)) nodes
  have hnone :
      elementsOfNodes (Ahead.ofEnd (protectEntities document)).line (eraseAll nodes) = [] := by
    rw [Option.some.inj hparse]
    split <;> rfl
  rw [hnone] at hplaced
  exact absurd (List.mem_map_of_mem (f := fun e => placed e.1 e.2) he) (hplaced ▸ List.not_mem_nil)

namespace Holds

variable {document : Text} {e : LocatedElement × Ahead} {r : Region}

/-- A region is taken to begin on the line of its start tag. -/
theorem line_eq (h : Holds document e r) : (placed e.1 e.2).line = lineAfter r.before := by
  rw [show (placed e.1 e.2).line = lineAfter e.1.before from rfl, h.before_eq,
    lineAfter_protectEntities]

/-- The raw text of a region is its content, or both are white space. -/
theorem rawText_eq (h : Holds document e r) (hsentinel : sentinel ∉ r.content) :
    (placed e.1 e.2).rawText = r.content ∨
      IsSpace r.content ∧ IsSpace (placed e.1 e.2).rawText := by
  obtain ⟨tag, rest, -, -, hholds⟩ := h.content
  obtain ⟨preserved, hchildren⟩ := hholds.children_eq
  have hraw : (placed e.1 e.2).rawText =
      restoreEntities (keptContent preserved (protectEntities r.content)) := by
    rw [PlacedElement.rawText, show (placed e.1 e.2).children = eraseAll e.1.children from rfl,
      hchildren, rawContent_rawChildren]
  rw [hraw, keptContent]
  split
  · next hempty =>
    have hnil : r.content = [] := by simpa [protectEntities] using hempty
    exact .inl (by rw [hnil]; rfl)
  · by_cases hspace : IsSpace (protectEntities r.content)
    · refine .inr ⟨isSpace_of_protectEntities hspace, fun c hc => ?_⟩
      obtain ⟨d, hd, rfl⟩ := List.mem_map.mp hc
      have hkept := isSpace_shrink hspace preserved
      rw [if_neg (hkept.all (p := fun c => c ≠ sentinel) (by decide) d hd)]
      exact hkept d hd
    · left
      rw [shrink_of_not_isSpace hspace, restoreEntities_protectEntities hsentinel]

/-- What a region yields as part of a document is what its content yields from the line of the start
tag on. -/
theorem events_eq (h : Holds document e r) (hsentinel : sentinel ∉ r.content) (s : Setting)
    (file : Text) (offset : Int) :
    (placed e.1 e.2).events s file offset (scan s file) =
      r.scan s file (offset + lineAfter r.before - 1) := by
  have hevents : (placed e.1 e.2).events s file offset (scan s file) =
      scanAs r.role s file (offset + lineAfter r.before - 1) (placed e.1 e.2).rawText := by
    rw [PlacedElement.events, h.line_eq, h.role_eq]
    unfold scanAs
    rcases h.scanned with hrole | hrole <;> rw [hrole]
  rw [hevents, Region.scan]
  rcases h.rawText_eq hsentinel with hraw | ⟨hcontent, hraw⟩
  · rw [hraw]
  · rw [scanAs_of_space _ _ _ _ hraw, scanAs_of_space _ _ _ _ hcontent]

end Holds

/-- What a region yields as a document is scanned at an offset, whether it is a region of the
document or of templates in it; with what stands before its content in the document, and the number
of line feeds in the start tags of its script element and of those around it. The contents of these
elements are free of the code point that stands for an ampersand. -/
inductive Emits (s : Setting) (file : Text) : (offset : Int) → (document before : Text) →
    (skew : Nat) → Region → List ScanEvent → Prop
  | here {offset : Int} {document : Text} {e : LocatedElement × Ahead} {r : Region}
      (h : Holds document e r) (hsentinel : sentinel ∉ r.content) :
      Emits s file offset document (r.before ++ r.opening) (Text.lineFeeds r.opening) r
        ((placed e.1 e.2).events s file offset (scan s file))
  | inside {offset : Int} {document before : Text} {skew : Nat} {e : LocatedElement × Ahead}
      {outer r : Region} {events : List ScanEvent} (h : Holds document e outer)
      (hsentinel : sentinel ∉ outer.content) (hrole : outer.role = .template)
      (hinner : Emits s file (offset + (placed e.1 e.2).line - 1) (placed e.1 e.2).rawText before
        skew r events) :
      Emits s file offset document (outer.before ++ outer.opening ++ before)
        (Text.lineFeeds outer.opening + skew) r events

theorem Emits.not_isSpace {s : Setting} {file : Text} {offset : Int} {document before : Text}
    {skew : Nat} {r : Region} {events : List ScanEvent}
    (h : Emits s file offset document before skew r events) : ¬ IsSpace document := by
  cases h with
  | here h => exact h.not_isSpace
  | inside h => exact h.not_isSpace

/-- What a region yields is what its content yields from a line on that is above its own by the line
feeds in the start tags around it. Going out by one template adds those of its start tag. -/
theorem Emits.events_eq {s : Setting} {file : Text} {offset : Int} {document before : Text}
    {skew : Nat} {r : Region} {events : List ScanEvent}
    (h : Emits s file offset document before skew r events) :
    (∃ rest, document = before ++ r.content ++ rest) ∧ events <:+: scan s file offset document ∧
    events = r.scan s file (offset + lineAfter before - 1 - skew) := by
  induction h with
  | @here offset document e r h hsentinel =>
    obtain ⟨tag, rest, hdocument, -⟩ := h.content
    obtain ⟨nodes, hnodes, he⟩ := h.mem
    refine ⟨⟨rest, hdocument⟩, events_infix_scan_of_mem_elementsIn s file offset hnodes he, ?_⟩
    rw [h.events_eq hsentinel, lineAfter_append]
    congr 1
    push_cast
    omega
  | @inside offset document before skew e outer r events h hsentinel hrole hinner ih =>
    obtain ⟨⟨inner, hcontent⟩, hinfix, hevents⟩ := ih
    obtain ⟨tag, rest, hdocument, -⟩ := h.content
    obtain ⟨nodes, hnodes, he⟩ := h.mem
    have hraw : (placed e.1 e.2).rawText = outer.content :=
      (h.rawText_eq hsentinel).resolve_right fun hspace => hinner.not_isSpace hspace.2
    have houter : (placed e.1 e.2).events s file offset (scan s file) =
        scan s file (offset + (placed e.1 e.2).line - 1) (placed e.1 e.2).rawText := by
      rw [PlacedElement.events, h.role_eq, hrole]
    refine ⟨⟨inner ++ rest, ?_⟩, ?_, ?_⟩
    · rw [hraw] at hcontent
      rw [hdocument, hcontent]
      simp only [List.append_assoc]
    · exact (houter ▸ hinfix).trans (events_infix_scan_of_mem_elementsIn s file offset hnodes he)
    · rw [hevents, h.line_eq]
      congr 1
      simp only [lineAfter, lineFeeds_append]
      push_cast
      omega

/-- What a region yields stands together in what the document yields, and it is what the content of
the region yields from a line on that is above its own by the line feeds in the start tags around
it. So it is what the content yields on its own line just if there are none or it holds no
candidate. -/
theorem events_of_emits {s : Setting} {file : Text} {offset : Int} {document before : Text}
    {skew : Nat} {r : Region} {events : List ScanEvent}
    (h : Emits s file offset document before skew r events) :
    (∃ rest, document = before ++ r.content ++ rest) ∧ events <:+: scan s file offset document ∧
    events = r.scan s file (offset + lineAfter before - 1 - skew) ∧
    (events = r.scan s file (offset + lineAfter before - 1) ↔
      skew = 0 ∨ ∀ c, .candidate c ∉ events) := by
  obtain ⟨hdocument, hinfix, hevents⟩ := h.events_eq
  refine ⟨hdocument, hinfix, hevents, ?_⟩
  rw [hevents, r.scan_sub_eq_iff]
  exact or_congr_left Int.natCast_eq_zero

/-- Calls of one name mark messages. -/
def markedCalls : Setting :=
  ⟨bareDelimiters, [Text.ofString "gettext"]⟩

/-- A script on the second line. -/
def scriptBelow : Text :=
  "\n<script>gettext('Hi')</script>"

/-- What it yields when it is scanned on its own line. -/
def scriptBelowEvents : List ScanEvent :=
  [.candidate { reference := ⟨"t.html", some 2⟩, text := "Hi", comment := some [] }]

/-- A script whose start tag is on one line yields what it yields on its own. -/
theorem emits_scriptBelow :
    ∃ before r, Emits markedCalls "t.html" 0 scriptBelow before 0 r scriptBelowEvents ∧
      lineAfter before = 2 ∧ r.scan markedCalls "t.html" (0 + 2 - 1) = scriptBelowEvents := by
  obtain ⟨nodes, hnodes⟩ : ∃ nodes, locate? (protectEntities scriptBelow) = some nodes :=
    Option.isSome_iff_exists.mp (by decide +kernel)
  have hfound : (locate? (protectEntities scriptBelow)).map (fun nodes =>
      (elementsIn (.ofEnd (protectEntities scriptBelow)) nodes).map fun e =>
        ((placed e.1 e.2).role, e.1.before, e.1.opening,
          (placed e.1 e.2).events markedCalls "t.html" 0 (scan markedCalls "t.html"))) =
      some [(.code, Text.ofChar '\n', Text.ofString "<script>", scriptBelowEvents)] := by
    decide +kernel
  rw [hnodes, Option.map_some] at hfound
  obtain ⟨e, he, heq⟩ := List.mem_map.mp (Option.some.inj hfound ▸ List.mem_singleton.mpr rfl)
  obtain ⟨hrole, hbefore, hopening, hevents⟩ : _ ∧ _ ∧ _ ∧ _ := by
    simpa only [Prod.mk.injEq] using heq
  obtain ⟨r, hr⟩ := exists_holds hnodes he (.inr hrole)
  obtain ⟨tag, rest, hdocument, -⟩ := hr.content
  have hsentinel : sentinel ∉ r.content := by
    have hnone : sentinel ∉ scriptBelow := by decide +kernel
    exact fun hmem => hnone (by rw [hdocument]; simp [hmem])
  have hopened : Text.lineFeeds r.opening = 0 := by
    rw [← lineFeeds_protectEntities, ← hr.opening_eq, hopening]
    decide +kernel
  have hlines : lineAfter (r.before ++ r.opening) = 2 := by
    rw [lineAfter_append, hopened, ← lineAfter_protectEntities, ← hr.before_eq, hbefore]
    decide +kernel
  have hemits : Emits markedCalls "t.html" 0 scriptBelow _ _ r _ := .here hr hsentinel
  rw [hopened, hevents] at hemits
  refine ⟨_, r, hemits, hlines, ?_⟩
  have hown := (events_of_emits hemits).2.2.2.mpr (.inl rfl)
  rw [hlines] at hown
  exact hown.symm

/-- A start tag over two lines. -/
def tagOverTwoLines : Text :=
  "<script\n type=\"text/ng-template\">"

/-- A template whose start tag is over two lines begins on the second line, but what it yields is
referenced at the first one. -/
theorem scan_tagOverTwoLines :
    lineAfter tagOverTwoLines = 2 ∧
    scan markedCalls "t.html" 0
        (tagOverTwoLines ++ Text.ofString "<p translate>Hi</p>" ++ Text.ofString "</script>") =
      [plainCandidate "t.html" 1 "Hi"] ∧
    scan markedCalls "t.html" (0 + 2 - 1) "<p translate>Hi</p>" =
      [plainCandidate "t.html" 2 "Hi"] := by
  decide +kernel

end MessageExtraction.Template
