import MessageExtraction.Proofs.Template.Ahead
import MessageExtraction.Proofs.Template.Entities

/-!
# Nested templates

Templates nest no deeper than they are long, since a template in a script element is a part of the
document around it. So scanning with a bound on the depth is scanning without one.

## Main results

* `exists_content_of_mem_elementsIn` -- the raw text of a script element is what the tree keeps of
  a part of the document.
* `scan_eq` -- what scanning a template yields, with scanning itself for the templates in it.
-/

namespace MessageExtraction.Template

open Markup

theorem lineAfter_protectEntities (t : Text) : lineAfter (protectEntities t) = lineAfter t := by
  rw [lineAfter, lineFeeds_protectEntities, lineAfter]

/-- What lies ahead of the end of a document has no line feeds to reckon with. -/
theorem line_ofEnd (document : Text) :
    (Ahead.ofEnd (protectEntities document)).line = lineCount document := by
  simp [Ahead.line, Ahead.ofEnd, Ahead.keptFeeds, lineFeeds_protectEntities, lineCount, lineAfter]

/-- Elements that hold code or a template are raw elements. -/
theorem mem_rawNames_of_role {e : PlacedElement} (h : e.role = .template ∨ e.role = .code) :
    e.name ∈ rawNames := by
  have hscript : e.name.is "script" = true := by
    rw [← Bool.not_eq_false]
    intro hname
    simp only [PlacedElement.role, hname, Bool.false_eq_true, if_false] at h
    split at h <;> simp at h
  rw [eq_of_beq hscript]
  decide +kernel

theorem length_shrink_le (preserved : Bool) {t : Text} (h : t ≠ []) :
    (shrink preserved t).length ≤ t.length := by
  have hpos := List.length_pos_iff.mpr h
  rw [shrink]
  split
  · exact Nat.le_refl _
  · split <;> exact hpos

/-- What the tree keeps of the content of a raw element. -/
def keptContent (preserved : Bool) (content : Text) : Text :=
  if content.isEmpty then [] else shrink preserved content

theorem rawContent_rawChildren (before content : Text) (preserved : Bool) :
    rawContent (eraseAll (rawChildren before content preserved)) =
      keptContent preserved content := by
  rw [rawChildren, keptContent]
  split
  · rfl
  · exact List.append_nil _

theorem length_keptContent_le (preserved : Bool) (content : Text) :
    (keptContent preserved content).length ≤ content.length := by
  rw [keptContent]
  split
  · exact Nat.zero_le _
  · next h => exact length_shrink_le preserved fun hnil => h (by rw [hnil]; rfl)

/-- A script element that is scanned on its own stands in the document, and its raw text is what the
tree keeps of what follows its start tag. -/
theorem exists_content_of_mem_elementsIn {document : Text} {nodes : List Located} {after : Ahead}
    {e : LocatedElement × Ahead} (hnodes : locate? document = some nodes)
    (he : e ∈ elementsIn after nodes)
    (hrole : (placed e.1 e.2).role = .template ∨ (placed e.1 e.2).role = .code) :
    ∃ tag content rest preserved, Begins document e.1 tag (content ++ rest) ∧
      HoldsRaw e.1 tag content rest ∧
      (placed e.1 e.2).rawText = restoreEntities (keptContent preserved content) := by
  have hmem : e.1 ∈ elementsOf nodes :=
    map_fst_elementsIn after nodes ▸ List.mem_map_of_mem he
  obtain ⟨tag, rest, hbegins, hraw⟩ := stands_of_locate? hnodes e.1 hmem
  obtain ⟨content, others, rfl, hholds⟩ := hraw (mem_rawNames_of_role hrole)
  obtain ⟨preserved, hchildren⟩ := hholds.children_eq
  refine ⟨tag, content, others, preserved, hbegins, hholds, ?_⟩
  rw [PlacedElement.rawText, show (placed e.1 e.2).children = eraseAll e.1.children from rfl,
    hchildren, rawContent_rawChildren]

/-- The raw text of a script element that is scanned on its own is shorter than the document. -/
theorem length_rawText_lt {document : Text} {nodes : List Node} {e : PlacedElement}
    (hnodes : parse? (protectEntities document) = some nodes)
    (he : e ∈ elementsOfNodes (lineCount document) nodes)
    (hrole : e.role = .template ∨ e.role = .code) : e.rawText.length < document.length := by
  rw [parse?_eq] at hnodes
  obtain ⟨located, hlocated, rfl⟩ := Option.map_eq_some_iff.mp hnodes
  rw [← line_ofEnd, elementsOfNodes_eq] at he
  obtain ⟨l, hl, rfl⟩ := List.mem_map.mp he
  obtain ⟨tag, content, rest, preserved, hbegins, -, hraw⟩ :=
    exists_content_of_mem_elementsIn hlocated hl hrole
  have hopening := List.length_pos_iff.mpr hbegins.opening_ne_nil
  have hcontent := length_keptContent_le preserved content
  have hdocument := congrArg List.length hbegins.document_eq
  simp only [length_protectEntities, List.length_append] at hdocument
  rw [hraw, length_restoreEntities]
  omega

/-- What nodes yield depends on how the templates in them are scanned, and on nothing else about how
templates are scanned. -/
theorem nodesEvents_congr {s : Setting} {file : Text} {offset lastLine : Int} {nodes : List Node}
    {f g : Int → Text → List ScanEvent}
    (h : ∀ e ∈ elementsOfNodes lastLine nodes, e.role = .template →
      ∀ o, f o e.rawText = g o e.rawText) :
    nodesEvents s file offset lastLine nodes f = nodesEvents s file offset lastLine nodes g := by
  rw [nodesEvents, nodesEvents]
  refine congrArg _ (List.flatMap_congr fun e he => ?_)
  rw [PlacedElement.events, PlacedElement.events]
  split
  · next hrole => exact h e he hrole _
  · rfl
  · rfl
  · rfl

/-- Any depth beyond the length of a document is enough. -/
theorem scanToDepth_eq (s : Setting) (file : Text) {depth others : Nat} {offset : Int}
    {document : Text} (hdepth : document.length < depth) (hothers : document.length < others) :
    scanToDepth s file depth offset document = scanToDepth s file others offset document := by
  induction depth generalizing others offset document with
  | zero => exact absurd hdepth (Nat.not_lt_zero _)
  | succ depth ih =>
    cases others with
    | zero => exact absurd hothers (Nat.not_lt_zero _)
    | succ others =>
      rw [scanToDepth, scanToDepth]
      split
      · rfl
      · next nodes hnodes =>
        refine nodesEvents_congr fun e he hrole o => ?_
        have hlt := length_rawText_lt hnodes he (.inl hrole)
        exact ih (Nat.lt_of_lt_of_le hlt (Nat.le_of_lt_succ hdepth))
          (Nat.lt_of_lt_of_le hlt (Nat.le_of_lt_succ hothers))

/-- What scanning a template yields, with scanning itself for the templates in it. -/
theorem scan_eq (s : Setting) (file : Text) (offset : Int) (document : Text) :
    scan s file offset document =
      match parse? (protectEntities document) with
      | none => [.failure .unreadableMarkup]
      | some nodes =>
        nodesEvents s file offset (lineCount document) nodes (scan s file) := by
  rw [scan, scanToDepth]
  cases hnodes : parse? (protectEntities document) with
  | none => rfl
  | some nodes =>
    refine nodesEvents_congr fun e he hrole o => ?_
    exact scanToDepth_eq s file (length_rawText_lt hnodes he (.inl hrole)) (Nat.lt_succ_self _)

/-- What scanning a readable template yields, in terms of its located tree. -/
theorem scan_eq_of_locate? (s : Setting) (file : Text) (offset : Int) {document : Text}
    {nodes : List Located} (h : locate? (protectEntities document) = some nodes) :
    scan s file offset document =
      ((textRuns (.ofEnd (protectEntities document)) nodes).flatMap fun r =>
        textEvents s.delimiters file (r.ahead.line + offset) r.string.kept) ++
      (elementsIn (.ofEnd (protectEntities document)) nodes).flatMap fun e =>
        (placed e.1 e.2).events s file offset (scan s file) := by
  rw [scan_eq, parse?_eq, h]
  dsimp only [Option.map_some]
  rw [nodesEvents, ← line_ofEnd, textsWithLines_eq, elementsOfNodes_eq, List.flatMap_map,
    List.flatMap_map]

theorem infix_flatMap_of_mem {α β : Type} {f : α → List β} {l : List α} {a : α} (h : a ∈ l) :
    f a <:+: l.flatMap f := by
  rw [List.flatMap_def]
  exact List.infix_of_mem_flatten (List.mem_map_of_mem h)

/-- What an element yields is part of what the document yields. -/
theorem events_infix_scan_of_mem_elementsIn (s : Setting) (file : Text) (offset : Int)
    {document : Text} {nodes : List Located} {e : LocatedElement × Ahead}
    (h : locate? (protectEntities document) = some nodes)
    (he : e ∈ elementsIn (.ofEnd (protectEntities document)) nodes) :
    (placed e.1 e.2).events s file offset (scan s file) <:+: scan s file offset document := by
  rw [scan_eq_of_locate? s file offset h]
  exact (infix_flatMap_of_mem
    (f := fun e => (placed e.1 e.2).events s file offset (scan s file)) he).trans
    (List.suffix_append ..).isInfix

end MessageExtraction.Template
