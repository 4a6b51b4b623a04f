import MessageExtraction.Proofs.Markup.RawElements
import MessageExtraction.Template.Scan

/-!
# What lies ahead of a text

The line of a text is reckoned back from the next start tag, or from the end of the document, by the
line feeds of the strings up to there. What is reckoned with is a part of the document order: the
strings ahead of a place and what stands before the tag that ends them.

## Main definitions

* `Template.Ahead` -- the strings ahead of a place and where they end.
* `Template.TextRun` -- a text and what lies ahead of it.
* `Template.textRuns` -- the texts among nodes.
* `Template.elementsIn` -- the elements among nodes, each with what lies ahead of its end.

## Main results

* `textsWithLines_eq` -- the lines of texts are reckoned from what lies ahead.
* `elementsOfNodes_eq` -- so are the lines at the ends of elements.
* `exists_marks_of_mem_textRuns` -- what lies ahead of a text is what follows it in the document.
-/

namespace MessageExtraction.Template

open Markup

/-- What stands before the next start tag or the end of the document, and the strings up to
there. -/
structure Ahead where
  place : Text
  strings : List LocatedString
deriving DecidableEq

namespace Ahead

/-- What lies ahead of the end of a document. -/
def ofEnd (document : Text) : Ahead :=
  ⟨document, []⟩

/-- The number of line feeds that the tree keeps of the strings ahead. -/
def keptFeeds (a : Ahead) : Nat :=
  Text.lineFeeds (a.strings.flatMap LocatedString.kept)

/-- The line of a place as it is reckoned back from what lies ahead. -/
def line (a : Ahead) : Int :=
  (lineAfter a.place : Int) - a.keptFeeds

/-- What lies ahead of marks after which something lies ahead. -/
def before (after : Ahead) : List Mark → Ahead
  | [] => after
  | .tag before :: _ => ⟨before, []⟩
  | .string s :: marks => ⟨(after.before marks).place, s :: (after.before marks).strings⟩

theorem before_append (after : Ahead) (marks others : List Mark) :
    after.before (marks ++ others) = (after.before others).before marks := by
  induction marks with
  | nil => rfl
  | cons m marks ih =>
    cases m with
    | tag => rfl
    | string s => simp only [List.cons_append, before, ih]

theorem line_before_string (after : Ahead) (s : LocatedString) (marks : List Mark) :
    (after.before (.string s :: marks)).line =
      (after.before marks).line - Text.lineFeeds s.kept := by
  simp only [line, before, keptFeeds, List.flatMap_cons, lineFeeds_append]
  omega

end Ahead

/-- The line on which nodes begin. -/
theorem lineOfNodes_eq (after : Ahead) (nodes : List Located) :
    lineOfNodes after.line (eraseAll nodes) = (after.before (marksOf nodes)).line := by
  induction nodes with
  | nil => rfl
  | cons node nodes ih =>
    cases node with
    | string s =>
      have hnode : lineOfNode (lineOfNodes after.line (eraseAll nodes)) s.erase =
          lineOfNodes after.line (eraseAll nodes) - Text.lineFeeds s.kept := by
        rw [LocatedString.erase]
        split <;> rfl
      rw [eraseAll, Located.erase, lineOfNodes, hnode, ih]
      exact (after.line_before_string s _).symm
    | element name attributes before opening children =>
      simp [eraseAll, Located.erase, lineOfNodes, lineOfNode, marksOf, Located.marks, Ahead.before,
        Ahead.line, Ahead.keptFeeds]

/-- A text, and what lies ahead of its beginning. -/
structure TextRun where
  string : LocatedString
  ahead : Ahead
deriving DecidableEq

/-- The texts among nodes after which something lies ahead. -/
def textRuns (after : Ahead) : List Located → List TextRun
  | [] => []
  | .string s :: nodes =>
    if s.kind = none then ⟨s, after.before (marksOf (.string s :: nodes))⟩ :: textRuns after nodes
    else textRuns after nodes
  | .element _ _ _ _ _ :: nodes => textRuns after nodes

/-- The lines of texts are reckoned from what lies ahead of them. -/
theorem textsWithLines_eq (after : Ahead) (nodes : List Located) :
    textsWithLines after.line (eraseAll nodes) =
      (textRuns after nodes).map fun r => (r.string.kept, r.ahead.line) := by
  induction nodes with
  | nil => rfl
  | cons node nodes ih =>
    cases node with
    | string s =>
      rw [eraseAll, Located.erase, LocatedString.erase, textRuns]
      split
      · next hkind =>
        rw [if_pos hkind, textsWithLines, ih, lineOfNodes_eq, List.map_cons]
        exact congrArg (fun line => (s.kept, line) :: _) (after.line_before_string s _).symm
      · next kind hkind =>
        rw [if_neg (by rw [hkind]; exact Option.some_ne_none kind), textsWithLines, ih]
        exact fun _ h => by cases h
    | element name attributes before opening children =>
      rw [eraseAll, Located.erase, textRuns, textsWithLines, ih]
      exact fun _ h => by cases h

/-- An element as templates are scanned for it. -/
def placed (e : LocatedElement) (after : Ahead) : PlacedElement :=
  ⟨e.name, e.attributes, lineAfter e.before, eraseAll e.children, after.line⟩

mutual

/-- The elements in a node, each with what lies ahead of its end. -/
def elementsInNode (after : Ahead) : Located → List (LocatedElement × Ahead)
  | .string _ => []
  | .element name attributes before opening children =>
    (⟨name, attributes, before, opening, children⟩, after) :: elementsIn after children

/-- The elements among nodes, each with what lies ahead of its end. -/
def elementsIn (after : Ahead) : List Located → List (LocatedElement × Ahead)
  | [] => []
  | node :: nodes => elementsInNode (after.before (marksOf nodes)) node ++ elementsIn after nodes

end

mutual

theorem elementsOfNode_eq (after : Ahead) : ∀ node : Located,
    elementsOfNode after.line node.erase =
      (elementsInNode after node).map fun e => placed e.1 e.2
  | .string s => by
    rw [Located.erase, LocatedString.erase]
    split <;> rfl
  | .element name attributes before opening children => by
    rw [Located.erase, elementsOfNode, elementsInNode, List.map_cons, elementsOfNodes_eq after]
    rfl

/-- The elements of a document as templates are scanned for them. -/
theorem elementsOfNodes_eq (after : Ahead) : ∀ nodes : List Located,
    elementsOfNodes after.line (eraseAll nodes) =
      (elementsIn after nodes).map fun e => placed e.1 e.2
  | [] => rfl
  | node :: nodes => by
    rw [eraseAll, elementsOfNodes, elementsIn, List.map_append, lineOfNodes_eq,
      elementsOfNode_eq _ node, elementsOfNodes_eq after nodes]

end

mutual

theorem map_fst_elementsInNode (after : Ahead) : ∀ node : Located,
    (elementsInNode after node).map Prod.fst = node.elements
  | .string _ => rfl
  | .element name attributes before opening children => by
    rw [elementsInNode, List.map_cons, map_fst_elementsIn after, Located.elements]

theorem map_fst_elementsIn (after : Ahead) : ∀ nodes : List Located,
    (elementsIn after nodes).map Prod.fst = elementsOf nodes
  | [] => rfl
  | node :: nodes => by
    rw [elementsIn, List.map_append, map_fst_elementsInNode, map_fst_elementsIn after nodes,
      elementsOf]

end

/-! ## Document order -/

/-- What lies ahead of a text is what follows it in the document. -/
theorem exists_marks_of_mem_textRuns {after : Ahead} {marks : List Mark} {nodes : List Located}
    {r : TextRun} (h : r ∈ textRuns (after.before marks) nodes) :
    ∃ first rest, marksOf nodes ++ marks = first ++ .string r.string :: rest ∧
      r.string.kind = none ∧ r.ahead = after.before (.string r.string :: rest) := by
  induction nodes with
  | nil => exact absurd h List.not_mem_nil
  | cons node nodes ih =>
    cases node with
    | string s =>
      rw [textRuns] at h
      have hlater (h : r ∈ textRuns (after.before marks) nodes) : ∃ first rest,
          marksOf (.string s :: nodes) ++ marks = first ++ .string r.string :: rest ∧
            r.string.kind = none ∧ r.ahead = after.before (.string r.string :: rest) := by
        obtain ⟨first, rest, hmarks, hrun⟩ := ih h
        exact ⟨.string s :: first, rest, congrArg (Mark.string s :: ·) hmarks, hrun⟩
      split at h
      · next hkind =>
        rcases List.mem_cons.mp h with rfl | h
        · refine ⟨[], marksOf nodes ++ marks, rfl, hkind, ?_⟩
          exact (after.before_append (.string s :: marksOf nodes) marks).symm
        · exact hlater h
      · exact hlater h
    | element name attributes before opening children =>
      obtain ⟨first, rest, hmarks, hrun⟩ := ih h
      refine ⟨.tag before :: marksOf children ++ first, rest, ?_, hrun⟩
      rw [marksOf, Located.marks, List.append_assoc, hmarks]
      simp

mutual

theorem exists_marks_of_mem_elementsInNode {after : Ahead} {marks : List Mark}
    {e : LocatedElement × Ahead} : ∀ node : Located, e ∈ elementsInNode (after.before marks) node →
    ∃ first rest, node.marks ++ marks = first ++ marksOf e.1.children ++ rest ∧
      e.2 = after.before rest
  | .string _, h => absurd h List.not_mem_nil
  | .element name attributes before opening children, h => by
    rcases List.mem_cons.mp h with rfl | h
    · exact ⟨[.tag before], marks, rfl, rfl⟩
    · obtain ⟨first, rest, hmarks, hahead⟩ := exists_marks_of_mem_elementsIn children h
      exact ⟨.tag before :: first, rest, congrArg (Mark.tag before :: ·) hmarks, hahead⟩

/-- What lies ahead of the end of an element is what follows it in the document. -/
theorem exists_marks_of_mem_elementsIn {after : Ahead} {marks : List Mark}
    {e : LocatedElement × Ahead} : ∀ nodes : List Located,
    e ∈ elementsIn (after.before marks) nodes →
    ∃ first rest, marksOf nodes ++ marks = first ++ marksOf e.1.children ++ rest ∧
      e.2 = after.before rest
  | [], h => absurd h List.not_mem_nil
  | node :: nodes, h => by
    rcases List.mem_append.mp h with h | h
    · rw [← Ahead.before_append] at h
      obtain ⟨first, rest, hmarks, hahead⟩ := exists_marks_of_mem_elementsInNode node h
      exact ⟨first, rest, by rw [marksOf, List.append_assoc, hmarks], hahead⟩
    · obtain ⟨first, rest, hmarks, hahead⟩ := exists_marks_of_mem_elementsIn nodes h
      refine ⟨node.marks ++ first, rest, ?_, hahead⟩
      rw [marksOf, List.append_assoc, hmarks]
      simp only [List.append_assoc]

end

end MessageExtraction.Template
