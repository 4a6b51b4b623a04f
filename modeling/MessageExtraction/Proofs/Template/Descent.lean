import MessageExtraction.Proofs.Template.Visits

/-!
# Scanning nested templates ends

A template in a script element is scanned as a document of its own. It is what the tree keeps of a
part of the document that comes after a start tag, so it is shorter than the document, whether the
script element is closed or not. Templates can therefore nest no deeper than the document is long,
and what scanning yields is determined by what one document yields given what the templates in it
yield.

## Main definitions

* `Template.Nests` -- a template is scanned as part of a document.
* `Template.scanWith` -- what scanning one document yields, given how templates in it are scanned.

## Main results

* `Template.length_lt_of_nests` -- a template is shorter than the document that it stands in.
* `Template.length_le_of_isChain` -- how deep templates nest.
* `Template.nests_ends_and_scan_unique` -- nesting ends, and scanning is determined by its recursion.
-/

namespace MessageExtraction.Template

open Markup (parse?)

variable {document inner : Text} {s : Setting} {file : Text} {offset : Int}
  {f g : Int → Text → List ScanEvent}

/-- A template is scanned as part of a document: it is the raw text of a script element there that
holds a template. -/
inductive Nests (document : Text) : Text → Prop
  | script {nodes : List Markup.Node} {a : Address} {e : PlacedElement}
      (hnodes : parse? (protectEntities document) = some nodes)
      (he : elementAt? (lineCount document) nodes a = some e) (htemplate : e.HoldsTemplate) :
      Nests document e.rawText

/-- What scanning a document yields, given how the templates in it are scanned. -/
def scanWith (s : Setting) (file : Text) (scanTemplate : Int → Text → List ScanEvent)
    (offset : Int) (document : Text) : List ScanEvent :=
  match parse? (protectEntities document) with
  | none => [.failure .unreadableMarkup]
  | some nodes => nodesEvents s file offset (lineCount document) nodes scanTemplate

/-! ## Templates in documents -/

theorem PlacedElement.role_eq_template_iff {e : PlacedElement} :
    e.role = .template ↔ e.HoldsTemplate := by
  rcases e.role_cases with ⟨hrole, h⟩ | ⟨hrole, h⟩ | ⟨hrole, h, -⟩
  · exact iff_of_true hrole h
  · exact iff_of_false (by simp [hrole]) (not_holdsTemplate_of_holdsCode h)
  · exact iff_of_false (by rw [hrole]; split <;> simp) h

/-- The elements in document order are those that stand at some address. -/
theorem mem_elementsOfNodes_iff {after : Int} {nodes : List Markup.Node} {e : PlacedElement} :
    e ∈ elementsOfNodes after nodes ↔ ∃ a, elementAt? after nodes a = some e := by
  rw [← map_snd_addressedIn after 0 nodes, List.mem_map]
  constructor
  · rintro ⟨⟨a, _⟩, he, rfl⟩
    exact ⟨a, mem_addressedIn_zero_iff.mp he⟩
  · rintro ⟨a, he⟩
    exact ⟨(a, e), mem_addressedIn_zero_iff.mpr he, rfl⟩

/-- A template is shorter than the document that it stands in. -/
theorem length_lt_of_nests (h : Nests document inner) : inner.length < document.length := by
  obtain ⟨hnodes, he, htemplate⟩ := h
  exact length_rawText_lt hnodes (mem_elementsOfNodes_iff.mpr ⟨_, he⟩)
    (.inl (PlacedElement.role_eq_template_iff.mpr htemplate))

/-- Going from a document to a template in it, to a template in that, and so on, ends within as many
steps as the document is long. -/
theorem length_le_of_isChain {inners : List Text} (h : (document :: inners).IsChain Nests) :
    inners.length ≤ document.length := by
  induction inners generalizing document with
  | nil => exact Nat.zero_le _
  | cons inner inners ih =>
    obtain ⟨hinner, hinners⟩ := List.isChain_cons_cons.mp h
    exact Nat.lt_of_le_of_lt (ih hinners) (length_lt_of_nests hinner)

/-! ## Scanning -/

/-- What scanning a document yields depends on how the templates in it are scanned and on no others. -/
theorem scanWith_congr (h : ∀ inner, Nests document inner → ∀ o, f o inner = g o inner) :
    scanWith s file f offset document = scanWith s file g offset document := by
  rw [scanWith, scanWith]
  split
  · rfl
  · next nodes hnodes =>
    refine nodesEvents_congr fun e he hrole o => ?_
    obtain ⟨a, ha⟩ := mem_elementsOfNodes_iff.mp he
    exact h _ (.script hnodes ha (PlacedElement.role_eq_template_iff.mp hrole)) o

theorem scan_eq_scanWith (s : Setting) (file : Text) (offset : Int) (document : Text) :
    scan s file offset document = scanWith s file (scan s file) offset document :=
  scan_eq s file offset document

/-- Two ways of scanning that scan the templates in a document as they scan the document are one. -/
theorem eq_of_scanWith (hf : ∀ offset document, f offset document = scanWith s file f offset document)
    (hg : ∀ offset document, g offset document = scanWith s file g offset document)
    (offset : Int) (document : Text) : f offset document = g offset document := by
  induction hlength : document.length using Nat.strong_induction_on generalizing offset document with
  | h n ih =>
    subst hlength
    rw [hf, hg]
    exact scanWith_congr fun inner hinner o => ih _ (length_lt_of_nests hinner) o inner rfl

/-- Every template that is scanned as part of a document is shorter than the document, so nesting
ends, within as many steps as the document is long. No other templates are scanned with a document,
and so scanning is the one way of scanning that scans the templates in a document as it scans the
document. -/
theorem nests_ends_and_scan_unique (s : Setting) (file : Text) :
    (∀ document inner, Nests document inner → inner.length < document.length) ∧
    (WellFounded fun inner document => Nests document inner) ∧
    (∀ document inners, (document :: inners).IsChain Nests → inners.length ≤ document.length) ∧
    (∀ f g offset document, (∀ inner, Nests document inner → ∀ o, f o inner = g o inner) →
      scanWith s file f offset document = scanWith s file g offset document) ∧
    ∀ f, (∀ offset document, f offset document = scanWith s file f offset document) ↔
      f = scan s file := by
  refine ⟨fun _ _ => length_lt_of_nests, ?_, fun _ _ => length_le_of_isChain,
    fun _ _ _ _ => scanWith_congr, fun f => ⟨fun hf => ?_, ?_⟩⟩
  · exact Subrelation.wf length_lt_of_nests (measure List.length).wf
  · funext offset document
    exact eq_of_scanWith hf (scan_eq_scanWith s file) offset document
  · rintro rfl
    exact scan_eq_scanWith s file

/-- The template in the first element of a document. -/
theorem nests_of_first
    (h : ((parse? (protectEntities document)).bind fun nodes =>
      (elementAt? (lineCount document) nodes [0]).map fun e => (e.role, e.rawText)) =
        some (.template, inner)) : Nests document inner := by
  obtain ⟨nodes, hnodes, helement⟩ := Option.bind_eq_some_iff.mp h
  obtain ⟨e, he, hparts⟩ := Option.map_eq_some_iff.mp helement
  obtain ⟨hrole, rfl⟩ := Prod.mk.inj hparts
  exact .script hnodes he (PlacedElement.role_eq_template_iff.mp hrole)

/-- A start tag after which a template begins. -/
def templateOpening : Text :=
  "<script type=text/ng-template>"

/-- What looks like an end tag, in any case of its letters, and is none: it keeps the text before it
from being dropped where no end tag comes. -/
def strayEnd : Text :=
  "</\u017fcript>"

/-- A template that is not closed holds another one that is not closed. -/
theorem isChain_unclosed :
    [templateOpening ++ templateOpening ++ strayEnd, templateOpening ++ strayEnd,
      strayEnd].IsChain Nests ∧
    2 ≤ (templateOpening ++ templateOpening ++ strayEnd).length := by
  have hchain : [templateOpening ++ templateOpening ++ strayEnd, templateOpening ++ strayEnd,
      strayEnd].IsChain Nests :=
    .cons_cons (nests_of_first (by decide +kernel))
      (.cons_cons (nests_of_first (by decide +kernel)) (.singleton _))
  exact ⟨hchain, (nests_ends_and_scan_unique doubleBraces "t.html").2.2.1 _ _ hchain⟩

end MessageExtraction.Template
