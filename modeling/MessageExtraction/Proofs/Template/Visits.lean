import MessageExtraction.Proofs.Template.Elements
import MessageExtraction.Proofs.Template.Nesting

/-!
# Each part of a template is scanned in one way

A document is scanned by visiting some of its parts. The texts directly in the document and in plain
elements are visited for their interpolations, the non-empty attributes of plain elements for their
expressions, the raw texts of script elements as code or as templates, and the contents of marked
elements as messages. Every such part is visited once and no other part is: the visits are in
document order, those of one element with its attributes before its texts.

## Main definitions

* `Template.Address` -- the way from a document down to an element.
* `Template.elementAt?` -- the element at an address.
* `Template.Visit` -- a part that is scanned, and how.
* `Template.Visit.Yields` -- the events of a visit.
* `Template.Prescribed` -- the visits that a document calls for.
* `Template.Visit.Precedes` -- the order of visits.

## Main results

* `mem_visits_iff` -- the visits of a document are those that it calls for.
* `pairwise_visits` -- visits are in strict order.
* `scan_eq_flatten_visits` -- what scanning a document yields is what its visits yield.
-/

namespace MessageExtraction.Template

open Markup (Node Attribute parse?)

/-- The way from a document down to an element: the number of the child to go to at each step. The
document itself has the empty address. -/
abbrev Address := List Nat

/-- The element at an address below nodes. -/
def elementAt? (after : Int) (nodes : List Node) : Address → Option PlacedElement
  | [] => none
  | i :: path =>
    match nodes[i]? with
    | some (.element name attributes line children) =>
      let below := lineOfNodes after (nodes.drop (i + 1))
      if path.isEmpty then some ⟨name, attributes, line, children, below⟩
      else elementAt? below children path
    | _ => none

/-- A part of a document that is scanned, and how. A text is known by the address of the element
that it stands in and by its number among the children there, an attribute by its number. -/
inductive Visit
  /-- A text is searched for interpolations. -/
  | text (owner : Address) (i : Nat) (line : Int) (t : Text)
  /-- The value of an attribute is read as expressions. -/
  | value (owner : Address) (i : Nat) (e : PlacedElement) (a : Attribute)
  /-- The raw text of an element is scanned as a template. -/
  | template (owner : Address) (e : PlacedElement)
  /-- The raw text of an element is scanned as code. -/
  | code (owner : Address) (e : PlacedElement)
  /-- The content of an element is a message. -/
  | message (owner : Address) (e : PlacedElement)

namespace Visit

/-- A visit yields events. -/
inductive Yields (s : Setting) (file : Text) (offset : Int) : Visit → List ScanEvent → Prop
  | text (owner : Address) (i : Nat) (line : Int) (t : Text) :
      Yields s file offset (text owner i line t) (textEvents s.delimiters file (line + offset) t)
  | value (owner : Address) (i : Nat) (e : PlacedElement) (a : Attribute) :
      Yields s file offset (value owner i e a)
        (valueEvents s.delimiters file (e.line + offset) a.value)
  | template (owner : Address) (e : PlacedElement) :
      Yields s file offset (template owner e) (scan s file (offset + e.line - 1) e.rawText)
  | code (owner : Address) (e : PlacedElement) :
      Yields s file offset (code owner e)
        (Script.scan s.markers file (offset + e.line - 1) e.rawText)
  | message (owner : Address) {e : PlacedElement} {c : Candidate} (h : e.IsMessage file offset c) :
      Yields s file offset (message owner e) [.candidate c]

/-- The element that is visited, or in which a text is visited. -/
def owner : Visit → Address
  | text owner _ _ _ | value owner _ _ _ | template owner _ | code owner _
  | message owner _ => owner

/-- The place of a visit among those of one element: attributes come before texts. -/
def rank : Visit → List Nat
  | value _ i _ _ => [0, i]
  | text _ i _ _ => [1, i]
  | template _ _ | code _ _ | message _ _ => []

/-- One visit comes before another: its element comes first in the document, and among the visits of
one element the rank decides. -/
def Precedes (v w : Visit) : Prop :=
  v.owner < w.owner ∨ v.owner = w.owner ∧ v.rank < w.rank

end Visit

/-- The visits that a document calls for. -/
inductive Prescribed (after : Int) (nodes : List Node) : Visit → Prop
  | textOutside {i t} (ht : nodes[i]? = some (.text t)) :
      Prescribed after nodes (.text [] i (lineOfNodes after (nodes.drop i)) t)
  | text {a e i t} (he : elementAt? after nodes a = some e) (hplain : e.IsPlain)
      (ht : e.children[i]? = some (.text t)) :
      Prescribed after nodes (.text a i (lineOfNodes e.after (e.children.drop i)) t)
  | value {a e i x} (he : elementAt? after nodes a = some e) (hplain : e.IsPlain)
      (hx : e.attributes[i]? = some x) (hvalue : x.value ≠ []) :
      Prescribed after nodes (.value a i e x)
  | template {a e} (he : elementAt? after nodes a = some e) (hrole : e.HoldsTemplate) :
      Prescribed after nodes (.template a e)
  | code {a e} (he : elementAt? after nodes a = some e) (hrole : e.HoldsCode) :
      Prescribed after nodes (.code a e)
  | message {a e} (he : elementAt? after nodes a = some e) (hmarked : e.IsMarked)
      (htemplate : ¬ e.HoldsTemplate) (hcode : ¬ e.HoldsCode) :
      Prescribed after nodes (.message a e)

/-! ## The visits of a document -/

/-- The visits of texts among nodes that stand in an element, those before them not counted. -/
def textVisits (owner : Address) (after : Int) (before : Nat) : List Node → List Visit
  | [] => []
  | .text t :: nodes =>
    .text owner before (lineOfNodes after (.text t :: nodes)) t ::
      textVisits owner after (before + 1) nodes
  | _ :: nodes => textVisits owner after (before + 1) nodes

/-- The visits of attributes of an element, those before them not counted. -/
def attributeVisits (owner : Address) (e : PlacedElement) (before : Nat) :
    List Attribute → List Visit
  | [] => []
  | a :: attributes =>
    if a.value.isEmpty then attributeVisits owner e (before + 1) attributes
    else .value owner before e a :: attributeVisits owner e (before + 1) attributes

/-- The visits of an element. -/
def elementVisits (owner : Address) (e : PlacedElement) : List Visit :=
  match e.role with
  | .template => [.template owner e]
  | .code => [.code owner e]
  | .message => [.message owner e]
  | .plain => attributeVisits owner e 0 e.attributes ++ textVisits owner e.after 0 e.children

mutual

/-- The elements in a node that has a number of nodes before it, with their addresses. -/
def addressedInNode (after : Int) (before : Nat) : Node → List (Address × PlacedElement)
  | .text _ => []
  | .special _ _ => []
  | .element name attributes line children =>
    ([before], ⟨name, attributes, line, children, after⟩) ::
      (addressedIn after 0 children).map fun e => (before :: e.1, e.2)

/-- The elements in nodes that have a number of nodes before them, with their addresses. -/
def addressedIn (after : Int) (before : Nat) : List Node → List (Address × PlacedElement)
  | [] => []
  | node :: nodes =>
    addressedInNode (lineOfNodes after nodes) before node ++ addressedIn after (before + 1) nodes

end

/-- The visits of a document: those of its own texts, and then those of its elements. -/
def visits (after : Int) (nodes : List Node) : List Visit :=
  textVisits [] after 0 nodes ++
    (addressedIn after 0 nodes).flatMap fun e => elementVisits e.1 e.2

/-! ## What visits yield -/

/-- What a visit yields, given how templates are scanned. -/
def Visit.events (s : Setting) (file : Text) (offset : Int)
    (scanTemplate : Int → Text → List ScanEvent) : Visit → List ScanEvent
  | text _ _ line t => textEvents s.delimiters file (line + offset) t
  | value _ _ e a => valueEvents s.delimiters file (e.line + offset) a.value
  | template _ e => scanTemplate (offset + e.line - 1) e.rawText
  | code _ e => Script.scan s.markers file (offset + e.line - 1) e.rawText
  | message _ e => [.candidate (e.messageCandidate file offset)]

section

variable (s : Setting) (file : Text) (offset : Int) (scanTemplate : Int → Text → List ScanEvent)
  {owner : Address} {after : Int} {before : Nat} {e : PlacedElement} {v : Visit}

theorem flatMap_events_textVisits (owner : Address) (after : Int) (before : Nat)
    (nodes : List Node) :
    (textVisits owner after before nodes).flatMap (Visit.events s file offset scanTemplate) =
      (textsWithLines after nodes).flatMap fun t =>
        textEvents s.delimiters file (t.2 + offset) t.1 := by
  induction nodes generalizing before with
  | nil => rfl
  | cons node nodes ih =>
    cases node with
    | text t => exact congrArg (textEvents s.delimiters file _ t ++ ·) (ih (before + 1))
    | special kind t => exact ih (before + 1)
    | element name attributes line children => exact ih (before + 1)

theorem flatMap_events_attributeVisits (owner : Address) (e : PlacedElement) (before : Nat)
    (attributes : List Attribute) :
    (attributeVisits owner e before attributes).flatMap
        (Visit.events s file offset scanTemplate) =
      attributes.flatMap fun a => valueEvents s.delimiters file (e.line + offset) a.value := by
  induction attributes generalizing before with
  | nil => rfl
  | cons a attributes ih =>
    rw [attributeVisits, List.flatMap_cons, ← ih (before + 1)]
    split
    · next hempty => rw [valueEvents, if_pos hempty, List.nil_append]
    · rfl

/-- What an element yields is what its visits yield. -/
theorem flatMap_events_elementVisits (owner : Address) (e : PlacedElement) :
    (elementVisits owner e).flatMap (Visit.events s file offset scanTemplate) =
      e.events s file offset scanTemplate := by
  cases hrole : e.role with
  | template => simp [elementVisits, PlacedElement.events, hrole, Visit.events]
  | code => simp [elementVisits, PlacedElement.events, hrole, Visit.events]
  | message => simp [elementVisits, PlacedElement.events, hrole, Visit.events]
  | plain =>
    simp only [elementVisits, PlacedElement.events, hrole, List.flatMap_append,
      flatMap_events_attributeVisits, flatMap_events_textVisits]
    rfl

mutual

theorem map_snd_addressedInNode (after : Int) (before : Nat) : ∀ node : Node,
    (addressedInNode after before node).map Prod.snd = elementsOfNode after node
  | .text _ => rfl
  | .special _ _ => rfl
  | .element name attributes line children => by
    rw [addressedInNode, elementsOfNode, List.map_cons, List.map_map,
      ← map_snd_addressedIn after 0 children]
    rfl

/-- The elements with addresses are the elements in document order. -/
theorem map_snd_addressedIn (after : Int) (before : Nat) : ∀ nodes : List Node,
    (addressedIn after before nodes).map Prod.snd = elementsOfNodes after nodes
  | [] => rfl
  | node :: nodes => by
    rw [addressedIn, elementsOfNodes, List.map_append, map_snd_addressedInNode _ _ node,
      map_snd_addressedIn after _ nodes]

end

/-- What the nodes of a document yield is what its visits yield. -/
theorem nodesEvents_eq_flatMap_visits (lastLine : Int) (nodes : List Node) :
    nodesEvents s file offset lastLine nodes scanTemplate =
      (visits lastLine nodes).flatMap (Visit.events s file offset scanTemplate) := by
  rw [nodesEvents, visits, List.flatMap_append, flatMap_events_textVisits, List.flatMap_assoc,
    ← map_snd_addressedIn lastLine 0 nodes, List.flatMap_map]
  exact congrArg _ (List.flatMap_congr fun e _ =>
    (flatMap_events_elementVisits s file offset scanTemplate e.1 e.2).symm)

/-! ## Which visits there are -/

theorem mem_textVisits_iff {nodes : List Node} :
    v ∈ textVisits owner after before nodes ↔
      ∃ i t, nodes[i]? = some (.text t) ∧
        v = .text owner (before + i) (lineOfNodes after (nodes.drop i)) t := by
  induction nodes generalizing before with
  | nil => simp [textVisits]
  | cons node nodes ih =>
    have hlater : v ∈ textVisits owner after (before + 1) nodes ↔
        ∃ i t, (node :: nodes)[i + 1]? = some (.text t) ∧
          v = .text owner (before + (i + 1))
            (lineOfNodes after ((node :: nodes).drop (i + 1))) t := by
      simp only [ih, List.getElem?_cons_succ, List.drop_succ_cons, Nat.add_assoc, Nat.add_comm 1]
    rw [← Nat.or_exists_add_one, ← hlater]
    cases node with
    | text t => simp [textVisits]
    | special kind t => simp [textVisits]
    | element name attributes line children => simp [textVisits]

theorem mem_attributeVisits_iff {attributes : List Attribute} :
    v ∈ attributeVisits owner e before attributes ↔
      ∃ i a, attributes[i]? = some a ∧ a.value ≠ [] ∧ v = .value owner (before + i) e a := by
  induction attributes generalizing before with
  | nil => simp [attributeVisits]
  | cons a attributes ih =>
    have hlater : v ∈ attributeVisits owner e (before + 1) attributes ↔
        ∃ i x, (a :: attributes)[i + 1]? = some x ∧ x.value ≠ [] ∧
          v = .value owner (before + (i + 1)) e x := by
      simp only [ih, List.getElem?_cons_succ, Nat.add_assoc, Nat.add_comm 1]
    rw [← Nat.or_exists_add_one, ← hlater, attributeVisits]
    by_cases hvalue : a.value = []
    · simp [hvalue]
    · simp [hvalue]

theorem elementAt?_cons_succ (after : Int) (node : Node) (nodes : List Node) (i : Nat)
    (path : Address) :
    elementAt? after (node :: nodes) ((i + 1) :: path) = elementAt? after nodes (i :: path) := by
  simp [elementAt?]

mutual

theorem mem_addressedInNode_iff {p : Address × PlacedElement} (after : Int) (before : Nat)
    (nodes : List Node) : ∀ node : Node,
    p ∈ addressedInNode (lineOfNodes after nodes) before node ↔
      ∃ path, p.1 = before :: path ∧ elementAt? after (node :: nodes) (0 :: path) = some p.2
  | .text _ => by simp [addressedInNode, elementAt?]
  | .special _ _ => by simp [addressedInNode, elementAt?]
  | .element name attributes line children => by
    rw [addressedInNode, List.mem_cons, List.mem_map]
    constructor
    · rintro (rfl | ⟨q, hq, rfl⟩)
      · exact ⟨[], rfl, by simp [elementAt?]⟩
      · obtain ⟨i, path, hpath, hq⟩ := (mem_addressedIn_iff _ 0 children).mp hq
        refine ⟨q.1, rfl, ?_⟩
        simpa [elementAt?, hpath] using hq
    · rintro ⟨path, hpath, hp⟩
      obtain ⟨a, e⟩ := p
      obtain rfl : a = before :: path := hpath
      cases path with
      | nil => exact .inl (by simpa [elementAt?, eq_comm] using hp)
      | cons i path =>
        refine .inr ⟨(i :: path, e), (mem_addressedIn_iff _ 0 children).mpr ⟨i, path, ?_, ?_⟩, rfl⟩
        · rw [Nat.zero_add]
        · simpa [elementAt?] using hp

/-- The elements with addresses are those that stand at their addresses. -/
theorem mem_addressedIn_iff {p : Address × PlacedElement} (after : Int) (before : Nat) :
    ∀ nodes : List Node, p ∈ addressedIn after before nodes ↔
      ∃ i path, p.1 = (before + i) :: path ∧ elementAt? after nodes (i :: path) = some p.2
  | [] => by simp [addressedIn, elementAt?]
  | node :: nodes => by
    rw [addressedIn, List.mem_append, mem_addressedInNode_iff after before nodes node,
      mem_addressedIn_iff after (before + 1) nodes]
    conv_rhs => rw [← Nat.or_exists_add_one]
    simp only [elementAt?_cons_succ, Nat.add_assoc, Nat.add_comm 1, Nat.add_zero]

end

theorem mem_addressedIn_zero_iff {a : Address} {nodes : List Node} :
    (a, e) ∈ addressedIn after 0 nodes ↔ elementAt? after nodes a = some e := by
  rw [mem_addressedIn_iff]
  cases a with
  | nil => simp [elementAt?]
  | cons i path => simp

/-- The visits of an element are those that its kind calls for. -/
theorem mem_elementVisits_iff :
    v ∈ elementVisits owner e ↔
      (e.HoldsTemplate ∧ v = .template owner e) ∨ (e.HoldsCode ∧ v = .code owner e) ∨
      (e.IsMarked ∧ ¬ e.HoldsTemplate ∧ ¬ e.HoldsCode ∧ v = .message owner e) ∨
      (e.IsPlain ∧
        (v ∈ attributeVisits owner e 0 e.attributes ∨
          v ∈ textVisits owner e.after 0 e.children)) := by
  have hplain : e.IsPlain ↔ ¬ e.HoldsTemplate ∧ ¬ e.HoldsCode ∧ ¬ e.IsMarked :=
    ⟨fun h => ⟨h.1, h.2, h.3⟩, fun h => ⟨h.1, h.2.1, h.2.2⟩⟩
  rw [elementVisits, hplain]
  rcases e.role_cases with ⟨hrole, h⟩ | ⟨hrole, h⟩ | ⟨hrole, htemplate, hcode⟩
  · have hcode : ¬ e.HoldsCode := fun hc => PlacedElement.not_holdsTemplate_of_holdsCode hc h
    simp [hrole, h, hcode]
  · have htemplate := PlacedElement.not_holdsTemplate_of_holdsCode h
    simp [hrole, h, htemplate]
  · by_cases hmarked : e.IsMarked
    · simp [hrole, htemplate, hcode, hmarked, PlacedElement.isMarked_iff.mpr hmarked]
    · simp [hrole, htemplate, hcode, hmarked, mt PlacedElement.isMarked_iff.mp hmarked]

/-- The visits of a document are those that it calls for. -/
theorem mem_visits_iff {nodes : List Node} :
    v ∈ visits after nodes ↔ Prescribed after nodes v := by
  rw [visits, List.mem_append, List.mem_flatMap]
  constructor
  · rintro (h | ⟨⟨a, e⟩, he, h⟩)
    · obtain ⟨i, t, ht, rfl⟩ := mem_textVisits_iff.mp h
      rw [Nat.zero_add]
      exact .textOutside ht
    · have hat := mem_addressedIn_zero_iff.mp he
      rcases mem_elementVisits_iff.mp h with
        ⟨hrole, rfl⟩ | ⟨hrole, rfl⟩ | ⟨hmarked, htemplate, hcode, rfl⟩ | ⟨hplain, h | h⟩
      · exact .template hat hrole
      · exact .code hat hrole
      · exact .message hat hmarked htemplate hcode
      · obtain ⟨i, x, hx, hvalue, rfl⟩ := mem_attributeVisits_iff.mp h
        rw [Nat.zero_add]
        exact .value hat hplain hx hvalue
      · obtain ⟨i, t, ht, rfl⟩ := mem_textVisits_iff.mp h
        rw [Nat.zero_add]
        exact .text hat hplain ht
  · have hvisit {a : Address} {e : PlacedElement} {v : Visit}
        (he : elementAt? after nodes a = some e) (h : v ∈ elementVisits a e) :
        ∃ p ∈ addressedIn after 0 nodes, v ∈ elementVisits p.1 p.2 :=
      ⟨(a, e), mem_addressedIn_zero_iff.mpr he, h⟩
    intro h
    cases h with
    | textOutside ht => exact .inl (mem_textVisits_iff.mpr ⟨_, _, ht, by rw [Nat.zero_add]⟩)
    | text he hplain ht =>
      refine .inr (hvisit he (mem_elementVisits_iff.mpr (.inr (.inr (.inr ⟨hplain, .inr ?_⟩)))))
      exact mem_textVisits_iff.mpr ⟨_, _, ht, by rw [Nat.zero_add]⟩
    | value he hplain hx hvalue =>
      refine .inr (hvisit he (mem_elementVisits_iff.mpr (.inr (.inr (.inr ⟨hplain, .inl ?_⟩)))))
      exact mem_attributeVisits_iff.mpr ⟨_, _, hx, hvalue, by rw [Nat.zero_add]⟩
    | template he hrole => exact .inr (hvisit he (mem_elementVisits_iff.mpr (.inl ⟨hrole, rfl⟩)))
    | code he hrole =>
      exact .inr (hvisit he (mem_elementVisits_iff.mpr (.inr (.inl ⟨hrole, rfl⟩))))
    | message he hmarked htemplate hcode =>
      exact .inr (hvisit he (mem_elementVisits_iff.mpr
        (.inr (.inr (.inl ⟨hmarked, htemplate, hcode, rfl⟩)))))

/-! ## The order of visits -/

theorem pairwise_textVisits (nodes : List Node) :
    (textVisits owner after before nodes).Pairwise Visit.Precedes := by
  induction nodes generalizing before with
  | nil => exact List.Pairwise.nil
  | cons node nodes ih =>
    cases node with
    | text t =>
      refine List.Pairwise.cons (fun v hv => ?_) ih
      obtain ⟨i, u, -, rfl⟩ := mem_textVisits_iff.mp hv
      refine .inr ⟨rfl, List.cons_lt_cons_iff.mpr (.inr ⟨rfl, ?_⟩)⟩
      exact List.cons_lt_cons_iff.mpr (.inl (by omega))
    | special kind t => exact ih
    | element name attributes line children => exact ih

theorem pairwise_attributeVisits (attributes : List Attribute) :
    (attributeVisits owner e before attributes).Pairwise Visit.Precedes := by
  induction attributes generalizing before with
  | nil => exact List.Pairwise.nil
  | cons a attributes ih =>
    rw [attributeVisits]
    split
    · exact ih
    · refine List.Pairwise.cons (fun v hv => ?_) ih
      obtain ⟨i, x, -, -, rfl⟩ := mem_attributeVisits_iff.mp hv
      refine .inr ⟨rfl, List.cons_lt_cons_iff.mpr (.inr ⟨rfl, ?_⟩)⟩
      exact List.cons_lt_cons_iff.mpr (.inl (by omega))

theorem pairwise_elementVisits (owner : Address) (e : PlacedElement) :
    (elementVisits owner e).Pairwise Visit.Precedes := by
  rw [elementVisits]
  split
  · exact List.pairwise_singleton _ _
  · exact List.pairwise_singleton _ _
  · exact List.pairwise_singleton _ _
  · refine List.pairwise_append.mpr
      ⟨pairwise_attributeVisits e.attributes, pairwise_textVisits e.children, fun v hv w hw => ?_⟩
    obtain ⟨i, a, -, -, rfl⟩ := mem_attributeVisits_iff.mp hv
    obtain ⟨j, t, -, rfl⟩ := mem_textVisits_iff.mp hw
    exact .inr ⟨rfl, List.cons_lt_cons_iff.mpr (.inl Nat.zero_lt_one)⟩

theorem owner_of_mem_elementVisits (h : v ∈ elementVisits owner e) : v.owner = owner := by
  rcases mem_elementVisits_iff.mp h with
    ⟨-, rfl⟩ | ⟨-, rfl⟩ | ⟨-, -, -, rfl⟩ | ⟨-, h | h⟩
  · rfl
  · rfl
  · rfl
  · obtain ⟨i, a, -, -, rfl⟩ := mem_attributeVisits_iff.mp h
    rfl
  · obtain ⟨i, t, -, rfl⟩ := mem_textVisits_iff.mp h
    rfl

mutual

theorem pairwise_addressedInNode (after : Int) (before : Nat) : ∀ node : Node,
    (addressedInNode after before node).Pairwise fun p q => p.1 < q.1
  | .text _ => List.Pairwise.nil
  | .special _ _ => List.Pairwise.nil
  | .element name attributes line children => by
    rw [addressedInNode]
    refine List.Pairwise.cons (fun p hp => ?_) (List.pairwise_map.mpr ?_)
    · obtain ⟨q, hq, rfl⟩ := List.mem_map.mp hp
      obtain ⟨i, path, hpath, -⟩ := (mem_addressedIn_iff after 0 children).mp hq
      refine List.cons_lt_cons_iff.mpr (.inr ⟨rfl, ?_⟩)
      rw [hpath]
      exact List.nil_lt_cons _ _
    · exact (pairwise_addressedIn after 0 children).imp fun h =>
        List.cons_lt_cons_iff.mpr (.inr ⟨rfl, h⟩)

/-- Elements in document order have ascending addresses. -/
theorem pairwise_addressedIn (after : Int) (before : Nat) : ∀ nodes : List Node,
    (addressedIn after before nodes).Pairwise fun p q => p.1 < q.1
  | [] => List.Pairwise.nil
  | node :: nodes => by
    rw [addressedIn]
    refine List.pairwise_append.mpr ⟨pairwise_addressedInNode _ before node,
      pairwise_addressedIn after (before + 1) nodes, fun p hp q hq => ?_⟩
    obtain ⟨path, hpath, -⟩ := (mem_addressedInNode_iff after before nodes node).mp hp
    obtain ⟨i, other, hother, -⟩ := (mem_addressedIn_iff after (before + 1) nodes).mp hq
    rw [hpath, hother]
    exact List.cons_lt_cons_iff.mpr (.inl (by omega))

end

/-- The visits of a document are in strict order. -/
theorem pairwise_visits (after : Int) (nodes : List Node) :
    (visits after nodes).Pairwise Visit.Precedes := by
  rw [visits]
  refine List.pairwise_append.mpr ⟨pairwise_textVisits nodes, List.pairwise_flatMap.mpr
    ⟨fun p _ => pairwise_elementVisits p.1 p.2, ?_⟩, fun v hv w hw => .inl ?_⟩
  · refine (pairwise_addressedIn after 0 nodes).imp fun h v hv w hw => .inl ?_
    rw [owner_of_mem_elementVisits hv, owner_of_mem_elementVisits hw]
    exact h
  · obtain ⟨i, t, -, rfl⟩ := mem_textVisits_iff.mp hv
    obtain ⟨p, hp, hw⟩ := List.mem_flatMap.mp hw
    obtain ⟨i, path, hpath, -⟩ := (mem_addressedIn_iff after 0 nodes).mp hp
    rw [owner_of_mem_elementVisits hw, hpath]
    exact List.nil_lt_cons _ _

/-- Visits in strict order visit no part twice. -/
theorem nodup_parts {order : List Visit} (h : order.Pairwise Visit.Precedes) :
    (order.map fun v => (v.owner, v.rank)).Nodup := by
  refine List.pairwise_map.mpr (h.imp fun hlt heq => ?_)
  obtain ⟨howner, hrank⟩ := Prod.mk.inj heq
  rcases hlt with hlt | ⟨-, hlt⟩
  · exact List.lt_irrefl _ (howner ▸ hlt)
  · exact List.lt_irrefl _ (hrank ▸ hlt)

/-- A visit yields what is computed for it, and nothing else. -/
theorem Visit.yields_iff {row : List ScanEvent} :
    v.Yields s file offset row ↔ v.events s file offset (scan s file) = row := by
  constructor
  · rintro (_ | _ | _ | _ | ⟨_, h⟩)
    · rfl
    · rfl
    · rfl
    · rfl
    · exact congrArg (fun c => [ScanEvent.candidate c]) (PlacedElement.messageCandidate_eq_iff.mpr h)
  · rintro rfl
    cases v with
    | text owner i line t => exact .text owner i line t
    | value owner i e a => exact .value owner i e a
    | template owner e => exact .template owner e
    | code owner e => exact .code owner e
    | message owner e => exact .message owner (PlacedElement.messageCandidate_eq_iff.mp rfl)

/-- Scanning a document yields what its visits yield. The visits are exactly those that the tree of
the document calls for, they are in document order, and none of the texts, attributes and elements
is visited twice in whatever way. -/
theorem scan_eq_flatten_visits {document : Text} {nodes : List Node}
    (h : parse? (protectEntities document) = some nodes) :
    ∃ (order : List Visit) (rows : List (List ScanEvent)),
      (∀ v, v ∈ order ↔ Prescribed (lineCount document) nodes v) ∧
      order.Pairwise Visit.Precedes ∧ (order.map fun v => (v.owner, v.rank)).Nodup ∧
      List.Forall₂ (Visit.Yields s file offset) order rows ∧
      scan s file offset document = rows.flatten := by
  refine ⟨visits (lineCount document) nodes, (visits (lineCount document) nodes).map
    (Visit.events s file offset (scan s file)), fun v => mem_visits_iff, pairwise_visits _ _,
    nodup_parts (pairwise_visits _ _), ?_, ?_⟩
  · rw [List.forall₂_map_right_iff, List.forall₂_same]
    exact fun v _ => (Visit.yields_iff s file offset).mpr rfl
  · rw [scan_eq, h, ← List.flatMap_def]
    exact nodesEvents_eq_flatMap_visits ..

end

/-- A text, and below it a message with a plural form, a comment and a context, around an element
that has a message in an attribute; then a template and code in script elements. The plural form has
an empty short form, and of two contexts the short form counts. -/
def messageInMessage : Text :=
  "\x7b\x7b 'a' | translate \x7d\x7d\n<p data-translate translate-plural=\x22\x22 " ++
    "data-translate-plural=\x22cs &amp; ds\x22 data-translate-comment=\x22note\x22 " ++
    "translate-context=\x22home\x22 data-translate-context=\x22other\x22>" ++
    "<i title=\x22'b' | translate\x22>c</i></p>\n" ++
    "<script type=\x22text/ng-template\x22>\x7b\x7b 'd' | translate \x7d\x7d</script>" ++
    "<script>gettext('e')</script>"

/-- The text comes first, then the marked element as a whole, then the attribute in it, and then the
scripts, each on its own line. -/
theorem scan_messageInMessage :
    ∃ nodes, parse? (protectEntities messageInMessage) = some nodes ∧
      ∃ (order : List Visit) (rows : List (List ScanEvent)),
        (∀ v, v ∈ order ↔ Prescribed (lineCount messageInMessage) nodes v) ∧
        order.Pairwise Visit.Precedes ∧ (order.map fun v => (v.owner, v.rank)).Nodup ∧
        List.Forall₂ (Visit.Yields ⟨doubleBraces.delimiters, ["gettext"]⟩ "t.html" 4) order rows ∧
        rows.flatten =
          [.candidate ⟨⟨"t.html", some 5⟩, "a", none, none, none⟩,
            .candidate ⟨⟨"t.html", some 6⟩, "<i title=\x22'b' | translate\x22>c</i>",
              some "cs &amp; ds", some "note", some "home"⟩,
            .candidate ⟨⟨"t.html", some 6⟩, "b", none, none, none⟩,
            .candidate ⟨⟨"t.html", some 7⟩, "d", none, none, none⟩,
            .candidate ⟨⟨"t.html", some 7⟩, "e", none, some "", none⟩] := by
  obtain ⟨nodes, hnodes⟩ : ∃ nodes, parse? (protectEntities messageInMessage) = some nodes :=
    Option.isSome_iff_exists.mp (by decide +kernel)
  obtain ⟨order, rows, hmem, hpairwise, hnodup, hrows, hscan⟩ :=
    scan_eq_flatten_visits ⟨doubleBraces.delimiters, ["gettext"]⟩ "t.html" 4 hnodes
  refine ⟨nodes, hnodes, order, rows, hmem, hpairwise, hnodup, hrows, hscan.symm.trans ?_⟩
  decide +kernel

end MessageExtraction.Template
