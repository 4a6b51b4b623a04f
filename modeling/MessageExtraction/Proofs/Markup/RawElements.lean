import MessageExtraction.Proofs.Markup.Order

/-!
# Elements at their places

Every element of a located tree begins with its start tag at its place. A raw element has no
children but one text, the part of the document from its start tag up to its end tag. If it is
closed within its start tag or ends nowhere, it is empty.

## Main definitions

* `Markup.LocatedElement` -- an element with its place.
* `Markup.elementsOf` -- the elements of a located tree.
* `Markup.Begins` -- an element begins at its place.
* `Markup.HoldsRaw` -- an element holds a part of the document as its raw text.

## Main results

* `stands_of_locate?` -- the elements of a document begin at their places, and the raw ones hold
  what follows their start tags.
-/

namespace MessageExtraction.Markup

/-- An element with its place. -/
structure LocatedElement where
  name : Text
  attributes : List Attribute
  before : Text
  opening : Text
  children : List Located

/-- An open element as it would be at its end. -/
def LocatedOpen.element (e : LocatedOpen) : LocatedElement :=
  ⟨e.name, e.attributes, e.before, e.opening, e.children.reverse⟩

mutual

/-- The elements of a part of a document. -/
def Located.elements : Located → List LocatedElement
  | .string _ => []
  | .element name attributes before opening children =>
    ⟨name, attributes, before, opening, children⟩ :: elementsOf children

/-- The elements of parts of a document, in document order. -/
def elementsOf : List Located → List LocatedElement
  | [] => []
  | node :: nodes => node.elements ++ elementsOf nodes

end

theorem elementsOf_eq_flatMap (nodes : List Located) :
    elementsOf nodes = nodes.flatMap Located.elements := by
  induction nodes with
  | nil => rfl
  | cons node nodes ih => rw [elementsOf, ih, List.flatMap_cons]

theorem mem_elementsOf_reverse {nodes : List Located} {e : LocatedElement} :
    e ∈ elementsOf nodes.reverse ↔ e ∈ elementsOf nodes := by
  simp only [elementsOf_eq_flatMap, List.mem_flatMap, List.mem_reverse]

/-- The start tag of an element stands at its place, and a text follows it. -/
structure Begins (document : Text) (e : LocatedElement) (tag : StartTag) (rest : Text) : Prop where
  document_eq : document = e.before ++ e.opening ++ rest
  read_eq : StartTag.read ((e.opening ++ rest).drop 1) = .tag tag rest
  name_eq : e.name = tag.name
  attributes_eq : e.attributes = Builder.distinctAttributes tag.attributes

/-- The children of a raw element with a content that stands at a place. -/
def rawChildren (before content : Text) (preserved : Bool) : List Located :=
  if content.isEmpty then [] else [.string ⟨none, before, content, preserved⟩]

/-- A start tag is not empty. -/
theorem Begins.opening_ne_nil {document rest : Text} {e : LocatedElement} {tag : StartTag}
    (h : Begins document e tag rest) : e.opening ≠ [] := by
  intro hnil
  have hread := h.read_eq
  rw [hnil, List.nil_append] at hread
  have hlength := (StartTag.suffix_of_read (.inl ⟨tag, hread⟩)).length_le
  cases rest with
  | nil => cases hread
  | cons c rest =>
    simp only [List.drop_succ_cons, List.drop_zero, List.length_cons] at hlength
    omega

/-- What follows the content of a raw element that is not closed within its start tag: its end tag,
or text that holds none. -/
def EndsContent (name after : Text) : Prop :=
  endsRaw name after = true ∨ ∀ i, endsRaw name (after.drop i) = false

/-- An element holds a content that other text follows: nothing if the element is closed within its
start tag, else what stands before its end tag, or what is kept where no end tag comes. -/
structure HoldsRaw (e : LocatedElement) (tag : StartTag) (content rest : Text) : Prop where
  children_eq : ∃ preserved, e.children = rawChildren (e.before ++ e.opening) content preserved
  ends : if tag.selfClosing then content = [] else EndsContent e.name rest

/-- An element stands in a document, and if it is a raw element it holds what follows its start
tag. -/
def Stands (document : Text) (e : LocatedElement) : Prop :=
  ∃ tag rest, Begins document e tag rest ∧
    (e.name ∈ rawNames → ∃ content after, rest = content ++ after ∧ HoldsRaw e tag content after)

namespace LocatedBuilder

/-- The elements that have ended. -/
def closed (b : LocatedBuilder) : List LocatedElement :=
  elementsOf b.outside ++ b.opened.flatMap fun e => elementsOf e.children

theorem mem_closed_addNode {b : LocatedBuilder} {node : Located} {e : LocatedElement} :
    e ∈ (b.addNode node).closed ↔ e ∈ b.closed ∨ e ∈ node.elements := by
  rcases b with ⟨_ | ⟨o, others⟩, outside, pending, pendingBefore, passedOver⟩
  · simp [addNode, closed, elementsOf, or_comm]
  · simp only [addNode, closed, elementsOf, List.flatMap_cons, List.mem_append]
    tauto

/-- The elements that have ended stand in the document, the open ones begin in it and are not raw,
and only void elements have end tags to be passed over. -/
structure Sound (document : Text) (b : LocatedBuilder) : Prop where
  closed : ∀ e ∈ b.closed, Stands document e
  opened : ∀ e ∈ b.opened, e.name ∉ rawNames ∧ ∃ tag rest, Begins document e.element tag rest
  passedOver : ∀ name ∈ b.passedOver, name ∈ voidNames

namespace Sound

variable {document : Text} {b : LocatedBuilder}

theorem addNode (h : Sound document b) {node : Located}
    (hnode : ∀ e ∈ node.elements, Stands document e) : Sound document (b.addNode node) where
  closed e he := (mem_closed_addNode.mp he).elim (h.closed e) (hnode e)
  opened e he := by
    rcases b with ⟨_ | ⟨o, others⟩, outside, pending, pendingBefore, passedOver⟩
    · exact absurd he List.not_mem_nil
    · rcases List.mem_cons.mp he with rfl | he
      · obtain ⟨hraw, tag, rest, hbegins⟩ := h.opened o (List.mem_cons_self ..)
        exact ⟨hraw, tag, rest, hbegins.1, hbegins.2, hbegins.3, hbegins.4⟩
      · exact h.opened e (List.mem_cons_of_mem _ he)
  passedOver := by
    rcases b with ⟨_ | ⟨o, others⟩, outside, pending, pendingBefore, passedOver⟩ <;>
      exact h.passedOver

theorem addNode_string (h : Sound document b) (s : LocatedString) :
    Sound document (b.addNode (.string s)) :=
  h.addNode fun _ he => absurd he List.not_mem_nil

theorem endText (h : Sound document b) : Sound document b.endText := by
  rw [LocatedBuilder.endText]
  split
  · exact h
  · have hnode := h.addNode_string ⟨none, b.pendingBefore, b.pending, b.preserves⟩
    exact ⟨hnode.closed, hnode.opened, hnode.passedOver⟩

theorem closeInnermost (h : Sound document b) : Sound document b.closeInnermost := by
  rcases b with ⟨_ | ⟨o, others⟩, outside, pending, pendingBefore, passedOver⟩
  · exact h
  · have hothers : Sound document ⟨others, outside, pending, pendingBefore, passedOver⟩ :=
      ⟨fun e he => h.closed e (by
          simp only [LocatedBuilder.closed, List.flatMap_cons, List.mem_append] at he ⊢
          tauto),
        fun e he => h.opened e (List.mem_cons_of_mem _ he), h.passedOver⟩
    obtain ⟨hraw, tag, rest, hbegins⟩ := h.opened o (List.mem_cons_self ..)
    refine hothers.addNode fun e he => ?_
    rcases List.mem_cons.mp he with rfl | he
    · exact ⟨tag, rest, hbegins, fun hname => absurd hname hraw⟩
    · refine h.closed e (List.mem_append_right _ ?_)
      exact List.mem_flatMap.mpr ⟨o, List.mem_cons_self .., mem_elementsOf_reverse.mp he⟩

theorem closeInnermosts (h : Sound document b) (n : Nat) :
    Sound document (b.closeInnermosts n) := by
  induction n generalizing b with
  | zero => exact h
  | succ n ih => exact ih h.closeInnermost

theorem endTag (h : Sound document b) (name : Text) : Sound document (b.endTag name) := by
  rw [LocatedBuilder.endTag]
  split
  · exact ⟨h.closed, h.opened, fun n hn => h.passedOver n (List.mem_of_mem_erase hn)⟩
  · rw [closeNamed]
    split
    · exact h.endText
    · exact h.endText.closeInnermosts _

theorem openElement (h : Sound document b) {e : LocatedOpen} (hchildren : e.children = [])
    (hraw : e.name ∉ rawNames) {tag : StartTag} {rest : Text}
    (hbegins : Begins document e.element tag rest) : Sound document (b.openElement e) where
  closed o ho := by
    refine h.closed o ?_
    simpa [LocatedBuilder.closed, LocatedBuilder.openElement, hchildren, elementsOf] using ho
  opened o ho := by
    rcases List.mem_cons.mp ho with rfl | ho
    · exact ⟨hraw, tag, rest, hbegins⟩
    · exact h.opened o ho
  passedOver := h.passedOver

/-- A raw element that ends becomes an element that holds its content. -/
theorem addNode_raw (h : Sound document b) {e : LocatedElement} {tag : StartTag}
    {content after : Text} (hbegins : Begins document e tag (content ++ after))
    (hholds : HoldsRaw e tag content after) :
    Sound document (b.addNode (.element e.name e.attributes e.before e.opening e.children)) := by
  refine h.addNode fun o ho => ?_
  rcases List.mem_cons.mp ho with rfl | ho
  · exact ⟨tag, content ++ after, hbegins, fun _ => ⟨content, after, rfl, hholds⟩⟩
  · obtain ⟨preserved, hchildren⟩ := hholds.children_eq
    rw [hchildren, rawChildren] at ho
    split at ho
    · exact absurd ho List.not_mem_nil
    · exact absurd ho List.not_mem_nil

end Sound

/-- The innermost open element is a raw element: its content so far is the text that may still go
on, up to the place that reading has come to, or up to where the rest of the document was
dropped. -/
structure InRaw (document name t : Text) (b : LocatedBuilder) (e : LocatedOpen)
    (others : List LocatedOpen) : Prop where
  opened_eq : b.opened = e :: others
  name_eq : e.name = name
  mem_rawNames : name ∈ rawNames
  children_nil : e.children = []
  pendingBefore_eq : b.pending ≠ [] → b.pendingBefore = e.before ++ e.opening
  begins : ∃ tag after, Begins document e.element tag (b.pending ++ after) ∧
    tag.selfClosing = false ∧ (after = t ∨ t = [] ∧ ∀ i, endsRaw name (after.drop i) = false)
  sound : Sound document { b with opened := others }

/-- What holds at every place that reading comes to. -/
structure Placed (document : Text) (raw : Option Text) (before t : Text) (b : LocatedBuilder) :
    Prop where
  document_eq : before ++ t = document
  inner : match raw with
    | none => Sound document b
    | some name => ∃ e others, InRaw document name t b e others

theorem Placed.sound {document before t : Text} {b : LocatedBuilder}
    (h : Placed document none before t b) : Sound document b :=
  h.inner

theorem Placed.inRaw {document name before t : Text} {b : LocatedBuilder}
    (h : Placed document (some name) before t b) : ∃ e others, InRaw document name t b e others :=
  h.inner

namespace InRaw

variable {document name t : Text} {b : LocatedBuilder} {e : LocatedOpen} {others : List LocatedOpen}

/-- The element that the raw element becomes at its end. -/
theorem closeInnermost_endText (h : InRaw document name t b e others) :
    b.endText.closeInnermost = ({ b with opened := others, pending := [] } : LocatedBuilder).addNode
      (.element e.name e.attributes e.before e.opening
        (rawChildren b.pendingBefore b.pending b.preserves)) := by
  rw [endText, rawChildren]
  split
  · next hpending =>
    simp only [closeInnermost, h.opened_eq, LocatedOpen.close, h.children_nil,
      List.isEmpty_iff.mp hpending]
    rfl
  · simp only [addNode, h.opened_eq, closeInnermost, LocatedOpen.close, h.children_nil]
    rfl

theorem sound_closeInnermost (h : InRaw document name t b e others)
    (hends : ∀ after, after = t ∨ t = [] ∧ (∀ i, endsRaw name (after.drop i) = false) →
      EndsContent name after) :
    Sound document b.endText.closeInnermost := by
  obtain ⟨tag, after, hbegins, hself, hafter⟩ := h.begins
  have hsound : Sound document { b with opened := others, pending := [] } :=
    ⟨h.sound.closed, h.sound.opened, h.sound.passedOver⟩
  have hchildren : rawChildren b.pendingBefore b.pending b.preserves =
      rawChildren (e.before ++ e.opening) b.pending b.preserves := by
    simp only [rawChildren]
    split
    · rfl
    · next hpending => rw [h.pendingBefore_eq fun hnil => hpending (by rw [hnil]; rfl)]
  rw [h.closeInnermost_endText, hchildren]
  have hended : Begins document ⟨e.name, e.attributes, e.before, e.opening,
      rawChildren (e.before ++ e.opening) b.pending b.preserves⟩ tag (b.pending ++ after) :=
    ⟨hbegins.1, hbegins.2, hbegins.3, hbegins.4⟩
  refine hsound.addNode_raw hended ⟨⟨_, rfl⟩, ?_⟩
  rw [hself, if_neg Bool.false_ne_true]
  have hcontent := hends after hafter
  rw [← h.name_eq] at hcontent
  exact hcontent

theorem not_mem_passedOver (h : InRaw document name t b e others) :
    b.passedOver.contains name = false := by
  rw [← Bool.not_eq_true, List.contains_iff_mem]
  exact fun hname => not_mem_rawNames_of_mem_voidNames name (h.sound.passedOver name hname)
    h.mem_rawNames

theorem sound_endTag (h : InRaw document name t b e others) (hends : endsRaw name t = true)
    (hne : t ≠ []) : Sound document (b.endTag name) := by
  have hsound := h.sound_closeInnermost fun after hafter =>
    hafter.elim (fun heq => .inl (heq ▸ hends)) fun hnil => absurd hnil.1 hne
  have hfind : (b.endText.opened.findIdx? fun e => e.name = name) = some 0 := by
    rw [endText]
    split
    · simp [h.opened_eq, List.findIdx?_cons, h.name_eq]
    · simp [addNode, h.opened_eq, List.findIdx?_cons, h.name_eq]
  rw [endTag, h.not_mem_passedOver, if_neg Bool.false_ne_true, closeNamed, hfind]
  exact hsound

end InRaw

/-- A raw element that is closed within its start tag is empty. -/
theorem sound_endTag_of_selfClosing {document rest : Text} {b : LocatedBuilder} {tag : StartTag}
    {e : LocatedOpen} (h : Sound document b) (hpending : b.pending = [])
    (hchildren : e.children = [])
    (hraw : e.name ∈ rawNames) (hself : tag.selfClosing = true)
    (hbegins : Begins document e.element tag rest) :
    Sound document ((b.openElement e).endTag e.name) := by
  have hpassed : (b.openElement e).passedOver.contains e.name = false := by
    rw [← Bool.not_eq_true, List.contains_iff_mem]
    exact fun hname => not_mem_rawNames_of_mem_voidNames _ (h.passedOver _ hname) hraw
  have htext : (b.openElement e).endText = b.openElement e := by
    rw [endText, show (b.openElement e).pending = [] from hpending]
    rfl
  have hfind : ((b.openElement e).opened.findIdx? fun o => o.name = e.name) = some 0 := by
    simp [openElement, List.findIdx?_cons]
  rw [endTag, hpassed, if_neg Bool.false_ne_true, htext, closeNamed, hfind]
  have hempty : Begins document e.element tag ([] ++ rest) := hbegins
  refine h.addNode_raw hempty ⟨⟨false, ?_⟩, by rw [if_pos hself]⟩
  rw [LocatedOpen.element, hchildren]
  rfl

/-- A start tag opens a raw element, or leaves no raw element open. -/
theorem placed_startTag {document before t : Text} {b : LocatedBuilder} {tag : StartTag}
    {length : Nat} (h : Placed document none before t b)
    (hread : StartTag.read (t.drop 1) = .tag tag (afterPiece length t)) :
    Placed document tag.rawAfter (before ++ piece length t) (afterPiece length t)
      (b.startTag tag before (piece length t)) := by
  have hdocument : before ++ piece length t ++ afterPiece length t = document := by
    rw [List.append_assoc, piece_append_afterPiece, h.document_eq]
  refine ⟨hdocument, ?_⟩
  have hsound := h.sound.endText
  let e : LocatedOpen :=
    ⟨tag.name, Builder.distinctAttributes tag.attributes, before, piece length t, []⟩
  have hbegins : Begins document e.element tag (afterPiece length t) :=
    ⟨hdocument.symm, by
      rw [show e.element.opening = piece length t from rfl, piece_append_afterPiece, hread],
      rfl, rfl⟩
  by_cases hraw : tag.name ∈ rawNames
  · cases hself : tag.selfClosing with
    | true =>
      rw [show tag.rawAfter = none by simp [StartTag.rawAfter, hself], startTag, if_pos hself]
      exact sound_endTag_of_selfClosing (e := e) hsound b.pending_endText rfl hraw hself hbegins
    | false =>
      have hvoid : ¬ voidNames.contains tag.name := fun hvoid =>
        not_mem_rawNames_of_mem_voidNames _ (List.contains_iff_mem.mp hvoid) hraw
      rw [show tag.rawAfter = some tag.name by
          simp [StartTag.rawAfter, hself, hraw],
        startTag, hself, if_neg Bool.false_ne_true, if_neg hvoid]
      have hpending : (b.endText.openElement e).pending = [] := b.pending_endText
      refine ⟨e, b.endText.opened, rfl, rfl, hraw, rfl, fun hne => absurd hpending hne, ?_,
        hsound.closed, hsound.opened, hsound.passedOver⟩
      exact ⟨tag, afterPiece length t, by rwa [hpending, List.nil_append], hself, .inl rfl⟩
  · rw [show tag.rawAfter = none by simp [StartTag.rawAfter, hraw]]
    have hopened := hsound.openElement (e := e) rfl hraw hbegins
    change Sound document (b.startTag tag before (piece length t))
    simp only [startTag]
    split
    · exact hopened.endTag tag.name
    · split
      · next hvoid =>
        have hclosed := hopened.closeInnermost
        refine ⟨hclosed.closed, hclosed.opened, fun name hname => ?_⟩
        rcases List.mem_append.mp hname with hname | hname
        · exact hclosed.passedOver name hname
        · exact List.mem_singleton.mp hname ▸ List.contains_iff_mem.mp hvoid
      · exact hopened

/-- The text of a raw element goes on. -/
theorem InRaw.addText {document name before t : Text} {b : LocatedBuilder} {e : LocatedOpen}
    {others : List LocatedOpen} (h : InRaw document name t b e others) (hne : t ≠ [])
    (hdocument : before ++ t = document) (length : Nat) :
    InRaw document name (afterPiece length t) (b.addText before (piece length t)) e others := by
  obtain ⟨tag, after, hbegins, hself, hafter⟩ := h.begins
  obtain rfl : after = t := hafter.resolve_right fun hnil => hne hnil.1
  have hbefore : before = e.before ++ e.opening ++ b.pending := by
    have hparts := hbegins.document_eq.symm.trans hdocument.symm
    rw [← List.append_assoc] at hparts
    exact (List.append_cancel_right hparts).symm
  refine ⟨h.opened_eq, h.name_eq, h.mem_rawNames, h.children_nil, fun _ => ?_, ?_,
    h.sound.closed, h.sound.opened, h.sound.passedOver⟩
  · rw [LocatedBuilder.addText]
    split
    · next hpending => rw [hbefore, List.isEmpty_iff.mp hpending, List.append_nil]
    · next hpending => exact h.pendingBefore_eq fun hnil => hpending (by rw [hnil]; rfl)
  · refine ⟨tag, afterPiece length after, ?_, hself, .inl rfl⟩
    rw [show (b.addText before (piece length after)).pending = b.pending ++ piece length after from
      rfl, List.append_assoc, piece_append_afterPiece]
    exact hbegins

theorem placed_addStep {document before t : Text} {raw raw' : Option Text} {events : List Event}
    {length : Nat} {b : LocatedBuilder} (hne : t ≠ [])
    (hread : Reads (lineAfter before) t raw events length raw')
    (h : Placed document raw before t b) :
    Placed document raw' (before ++ piece length t) (afterPiece length t)
      (b.addStep ⟨before, piece length t, events⟩) := by
  have hdocument : before ++ piece length t ++ afterPiece length t = document := by
    rw [List.append_assoc, piece_append_afterPiece, h.document_eq]
  cases hread with
  | nothing => exact ⟨hdocument, h.sound⟩
  | dropped name hnone =>
    obtain ⟨e, others, hraw⟩ := h.inRaw
    obtain ⟨tag, after, hbegins, hself, hafter⟩ := hraw.begins
    obtain rfl : after = t := hafter.resolve_right fun hnil => hne hnil.1
    have hnil : afterPiece after.length after = [] := by
      rw [afterPiece_eq_drop (List.length_pos_iff.mpr hne), List.drop_length]
    exact ⟨hdocument, e, others, hraw.1, hraw.2, hraw.3, hraw.4, hraw.5,
      ⟨tag, after, hbegins, hself, .inr ⟨hnil, hnone⟩⟩, hraw.sound⟩
  | text =>
    cases raw with
    | none => exact ⟨hdocument, h.sound.closed, h.sound.opened, h.sound.passedOver⟩
    | some name =>
      obtain ⟨e, others, hraw⟩ := h.inRaw
      exact ⟨hdocument, e, others, hraw.addText hne h.document_eq length⟩
  | startTag tag _ hread => exact placed_startTag h hread
  | endTag name _ hends =>
    refine ⟨hdocument, ?_⟩
    cases raw with
    | none => exact h.sound.endTag name
    | some raw =>
      obtain ⟨rfl, hraw⟩ := hends raw rfl
      obtain ⟨e, others, hinner⟩ := h.inRaw
      exact hinner.sound_endTag hraw hne
  | special kind content => exact ⟨hdocument, h.sound.endText.addNode_string _⟩

/-- The elements of a finished tree have all ended. -/
theorem stands_of_finish {document before : Text} {raw : Option Text} {b : LocatedBuilder}
    (h : Placed document raw before [] b) : ∀ e ∈ elementsOf b.finish, Stands document e := by
  have hends {name : Text} (after : Text) (hafter : after = [] ∨ ([] : Text) = [] ∧
      ∀ i, endsRaw name (after.drop i) = false) : EndsContent name after := by
    rcases hafter with rfl | ⟨-, hnone⟩
    · exact .inr fun i => by rw [List.drop_nil]; rfl
    · exact .inr hnone
  have hsound : Sound document (b.endText.closeInnermosts b.endText.opened.length) := by
    cases raw with
    | none => exact h.sound.endText.closeInnermosts _
    | some name =>
      obtain ⟨e, others, hraw⟩ := h.inRaw
      have hlength : b.endText.opened.length = others.length + 1 := by
        rw [endText]
        split
        · rw [hraw.opened_eq, List.length_cons]
        · simp [addNode, hraw.opened_eq]
      rw [hlength]
      exact (hraw.sound_closeInnermost hends).closeInnermosts _
  exact fun e he => hsound.closed e (List.mem_append_left _ (mem_elementsOf_reverse.mp he))

end LocatedBuilder

/-- The elements of a document begin at their places, and the raw ones hold what follows their start
tags. -/
theorem stands_of_locate? {document : Text} {nodes : List Located}
    (h : locate? document = some nodes) : ∀ e ∈ elementsOf nodes, Stands document e := by
  obtain ⟨steps, hsteps, rfl⟩ := Option.map_eq_some_iff.mp h
  have hstart : LocatedBuilder.Placed document none [] document {} :=
    ⟨rfl, fun _ he => absurd he List.not_mem_nil, fun _ he => absurd he List.not_mem_nil,
      fun _ hname => absurd hname List.not_mem_nil⟩
  obtain ⟨raw, hplaced⟩ := foldl_steps (Q := fun _ => True)
    (P := fun raw before t (b : LocatedBuilder) => b.Placed document raw before t)
    (fun hne hread _ hb => LocatedBuilder.placed_addStep hne hread hb) hsteps (fun _ _ => trivial)
    hstart
  exact LocatedBuilder.stands_of_finish hplaced

end MessageExtraction.Markup
