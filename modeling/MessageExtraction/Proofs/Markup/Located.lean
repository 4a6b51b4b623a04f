import MessageExtraction.Proofs.Markup.Steps

/-!
# Document trees with places

A tree does not say where its texts stand in the document, nor where the start tag of an element
ends. The located tree does. It is built from the steps in which the document is read in the same
way as the tree itself, and it becomes the tree when the places are forgotten.

## Main definitions

* `Markup.LocatedString` -- a text with its place.
* `Markup.Located` -- a part of a document with its place.
* `Markup.LocatedBuilder` -- the state of building a located tree.
* `Markup.locate?` -- the located tree of a document.

## Main results

* `parse?_eq` -- the tree of a document is the located tree without the places.
-/

namespace MessageExtraction.Markup

/-- A text or, with a kind, other markup than tags: what stands before it, what it was before white
space shrank, and whether white space is preserved in it. -/
structure LocatedString where
  kind : Option SpecialKind
  before : Text
  source : Text
  preserved : Bool
deriving DecidableEq

namespace LocatedString

/-- What the tree keeps of a string. -/
def kept (s : LocatedString) : Text :=
  shrink s.preserved s.source

/-- A string as the tree holds it. -/
def erase (s : LocatedString) : Node :=
  match s.kind with
  | none => .text s.kept
  | some kind => .special kind s.kept

end LocatedString

/-- A part of a document with its place. An element knows what stands before its start tag and how
that tag is written. -/
inductive Located
  | string (s : LocatedString)
  | element (name : Text) (attributes : List Attribute) (before opening : Text)
      (children : List Located)

mutual

/-- A part of a document without its place. -/
def Located.erase : Located → Node
  | .string s => s.erase
  | .element name attributes before _ children =>
    .element name attributes (lineAfter before) (eraseAll children)

/-- Parts of a document without their places. -/
def eraseAll : List Located → List Node
  | [] => []
  | node :: nodes => node.erase :: eraseAll nodes

end

theorem eraseAll_eq_map (nodes : List Located) : eraseAll nodes = nodes.map Located.erase := by
  induction nodes with
  | nil => rfl
  | cons node nodes ih => rw [eraseAll, ih, List.map_cons]

/-- An element whose end has not come yet, with its place and its children in reverse. -/
structure LocatedOpen where
  name : Text
  attributes : List Attribute
  before : Text
  opening : Text
  children : List Located

/-- The element that an open element becomes at its end. -/
def LocatedOpen.close (e : LocatedOpen) : Located :=
  .element e.name e.attributes e.before e.opening e.children.reverse

/-- An open element without its place. -/
def LocatedOpen.erase (e : LocatedOpen) : OpenElement :=
  ⟨e.name, e.attributes, lineAfter e.before, eraseAll e.children⟩

/-- The state of building a located tree: as for a tree, and what stands before the text that may
still go on. -/
structure LocatedBuilder where
  opened : List LocatedOpen := []
  outside : List Located := []
  pending : Text := []
  pendingBefore : Text := []
  passedOver : List Text := []

namespace LocatedBuilder

/-- Whether white space is preserved where the next node goes. -/
def preserves (b : LocatedBuilder) : Bool :=
  b.opened.any fun e => preservingNames.contains e.name

/-- Adds a node to the innermost open element. -/
def addNode (b : LocatedBuilder) (node : Located) : LocatedBuilder :=
  match b.opened with
  | [] => { b with outside := node :: b.outside }
  | e :: others => { b with opened := { e with children := node :: e.children } :: others }

/-- Ends the text that may go on. -/
def endText (b : LocatedBuilder) : LocatedBuilder :=
  if b.pending.isEmpty then b
  else
    { b.addNode (.string ⟨none, b.pendingBefore, b.pending, b.preserves⟩) with pending := [] }

/-- Closes the innermost open element. -/
def closeInnermost (b : LocatedBuilder) : LocatedBuilder :=
  match b.opened with
  | [] => b
  | e :: others => addNode { b with opened := others } e.close

/-- Closes the innermost open elements, a number of them. -/
def closeInnermosts (b : LocatedBuilder) : Nat → LocatedBuilder
  | 0 => b
  | n + 1 => b.closeInnermost.closeInnermosts n

/-- Closes the nearest open element of a name and all that is open inside it. -/
def closeNamed (b : LocatedBuilder) (name : Text) : LocatedBuilder :=
  match b.opened.findIdx? fun e => e.name = name with
  | none => b
  | some i => b.closeInnermosts (i + 1)

/-- The end tag of an element, which is passed over for a void element. -/
def endTag (b : LocatedBuilder) (name : Text) : LocatedBuilder :=
  if b.passedOver.contains name then { b with passedOver := b.passedOver.erase name }
  else b.endText.closeNamed name

/-- Opens an element. -/
def openElement (b : LocatedBuilder) (e : LocatedOpen) : LocatedBuilder :=
  { b with opened := e :: b.opened }

/-- The start tag of an element, and the end of the element if it has no content. -/
def startTag (b : LocatedBuilder) (tag : StartTag) (before opening : Text) : LocatedBuilder :=
  let opened := b.endText.openElement
    ⟨tag.name, Builder.distinctAttributes tag.attributes, before, opening, []⟩
  if tag.selfClosing then opened.endTag tag.name
  else if voidNames.contains tag.name then
    let closed := opened.closeInnermost
    { closed with passedOver := closed.passedOver ++ [tag.name] }
  else opened

/-- A text that goes on. -/
def addText (b : LocatedBuilder) (before t : Text) : LocatedBuilder :=
  { b with
    pending := b.pending ++ t
    pendingBefore := if b.pending.isEmpty then before else b.pendingBefore }

/-- The state after one more event, which a step reads. -/
def add (b : LocatedBuilder) (s : Step) : Event → LocatedBuilder
  | .text t => b.addText s.before t
  | .startTag tag _ => b.startTag tag s.before s.taken
  | .endTag name => b.endTag name
  | .special kind content =>
    let b := b.endText
    b.addNode (.string ⟨some kind, s.before, content, b.preserves⟩)

/-- The state after one more step. -/
def addStep (b : LocatedBuilder) (s : Step) : LocatedBuilder :=
  s.events.foldl (fun b e => b.add s e) b

/-- The located tree when no step is left. -/
def finish (b : LocatedBuilder) : List Located :=
  let b := b.endText
  (b.closeInnermosts b.opened.length).outside.reverse

/-- The state without the places. -/
def erase (b : LocatedBuilder) : Builder where
  opened := b.opened.map LocatedOpen.erase
  outside := eraseAll b.outside
  pending := b.pending
  passedOver := b.passedOver

end LocatedBuilder

/-- The located tree of a document, or nothing if it is unreadable. -/
def locate? (document : Text) : Option (List Located) :=
  (steps? document).map fun steps => (steps.foldl LocatedBuilder.addStep {}).finish

namespace LocatedBuilder

/-! ## Places forgotten -/

variable (b : LocatedBuilder)

theorem preserves_erase : b.erase.preserves = b.preserves := by
  simp only [Builder.preserves, erase, preserves, List.any_map]
  rfl

theorem erase_addNode (node : Located) : (b.addNode node).erase = b.erase.addNode node.erase := by
  rcases b with ⟨_ | ⟨e, others⟩, outside, pending, pendingBefore, passedOver⟩ <;> rfl

theorem erase_endText : b.endText.erase = b.erase.endText := by
  rw [endText, Builder.endText]
  split
  · next h => rw [if_pos (show b.erase.pending.isEmpty from h)]
  · next h =>
    have hnode := b.erase_addNode (.string ⟨none, b.pendingBefore, b.pending, b.preserves⟩)
    rw [if_neg (show ¬ b.erase.pending.isEmpty from h), b.preserves_erase,
      show Node.text (shrink b.preserves b.erase.pending) =
        (Located.string ⟨none, b.pendingBefore, b.pending, b.preserves⟩).erase from rfl, ← hnode]
    rfl

theorem erase_close (e : LocatedOpen) : e.close.erase = e.erase.close := by
  simp only [LocatedOpen.close, Located.erase, OpenElement.close, LocatedOpen.erase,
    eraseAll_eq_map, List.map_reverse]

theorem erase_closeInnermost : b.closeInnermost.erase = b.erase.closeInnermost := by
  rcases b with ⟨_ | ⟨e, others⟩, outside, pending, pendingBefore, passedOver⟩
  · rfl
  · simp only [closeInnermost, erase_addNode, erase_close]
    rfl

theorem erase_closeInnermosts (n : Nat) :
    (b.closeInnermosts n).erase = b.erase.closeInnermosts n := by
  induction n generalizing b with
  | zero => rfl
  | succ n ih => rw [closeInnermosts, ih, erase_closeInnermost, Builder.closeInnermosts]

theorem erase_closeNamed (name : Text) : (b.closeNamed name).erase = b.erase.closeNamed name := by
  have hfind : (b.erase.opened.findIdx? fun e => e.name = name) =
      b.opened.findIdx? fun e => e.name = name := by
    rw [erase, List.findIdx?_map]
    rfl
  rw [closeNamed, Builder.closeNamed, hfind]
  cases b.opened.findIdx? fun e => e.name = name with
  | none => rfl
  | some i => exact b.erase_closeInnermosts (i + 1)

theorem erase_endTag (name : Text) : (b.endTag name).erase = b.erase.endTag name := by
  rw [endTag, Builder.endTag, show b.erase.passedOver = b.passedOver from rfl]
  split
  · rfl
  · rw [erase_closeNamed, erase_endText]

theorem erase_startTag (tag : StartTag) (before opening : Text) :
    (b.startTag tag before opening).erase = b.erase.startTag tag (lineAfter before) := by
  have hopen (e : LocatedOpen) : (b.endText.openElement e).erase =
      { b.erase.endText with opened := e.erase :: b.erase.endText.opened } := by
    rw [← erase_endText]
    rfl
  simp only [startTag, Builder.startTag]
  split
  · rw [erase_endTag, hopen]
    rfl
  · split
    · have hclose := (b.endText.openElement ⟨tag.name, Builder.distinctAttributes tag.attributes,
        before, opening, []⟩).erase_closeInnermost
      rw [hopen] at hclose
      rw [show LocatedOpen.erase _ = ⟨_, _, _, []⟩ from rfl] at hclose
      rw [← hclose]
      rfl
    · exact hopen _

theorem erase_special (s : Step) (kind : SpecialKind) (content : Text) :
    (b.add s (.special kind content)).erase = b.erase.add (.special kind content) := by
  simp only [add, Builder.add, erase_addNode, erase_endText, ← preserves_erase]
  rfl

theorem erase_finish : eraseAll b.finish = b.erase.finish := by
  simp only [finish, Builder.finish, ← erase_endText]
  rw [show b.endText.erase.opened.length = b.endText.opened.length from List.length_map ..,
    ← erase_closeInnermosts, eraseAll_eq_map, List.map_reverse, ← eraseAll_eq_map]
  rfl

/-- The events of a step lead from the state without places to the state without places. -/
theorem erase_addStep {before t : Text} {raw raw' : Option Text} {events : List Event}
    {length : Nat} (h : Reads (lineAfter before) t raw events length raw') (taken : Text) :
    (b.addStep ⟨before, taken, events⟩).erase = events.foldl Builder.add b.erase := by
  cases h with
  | nothing => rfl
  | dropped => rfl
  | text => rfl
  | startTag tag => exact b.erase_startTag tag before taken
  | endTag name => exact b.erase_endTag name
  | special kind content => exact b.erase_special ⟨before, taken, _⟩ kind content

end LocatedBuilder

theorem erase_foldl_addStep {raw : Option Text} {before t : Text} {steps : List Step}
    (h : stepsFrom? raw before t = some steps) (b : LocatedBuilder) :
    (steps.foldl LocatedBuilder.addStep b).erase =
      (steps.flatMap Step.events).foldl Builder.add b.erase := by
  fun_induction stepsFrom? raw before t generalizing steps b with
  | case1 => cases h; rfl
  | case2 raw before c t events length raw' hread ih =>
    obtain ⟨others, hothers, rfl⟩ := Option.map_eq_some_iff.mp h
    have hstep := b.erase_addStep (reads_readNext (List.cons_ne_nil c t) hread)
      (piece length (c :: t))
    rw [List.foldl_cons, ih hothers, List.flatMap_cons, List.foldl_append, hstep]
  | case3 => cases h
  | case4 => cases h

/-- The tree of a document is its located tree without the places. -/
theorem parse?_eq (document : Text) : parse? document = (locate? document).map eraseAll := by
  rw [parse?, locate?, read?_eq, Option.map_map, Option.map_map]
  refine Option.map_congr fun steps hsteps => ?_
  rw [Function.comp_apply, Function.comp_apply, LocatedBuilder.erase_finish,
    erase_foldl_addStep hsteps]
  rfl

end MessageExtraction.Markup
