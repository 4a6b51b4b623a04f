import Mathlib.Data.List.Chain
import MessageExtraction.Proofs.Markup.Located

/-!
# Document order

The start tags and the strings of a located tree, read from the root down and from left to right,
stand in the document in that order. Between two of them there are only end tags and what begins and
ends other markup. Where these hold no line feeds, the lines of two neighbouring strings differ by
the line feeds of the first one.

## Main definitions

* `Markup.Mark` -- a start tag or a string with its place.
* `Markup.marksOf` -- the marks of a located tree in document order.
* `Markup.KeepsLines` -- all line feeds of a document are in its strings and its start tags.

## Main results

* `marksOf_finish` -- the marks of a finished tree are those that were met on the way.
* `inOrder_of_locate?` -- marks stand in the document in their order.
* `spanLines_of_locate?` -- what follows a string is as many lines below it as it has line feeds.
-/

namespace MessageExtraction.Markup

/-- A start tag, known by what stands before it, or a string. -/
inductive Mark
  | tag (before : Text)
  | string (s : LocatedString)

/-- What stands before a mark. -/
def Mark.before : Mark → Text
  | .tag before => before
  | .string s => s.before

mutual

/-- The marks of a part of a document. -/
def Located.marks : Located → List Mark
  | .string s => [.string s]
  | .element _ _ before _ children => .tag before :: marksOf children

/-- The marks of parts of a document, in document order. -/
def marksOf : List Located → List Mark
  | [] => []
  | node :: nodes => node.marks ++ marksOf nodes

end

@[simp] theorem marksOf_append (nodes others : List Located) :
    marksOf (nodes ++ others) = marksOf nodes ++ marksOf others := by
  induction nodes with
  | nil => rfl
  | cons node nodes ih => rw [List.cons_append, marksOf, marksOf, ih, List.append_assoc]

@[simp] theorem marksOf_singleton (node : Located) : marksOf [node] = node.marks :=
  List.append_nil _

/-- The marks of an open element. -/
def LocatedOpen.marks (e : LocatedOpen) : List Mark :=
  .tag e.before :: marksOf e.children.reverse

theorem LocatedOpen.marks_close (e : LocatedOpen) : e.close.marks = e.marks := rfl

namespace LocatedBuilder

/-- The marks met so far, but for the text that may still go on. -/
def settled (b : LocatedBuilder) : List Mark :=
  marksOf b.outside.reverse ++ b.opened.reverse.flatMap LocatedOpen.marks

/-- The mark of the text that may still go on. -/
def pendingMarks (b : LocatedBuilder) : List Mark :=
  if b.pending.isEmpty then [] else [.string ⟨none, b.pendingBefore, b.pending, b.preserves⟩]

/-- The marks met so far. -/
def marks (b : LocatedBuilder) : List Mark :=
  b.settled ++ b.pendingMarks

variable (b : LocatedBuilder)

theorem settled_addNode (node : Located) : (b.addNode node).settled = b.settled ++ node.marks := by
  rcases b with ⟨_ | ⟨e, others⟩, outside, pending, pendingBefore, passedOver⟩
  · simp [addNode, settled]
  · simp [addNode, settled, LocatedOpen.marks]

theorem settled_closeInnermost : b.closeInnermost.settled = b.settled := by
  rcases b with ⟨_ | ⟨e, others⟩, outside, pending, pendingBefore, passedOver⟩
  · rfl
  · rw [closeInnermost, settled_addNode, LocatedOpen.marks_close]
    simp [settled]

theorem settled_closeInnermosts (n : Nat) : (b.closeInnermosts n).settled = b.settled := by
  induction n generalizing b with
  | zero => rfl
  | succ n ih => rw [closeInnermosts, ih, settled_closeInnermost]

theorem pending_addNode (node : Located) : (b.addNode node).pending = b.pending := by
  rcases b with ⟨_ | ⟨e, others⟩, outside, pending, pendingBefore, passedOver⟩ <;> rfl

theorem pending_closeInnermost : b.closeInnermost.pending = b.pending := by
  rcases b with ⟨_ | ⟨e, others⟩, outside, pending, pendingBefore, passedOver⟩
  · rfl
  · exact pending_addNode _ _

theorem pending_closeInnermosts (n : Nat) : (b.closeInnermosts n).pending = b.pending := by
  induction n generalizing b with
  | zero => rfl
  | succ n ih => rw [closeInnermosts, ih, pending_closeInnermost]

@[simp] theorem pending_endText : b.endText.pending = [] := by
  rw [endText]
  split
  · next h => exact List.isEmpty_iff.mp h
  · rfl

theorem pendingMarks_of_pending {b : LocatedBuilder} (h : b.pending = []) :
    b.pendingMarks = [] := by
  rw [pendingMarks, h]
  rfl

theorem marks_of_pending {b : LocatedBuilder} (h : b.pending = []) : b.marks = b.settled := by
  rw [marks, pendingMarks_of_pending h, List.append_nil]

/-- A text that is ended is a string like the others. -/
theorem settled_endText : b.endText.settled = b.marks := by
  rw [endText, marks, pendingMarks]
  split
  · rw [List.append_nil]
  · exact b.settled_addNode _

/-! ## What an event adds -/

theorem marks_closeNamed (name : Text) (h : b.pending = []) :
    (b.closeNamed name).marks = b.marks ∧ (b.closeNamed name).pending = [] := by
  rw [closeNamed]
  split
  · exact ⟨rfl, h⟩
  · next i _ =>
    have hpending : (b.closeInnermosts (i + 1)).pending = [] := by rw [pending_closeInnermosts, h]
    exact ⟨by rw [marks_of_pending hpending, settled_closeInnermosts, marks_of_pending h], hpending⟩

/-- An end tag adds no mark. -/
theorem marks_endTag (name : Text) : (b.endTag name).marks = b.marks := by
  rw [endTag]
  split
  · rfl
  · rw [(marks_closeNamed _ _ b.pending_endText).1, marks_of_pending b.pending_endText,
      settled_endText]

/-- A start tag adds its own mark, also where it is the whole element. -/
theorem marks_startTag (tag : StartTag) (before opening : Text) :
    (b.startTag tag before opening).marks = b.marks ++ [.tag before] := by
  have hopened (e : LocatedOpen) (he : e.children = []) :
      (b.endText.openElement e).marks = b.marks ++ [.tag e.before] := by
    rw [marks_of_pending (b := b.endText.openElement e) b.pending_endText, ← settled_endText]
    simp [settled, openElement, LocatedOpen.marks, he, marksOf]
  rw [startTag]
  dsimp only
  split
  · rw [marks_endTag, hopened _ rfl]
  · split
    · rw [← hopened ⟨_, _, before, opening, []⟩ rfl]
      have hpending : (b.endText.openElement ⟨tag.name,
          Builder.distinctAttributes tag.attributes, before, opening, []⟩).pending = [] :=
        b.pending_endText
      rw [marks_of_pending hpending, ← settled_closeInnermost]
      exact marks_of_pending ((pending_closeInnermost _).trans hpending)
    · exact hopened _ rfl

/-- Other markup adds a string. -/
theorem marks_special (s : Step) (kind : SpecialKind) (content : Text) :
    (b.add s (.special kind content)).marks =
      b.marks ++ [.string ⟨some kind, s.before, content, b.endText.preserves⟩] := by
  rw [add, marks_of_pending (by rw [pending_addNode, pending_endText]), settled_addNode,
    settled_endText]
  rfl

/-- The first piece of a text adds a string. -/
theorem marks_addText_of_pending_nil (before : Text) {t : Text} (hpending : b.pending = [])
    (ht : t ≠ []) :
    (b.addText before t).marks = b.marks ++ [.string ⟨none, before, t, b.preserves⟩] := by
  rw [marks_of_pending hpending, marks, pendingMarks, addText, hpending]
  simp only [List.nil_append, List.isEmpty_eq_false_iff.mpr ht, Bool.false_eq_true, if_false]
  rfl

/-- A further piece of a text extends its string. -/
theorem marks_addText_of_pending_ne_nil (before t : Text) (hpending : b.pending ≠ []) :
    ∃ ms s, b.marks = ms ++ [.string s] ∧
      (b.addText before t).marks = ms ++ [.string { s with source := s.source ++ t }] := by
  refine ⟨b.settled, ⟨none, b.pendingBefore, b.pending, b.preserves⟩, ?_, ?_⟩
  · rw [marks, pendingMarks, List.isEmpty_eq_false_iff.mpr hpending]
    rfl
  · have hne : b.pending ++ t ≠ [] := by simp [hpending]
    simp only [marks, pendingMarks, addText, List.isEmpty_eq_false_iff.mpr hpending,
      List.isEmpty_eq_false_iff.mpr hne, Bool.false_eq_true, if_false]
    rfl

theorem opened_closeInnermosts (n : Nat) :
    (b.closeInnermosts n).opened.length = b.opened.length - n := by
  induction n generalizing b with
  | zero => rfl
  | succ n ih =>
    rw [closeInnermosts, ih]
    rcases b with ⟨_ | ⟨e, _ | ⟨e', others⟩⟩, outside, pending, pendingBefore, passedOver⟩
    · simp [closeInnermost]
    · simp [closeInnermost, addNode]
    · simp [closeInnermost, addNode]

/-- The marks of a finished tree are those that were met on the way. -/
theorem marksOf_finish : marksOf b.finish = b.marks := by
  have hopened : (b.endText.closeInnermosts b.endText.opened.length).opened = [] :=
    List.length_eq_zero_iff.mp (by rw [opened_closeInnermosts, Nat.sub_self])
  have hsettled := b.endText.settled_closeInnermosts b.endText.opened.length
  rw [settled_endText, settled, hopened] at hsettled
  rw [← hsettled]
  exact (List.append_nil _).symm

end LocatedBuilder

/-! ## The order of marks -/

/-- Marks stand in their order within what has been taken, and a text begins with the code point
at its place. -/
structure InOrder (marks : List Mark) (taken : Text) : Prop where
  sorted : marks.Pairwise fun m n => m.before <+: n.before
  bounded : ∀ m ∈ marks, m.before <+: taken
  begins : ∀ s, .string s ∈ marks → s.kind = none →
    ∃ c rest, s.source = c :: rest ∧ s.before ++ [c] <+: taken

namespace InOrder

variable {marks : List Mark} {taken : Text}

theorem mono (h : InOrder marks taken) (more : Text) : InOrder marks (taken ++ more) where
  sorted := h.sorted
  bounded m hm := (h.bounded m hm).trans (List.prefix_append ..)
  begins s hs hkind :=
    let ⟨c, rest, hsource, hplace⟩ := h.begins s hs hkind
    ⟨c, rest, hsource, hplace.trans (List.prefix_append ..)⟩

/-- A mark that stands where the taken part ends comes after the others. -/
theorem concat (h : InOrder marks taken) {m : Mark} (hm : m.before = taken) (more : Text)
    (hbegins : ∀ s, m = .string s → s.kind = none →
      ∃ c rest, s.source = c :: rest ∧ s.before ++ [c] <+: taken ++ more) :
    InOrder (marks ++ [m]) (taken ++ more) where
  sorted := by
    refine List.pairwise_append.mpr ⟨h.sorted, List.pairwise_singleton .., fun n hn k hk => ?_⟩
    obtain rfl := List.mem_singleton.mp hk
    exact hm ▸ h.bounded n hn
  bounded n hn := by
    rcases List.mem_append.mp hn with hn | hn
    · exact (h.mono more).bounded n hn
    · obtain rfl := List.mem_singleton.mp hn
      exact hm ▸ List.prefix_append ..
  begins s hs hkind := by
    rcases List.mem_append.mp hs with hs | hs
    · exact (h.mono more).begins s hs hkind
    · exact hbegins s (List.mem_singleton.mp hs).symm hkind

/-- A text may grow at its end. -/
theorem extend {s : LocatedString} (h : InOrder (marks ++ [.string s]) taken) (t : Text) :
    InOrder (marks ++ [.string { s with source := s.source ++ t }]) taken where
  sorted := by
    have hsorted := List.pairwise_append.mp h.sorted
    refine List.pairwise_append.mpr ⟨hsorted.1, List.pairwise_singleton .., fun n hn k hk => ?_⟩
    obtain rfl := List.mem_singleton.mp hk
    exact hsorted.2.2 n hn (.string s) (List.mem_singleton.mpr rfl)
  bounded n hn := by
    rcases List.mem_append.mp hn with hn | hn
    · exact h.bounded n (List.mem_append_left _ hn)
    · obtain rfl := List.mem_singleton.mp hn
      exact h.bounded (.string s) (by simp)
  begins u hu hkind := by
    rcases List.mem_append.mp hu with hu | hu
    · exact h.begins u (List.mem_append_left _ hu) hkind
    · obtain rfl := Mark.string.inj (List.mem_singleton.mp hu)
      obtain ⟨c, rest, hsource, hplace⟩ := h.begins s (by simp) hkind
      exact ⟨c, rest ++ t, by simp [hsource], hplace⟩

end InOrder

theorem piece_ne_nil {t : Text} (h : t ≠ []) (length : Nat) : piece length t ≠ [] := by
  cases t with
  | nil => exact absurd rfl h
  | cons c t => exact List.cons_ne_nil _ _

theorem inOrder_addStep {raw raw' : Option Text} {before t : Text} {events : List Event}
    {length : Nat} {b : LocatedBuilder} (hne : t ≠ [])
    (hread : Reads (lineAfter before) t raw events length raw') (h : InOrder b.marks before) :
    InOrder (b.addStep ⟨before, piece length t, events⟩).marks (before ++ piece length t) := by
  cases hread with
  | nothing => exact h.mono _
  | dropped => exact h.mono _
  | text =>
    by_cases hpending : b.pending = []
    · rw [show b.addStep _ = b.addText before (piece length t) from rfl,
        b.marks_addText_of_pending_nil before hpending (piece_ne_nil hne length)]
      refine h.concat (by rfl) _ fun s hs _ => ?_
      obtain rfl := Mark.string.inj hs
      obtain ⟨c, rest, hpiece⟩ := List.exists_cons_of_ne_nil (piece_ne_nil hne length)
      exact ⟨c, rest, hpiece, by simp [hpiece]⟩
    · obtain ⟨ms, s, hbefore, hafter⟩ :=
        b.marks_addText_of_pending_ne_nil before (piece length t) hpending
      rw [show b.addStep _ = b.addText before (piece length t) from rfl, hafter]
      exact ((hbefore ▸ h).extend _).mono _
  | startTag tag =>
    rw [show b.addStep _ = b.startTag tag before (piece length t) from rfl, b.marks_startTag]
    exact h.concat (by rfl) _ fun _ hs => nomatch hs
  | endTag name =>
    rw [show b.addStep _ = b.endTag name from rfl, b.marks_endTag]
    exact h.mono _
  | special kind content =>
    rw [show b.addStep _ = b.add _ (.special kind content) from rfl, b.marks_special]
    refine h.concat (by rfl) _ fun s hs hkind => ?_
    obtain rfl := Mark.string.inj hs
    cases hkind

theorem LocatedBuilder.marks_start : ({} : LocatedBuilder).marks = [] := rfl

/-- The marks of a document stand in it in their order. -/
theorem inOrder_of_locate? {document : Text} {nodes : List Located}
    (h : locate? document = some nodes) : InOrder (marksOf nodes) document := by
  obtain ⟨steps, hsteps, rfl⟩ := Option.map_eq_some_iff.mp h
  have hstart : InOrder ({} : LocatedBuilder).marks [] := by
    rw [LocatedBuilder.marks_start]
    exact ⟨.nil, by simp, by simp⟩
  obtain ⟨-, hmarks⟩ := foldl_steps (Q := fun _ => True)
    (P := fun _ before _ (b : LocatedBuilder) => InOrder b.marks before)
    (fun hne hread _ hb => inOrder_addStep hne hread hb) hsteps (fun _ _ => trivial) hstart
  rw [LocatedBuilder.marksOf_finish]
  exact hmarks

/-! ## The lines of strings -/

/-- The text that an event adds to the tree. -/
def Event.content : Event → Text
  | .text t => t
  | .startTag _ _ => []
  | .endTag _ => []
  | .special _ content => content

/-- Whether an event is a start tag. -/
def Event.isStartTag : Event → Bool
  | .startTag _ _ => true
  | _ => false

/-- All line feeds of a piece that is no start tag are in the text that it adds to the tree. -/
def Step.KeepsLines (s : Step) : Prop :=
  s.events.any Event.isStartTag ∨
    Text.lineFeeds s.taken = Text.lineFeeds (s.events.flatMap Event.content)

/-- All line feeds of a document are in its texts, its start tags and the content of its other
markup: there are none in end tags, in the names of declarations, in what closes comments, and in
what is dropped after a raw element that never ends. -/
def KeepsLines (document : Text) : Prop :=
  ∀ steps ∈ steps? document, ∀ s ∈ steps, s.KeepsLines

instance (s : Step) : Decidable s.KeepsLines :=
  inferInstanceAs (Decidable (_ ∨ _))

instance (document : Text) : Decidable (KeepsLines document) :=
  inferInstanceAs (Decidable (∀ steps ∈ steps? document, ∀ s ∈ steps, s.KeepsLines))

/-- A mark that is a string has as many lines as the next mark is below it. -/
def Mark.SpansTo (m next : Mark) : Prop :=
  match m with
  | .tag _ => True
  | .string s => Text.lineFeeds next.before = Text.lineFeeds s.before + Text.lineFeeds s.source

/-- Strings among marks span the lines up to the next mark or up to a place at the end. -/
def SpanLines (marks : List Mark) (place : Text) : Prop :=
  (marks ++ [Mark.tag place]).IsChain Mark.SpansTo

namespace SpanLines

variable {marks : List Mark} {place next : Text}

theorem concat (h : SpanLines marks place) {m : Mark} (hm : m.before = place)
    (hspans : m.SpansTo (.tag next)) : SpanLines (marks ++ [m]) next := by
  obtain ⟨hmarks, -, hlast⟩ := List.isChain_append.mp h
  refine List.isChain_append.mpr ⟨List.isChain_append.mpr ⟨hmarks, .singleton m, ?_⟩,
    .singleton _, ?_⟩
  · intro n hn k hk
    obtain rfl := Option.some.inj hk
    have := hlast n hn (.tag place) rfl
    cases n with
    | tag => trivial
    | string s => rwa [Mark.SpansTo, hm]
  · intro n hn k hk
    obtain rfl : m = n := by simpa using hn
    exact Option.some.inj hk ▸ hspans

/-- The place at the end may move on its line. -/
theorem of_lineFeeds_eq (h : SpanLines marks place)
    (hplace : Text.lineFeeds next = Text.lineFeeds place) : SpanLines marks next := by
  obtain ⟨hmarks, -, hlast⟩ := List.isChain_append.mp h
  refine List.isChain_append.mpr ⟨hmarks, .singleton _, fun n hn k hk => ?_⟩
  obtain rfl := Option.some.inj hk
  have := hlast n hn (.tag place) rfl
  cases n with
  | tag => trivial
  | string s => exact hplace.trans this

/-- The last string may grow as the place at the end moves on. -/
theorem extend {s : LocatedString} {t : Text} (h : SpanLines (marks ++ [.string s]) place)
    (hplace : Text.lineFeeds next = Text.lineFeeds place + Text.lineFeeds t) :
    SpanLines (marks ++ [.string { s with source := s.source ++ t }]) next := by
  obtain ⟨hstrings, -, hlast⟩ := List.isChain_append.mp h
  obtain ⟨hmarks, -, hjoint⟩ := List.isChain_append.mp hstrings
  refine List.isChain_append.mpr ⟨List.isChain_append.mpr ⟨hmarks, .singleton _, ?_⟩,
    .singleton _, ?_⟩
  · intro n hn k hk
    obtain rfl := Option.some.inj hk
    have := hjoint n hn (.string s) rfl
    cases n with
    | tag => trivial
    | string u => exact this
  · intro n hn k hk
    obtain rfl : .string { s with source := s.source ++ t } = n := by simpa using hn
    obtain rfl := Option.some.inj hk
    have : Text.lineFeeds place = Text.lineFeeds s.before + Text.lineFeeds s.source :=
      hlast (.string s) (by simp) (.tag place) rfl
    simp only [Mark.SpansTo, Mark.before, lineFeeds_append]
    omega

end SpanLines

theorem spanLines_addStep {raw raw' : Option Text} {before t : Text} {events : List Event}
    {length : Nat} {b : LocatedBuilder} (hne : t ≠ [])
    (hread : Reads (lineAfter before) t raw events length raw')
    (hkeeps : Step.KeepsLines ⟨before, piece length t, events⟩) (h : SpanLines b.marks before) :
    SpanLines (b.addStep ⟨before, piece length t, events⟩).marks (before ++ piece length t) := by
  cases hread with
  | nothing | dropped =>
    have hlines : Text.lineFeeds (piece _ t) = 0 := hkeeps.resolve_left (by simp)
    exact h.of_lineFeeds_eq (by rw [lineFeeds_append, hlines, Nat.add_zero])
  | text =>
    by_cases hpending : b.pending = []
    · rw [show b.addStep _ = b.addText before (piece length t) from rfl,
        b.marks_addText_of_pending_nil before hpending (piece_ne_nil hne length)]
      exact h.concat (by rfl) (lineFeeds_append ..)
    · obtain ⟨ms, s, hbefore, hafter⟩ :=
        b.marks_addText_of_pending_ne_nil before (piece length t) hpending
      rw [show b.addStep _ = b.addText before (piece length t) from rfl, hafter]
      exact (hbefore ▸ h).extend (lineFeeds_append ..)
  | startTag tag =>
    rw [show b.addStep _ = b.startTag tag before (piece length t) from rfl, b.marks_startTag]
    exact h.concat (by rfl) trivial
  | endTag name =>
    have hlines : Text.lineFeeds (piece _ t) = 0 := hkeeps.resolve_left (by simp [Event.isStartTag])
    rw [show b.addStep _ = b.endTag name from rfl, b.marks_endTag]
    exact h.of_lineFeeds_eq (by rw [lineFeeds_append, hlines, Nat.add_zero])
  | special kind content =>
    have hlines : Text.lineFeeds (piece _ t) = Text.lineFeeds (content ++ []) :=
      hkeeps.resolve_left (by simp [Event.isStartTag])
    rw [List.append_nil] at hlines
    rw [show b.addStep _ = b.add _ (.special kind content) from rfl, b.marks_special]
    refine h.concat (by rfl) ?_
    simp only [Mark.SpansTo, Mark.before, lineFeeds_append, hlines]

/-- Where a document keeps its line feeds, its strings span the lines up to what follows them. -/
theorem spanLines_of_locate? {document : Text} {nodes : List Located}
    (h : locate? document = some nodes) (hkeeps : KeepsLines document) :
    SpanLines (marksOf nodes) document := by
  obtain ⟨steps, hsteps, rfl⟩ := Option.map_eq_some_iff.mp h
  have hstart : SpanLines ({} : LocatedBuilder).marks [] := by
    rw [LocatedBuilder.marks_start]
    exact .singleton _
  obtain ⟨-, hmarks⟩ := foldl_steps
    (P := fun _ before _ (b : LocatedBuilder) => SpanLines b.marks before)
    (fun hne hread hs hb => spanLines_addStep hne hread hs hb) hsteps (hkeeps steps hsteps) hstart
  rw [LocatedBuilder.marksOf_finish]
  exact hmarks

end MessageExtraction.Markup
