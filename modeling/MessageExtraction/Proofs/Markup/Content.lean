import MessageExtraction.Proofs.Markup.PrintedTags

/-!
# Content that is written plainly

The content of an element is made up of texts, void elements and elements with content of their own.
Written plainly, with every element closed, it is read back into the tree that it describes. Only
texts of nothing but white space shrink.

## Main definitions

* `Markup.Content` -- a text, a void element or an element with content.
* `Markup.printAll` -- content as it is written plainly.
* `Markup.Content.WellFormed` -- content that can be written plainly.
* `Markup.nodesOf` -- the tree that content describes.

## Main results

* `readFrom?_printAll` -- the events that written content is read into.
* `adds_eventsOf` -- these events add what the content describes to a tree.
* `Builder.finish_of_adds` -- what is added to an empty tree makes up the tree.
-/

namespace MessageExtraction.Markup

/-- A part of the content of an element. -/
inductive Content
  | text (t : Text)
  | void (name : Text) (attributes : List Attribute)
  | element (name : Text) (attributes : List Attribute) (children : List Content)

/-- Whether a part of a content is a text. -/
def Content.isText : Content → Bool
  | .text _ => true
  | _ => false

mutual

/-- A part of a content as it is written plainly. -/
def Content.print : Content → Text
  | .text t => t
  | .void name attributes => printStartTag name attributes
  | .element name attributes children =>
    printStartTag name attributes ++ printAll children ++ writeEndTag name

/-- Content as it is written plainly. -/
def printAll : List Content → Text
  | [] => []
  | c :: cs => c.print ++ printAll cs

end

/-- Attributes that can be written plainly in one tag. -/
structure ArePlain (attributes : List Attribute) : Prop where
  isPlain : ∀ a ∈ attributes, IsPlain a
  distinct : (attributes.map Attribute.name).Nodup

mutual

/-- A part of a content can be written plainly: a text begins no markup, and an element is no raw
element and preserves no white space. -/
def Content.WellFormed : Content → Prop
  | .text t => t ≠ [] ∧ ∀ c ∈ t, c.is '<' = false
  | .void name attributes => IsTagName name ∧ ArePlain attributes ∧ name ∈ voidNames
  | .element name attributes children =>
    IsTagName name ∧ ArePlain attributes ∧ name ∉ voidNames ∧ name ∉ rawNames ∧
      name ∉ preservingNames ∧ AllWellFormed children

/-- Content can be written plainly, and no text follows on another. -/
def AllWellFormed : List Content → Prop
  | [] => True
  | c :: cs =>
    c.WellFormed ∧ (c.isText = true → ∀ d ∈ cs.head?, d.isText = false) ∧ AllWellFormed cs

end

instance (attributes : List Attribute) : Decidable (ArePlain attributes) :=
  decidable_of_iff ((∀ a ∈ attributes, IsPlain a) ∧ (attributes.map Attribute.name).Nodup)
    ⟨fun ⟨hplain, hdistinct⟩ => ⟨hplain, hdistinct⟩, fun ⟨hplain, hdistinct⟩ => ⟨hplain, hdistinct⟩⟩

mutual

/-- Whether a part of a content can be written plainly. -/
def Content.decideWellFormed : (c : Content) → Decidable c.WellFormed
  | .text _ => inferInstanceAs (Decidable (_ ∧ _))
  | .void _ _ => inferInstanceAs (Decidable (_ ∧ _ ∧ _))
  | .element _ _ children =>
    have := decideAllWellFormed children
    inferInstanceAs (Decidable (_ ∧ _ ∧ _ ∧ _ ∧ _ ∧ _))

/-- Whether content can be written plainly. -/
def decideAllWellFormed : (cs : List Content) → Decidable (AllWellFormed cs)
  | [] => isTrue trivial
  | c :: cs =>
    have := c.decideWellFormed
    have := decideAllWellFormed cs
    inferInstanceAs (Decidable (_ ∧ (c.isText = true → ∀ d ∈ cs.head?, d.isText = false) ∧ _))

end

instance (cs : List Content) : Decidable (AllWellFormed cs) :=
  decideAllWellFormed cs

mutual

/-- The events of a part of a content that begins on a line. -/
def Content.events (line : Nat) : Content → List Event
  | .text t => [.text t]
  | .void name attributes => [.startTag ⟨name, attributes, false⟩ line]
  | .element name attributes children =>
    .startTag ⟨name, attributes, false⟩ line ::
      (eventsOf (line + Text.lineFeeds (printStartTag name attributes)) children ++ [.endTag name])

/-- The events of content that begins on a line. -/
def eventsOf (line : Nat) : List Content → List Event
  | [] => []
  | c :: cs => c.events line ++ eventsOf (line + Text.lineFeeds c.print) cs

end

mutual

/-- What the tree holds of a part of a content that begins on a line. -/
def Content.node (line : Nat) : Content → Node
  | .text t => .text (shrink false t)
  | .void name attributes => .element name attributes line []
  | .element name attributes children =>
    .element name attributes line
      (nodesOf (line + Text.lineFeeds (printStartTag name attributes)) children)

/-- What the tree holds of content that begins on a line. -/
def nodesOf (line : Nat) : List Content → List Node
  | [] => []
  | c :: cs => c.node line :: nodesOf (line + Text.lineFeeds c.print) cs

end

/-! ## Reading -/

/-- What is read first, and then the rest. -/
theorem readFrom?_append {line : Nat} {first rest : Text} {events : List Event}
    {raw raw' : Option Text} (hne : first ≠ [])
    (h : readNext raw line (first ++ rest) = .events events first.length raw') :
    readFrom? raw line (first ++ rest) =
      (readFrom? raw' (line + Text.lineFeeds first) rest).map (events ++ ·) := by
  obtain ⟨c, t, rfl⟩ := List.exists_cons_of_ne_nil hne
  rw [List.cons_append] at h
  rw [List.cons_append, readFrom?, h]
  simp only [List.length_cons, Nat.add_sub_cancel, List.take_left, List.drop_left]

theorem readFrom?_text {t : Text} (hne : t ≠ []) (ht : ∀ c ∈ t, c.is '<' = false) (line : Nat)
    (rest : Text) :
    readFrom? none line (t ++ CodePoint.ofChar '<' :: rest) =
      (readFrom? none (line + Text.lineFeeds t) (CodePoint.ofChar '<' :: rest)).map
        ([.text t] ++ ·) := by
  refine readFrom?_append hne ?_
  obtain ⟨c, others, rfl⟩ := List.exists_cons_of_ne_nil hne
  obtain ⟨hc, hothers⟩ := List.forall_mem_cons.mp ht
  have htake : (others ++ CodePoint.ofChar '<' :: rest).takeWhile (fun c => !c.is '<') = others :=
    takeWhile_append_of_all (fun d hd => by rw [hothers d hd]; rfl) (by decide) rest
  rw [List.cons_append, readNext_of_ne_lt hc, htake]
  rfl

/-- A start tag is read back, and the content of a raw element after it is raw. -/
theorem readFrom?_anyStartTag {name : Text} {attributes : List Attribute} (hname : IsTagName name)
    (h : ∀ a ∈ attributes, IsPlain a) (line : Nat) (rest : Text) :
    readFrom? none line (printStartTag name attributes ++ rest) =
      (readFrom? (if name ∈ rawNames then some name else none)
        (line + Text.lineFeeds (printStartTag name attributes)) rest).map
          ([.startTag ⟨name, attributes, false⟩ line] ++ ·) := by
  obtain ⟨c, others, hc, hletter, -⟩ := hname.begins
  have htext : printStartTag name attributes =
      CodePoint.ofChar '<' :: (printStartTag name attributes).drop 1 := by
    simp [printStartTag, Text.ofChar]
  have htail : ∃ tail, (printStartTag name attributes).drop 1 ++ rest = c :: tail := by
    simp [printStartTag, Text.ofChar, hc]
  obtain ⟨tail, htail⟩ := htail
  have hread := read_printStartTag hname h rest
  refine readFrom?_append (by rw [htext]; exact List.cons_ne_nil _ _) ?_
  have hpiece : readPiece none line (printStartTag name attributes ++ rest) =
      .events [.startTag ⟨name, attributes, false⟩ line] (printStartTag name attributes).length
        (if name ∈ rawNames then some name else none) := by
    have hdrop : (printStartTag name attributes ++ rest).drop 1 = c :: tail := by
      rw [← htail, htext]
      rfl
    rw [htail] at hread
    rw [readPiece, hdrop]
    dsimp only
    rw [if_pos hletter, hread]
    simp
  rw [htext, List.cons_append] at hpiece ⊢
  rw [readNext_lt, hpiece]

theorem readFrom?_startTag {name : Text} {attributes : List Attribute} (hname : IsTagName name)
    (h : ∀ a ∈ attributes, IsPlain a) (hraw : name ∉ rawNames) (line : Nat) (rest : Text) :
    readFrom? none line (printStartTag name attributes ++ rest) =
      (readFrom? none (line + Text.lineFeeds (printStartTag name attributes)) rest).map
        ([.startTag ⟨name, attributes, false⟩ line] ++ ·) := by
  rw [readFrom?_anyStartTag hname h, if_neg hraw]

theorem readFrom?_endTag {name : Text} (hname : IsTagName name) (line : Nat) (rest : Text) :
    readFrom? none line (writeEndTag name ++ rest) =
      (readFrom? none (line + Text.lineFeeds (writeEndTag name)) rest).map
        ([.endTag name] ++ ·) := by
  have htext (t : Text) : writeEndTag name ++ t =
      CodePoint.ofChar '<' :: CodePoint.ofChar '/' :: (name ++ Text.ofChar '>' ++ t) := by
    simp [writeEndTag, Text.ofChar, Text.ofString]
  refine readFrom?_append (by simp [writeEndTag, Text.ofChar]) ?_
  have hpiece : readPiece none line (writeEndTag name ++ rest) =
      readEndTag none (writeEndTag name ++ rest) := by
    rw [htext]
    rfl
  rw [readEndTag_writeEndTag hname] at hpiece
  rw [htext] at hpiece ⊢
  rw [readNext_lt, hpiece]

/-- What is no text is written with a `<` first. -/
theorem Content.exists_print_eq {c : Content} (h : c.isText = false) :
    ∃ t, c.print = CodePoint.ofChar '<' :: t := by
  cases c with
  | text => cases h
  | void => exact ⟨_, rfl⟩
  | element => exact ⟨_, rfl⟩

mutual

theorem Content.readFrom?_print : ∀ c : Content, c.WellFormed → ∀ (line : Nat) (rest : Text),
    (c.isText = true → ∃ t, rest = CodePoint.ofChar '<' :: t) →
    readFrom? none line (c.print ++ rest) =
      (readFrom? none (line + Text.lineFeeds c.print) rest).map (c.events line ++ ·)
  | .text t, h, line, rest, hrest => by
    obtain ⟨tail, rfl⟩ := hrest rfl
    exact readFrom?_text h.1 h.2 line tail
  | .void name attributes, h, line, rest, _ =>
    readFrom?_startTag h.1 h.2.1.isPlain (not_mem_rawNames_of_mem_voidNames name h.2.2) line rest
  | .element name attributes children, h, line, rest, _ => by
    obtain ⟨hname, hattributes, -, hraw, -, hchildren⟩ := h
    have hend : ∃ t, writeEndTag name ++ rest = CodePoint.ofChar '<' :: t := ⟨_, rfl⟩
    rw [Content.print, List.append_assoc, List.append_assoc,
      readFrom?_startTag hname hattributes.isPlain hraw,
      readFrom?_printAll children hchildren _ _ hend, readFrom?_endTag hname,
      Option.map_map, Option.map_map]
    simp only [lineFeeds_append, Nat.add_assoc, Content.events]
    refine congrArg (Option.map · _) (funext fun es => ?_)
    simp only [Function.comp_apply, List.append_assoc, List.cons_append, List.nil_append]

/-- Content that is written plainly before some markup is read into its events. -/
theorem readFrom?_printAll : ∀ cs : List Content, AllWellFormed cs → ∀ (line : Nat) (rest : Text),
    (∃ t, rest = CodePoint.ofChar '<' :: t) →
    readFrom? none line (printAll cs ++ rest) =
      (readFrom? none (line + Text.lineFeeds (printAll cs)) rest).map (eventsOf line cs ++ ·)
  | [], _, line, rest, _ => by
    rw [printAll, eventsOf, List.nil_append, lineFeeds_nil, Nat.add_zero]
    exact (Option.map_id_fun' .. ▸ rfl)
  | c :: cs, h, line, rest, hrest => by
    obtain ⟨hc, hnext, hcs⟩ := h
    have hmarkup : c.isText = true → ∃ t, printAll cs ++ rest = CodePoint.ofChar '<' :: t := by
      intro htext
      cases cs with
      | nil => exact hrest
      | cons d ds =>
        obtain ⟨t, ht⟩ := d.exists_print_eq (hnext htext d rfl)
        refine ⟨t ++ (printAll ds ++ rest), ?_⟩
        rw [printAll, ht, List.append_assoc, List.cons_append]
    rw [printAll, List.append_assoc, c.readFrom?_print hc line _ hmarkup,
      readFrom?_printAll cs hcs _ rest hrest, Option.map_map, eventsOf, lineFeeds_append,
      Nat.add_assoc]
    refine congrArg (Option.map · _) (funext fun es => ?_)
    exact (List.append_assoc ..).symm

end

/-! ## Building -/

namespace Builder

theorem distinctAttributes_of_nodup {attributes : List Attribute}
    (h : (attributes.map Attribute.name).Nodup) : distinctAttributes attributes = attributes := by
  have hfold (kept : List Attribute) (hkept : ((kept ++ attributes).map Attribute.name).Nodup) :
      attributes.foldl (fun kept a =>
        if kept.any fun k => k.name = a.name then
          kept.map fun k => if k.name = a.name then a else k
        else kept ++ [a]) kept = kept ++ attributes := by
    clear h
    induction attributes generalizing kept with
    | nil => exact (List.append_nil kept).symm
    | cons a others ih =>
      have hnew : (kept.any fun k => k.name = a.name) = false := by
        rw [List.map_append, List.map_cons] at hkept
        rw [List.any_eq_false]
        intro k hk hname
        exact (List.nodup_append.mp hkept).2.2 k.name (List.mem_map_of_mem hk) a.name
          (List.mem_cons_self ..) (of_decide_eq_true hname)
      rw [List.foldl_cons, hnew, if_neg Bool.false_ne_true, ih _ (by simpa using hkept)]
      simp
  exact hfold [] h

/-- The state of a tree whose text has ended. -/
def tree (b : Builder) : Builder :=
  { b.endText with passedOver := [] }

/-- What one state adds to the tree of another: some nodes in the innermost open element. Only void
elements have end tags to be passed over. -/
structure Adds (b : Builder) (nodes : List Node) (b' : Builder) : Prop where
  tree_eq : b'.tree = nodes.foldl addNode b.tree
  passedOver : ∀ name ∈ b'.passedOver, name ∈ voidNames

theorem Adds.append {b b' b'' : Builder} {nodes others : List Node} (h : b.Adds nodes b')
    (h' : b'.Adds others b'') : b.Adds (nodes ++ others) b'' :=
  ⟨by rw [h'.tree_eq, h.tree_eq, List.foldl_append], h'.passedOver⟩

theorem foldl_addNode (b : Builder) (e : OpenElement) (others : List OpenElement)
    (nodes : List Node) :
    nodes.foldl addNode { b with opened := e :: others } =
      { b with opened := { e with children := nodes.reverse ++ e.children } :: others } := by
  induction nodes generalizing e with
  | nil => rfl
  | cons node nodes ih =>
    rw [List.foldl_cons, List.reverse_cons, List.append_assoc]
    exact ih { e with children := node :: e.children }

theorem endText_of_pending {b : Builder} (h : b.pending = []) : b.endText = b := by
  rw [endText, h]
  rfl

theorem tree_of_pending {b : Builder} (h : b.pending = []) :
    b.tree = { b with passedOver := [] } := by
  rw [tree, endText_of_pending h]

theorem pending_endText (b : Builder) : b.endText.pending = [] := by
  rw [endText]
  split
  · next h => exact List.isEmpty_iff.mp h
  · rfl

theorem preserves_addNode (b : Builder) (node : Node) :
    (b.addNode node).preserves = b.preserves := by
  rcases b with ⟨_ | ⟨e, others⟩, outside, pending, passedOver⟩ <;> rfl

theorem preserves_tree (b : Builder) : b.tree.preserves = b.preserves := by
  rw [tree, endText]
  split
  · rfl
  · exact b.preserves_addNode _

/-- Where white space is preserved does not change as nodes are added. -/
theorem Adds.preserves_eq {b b' : Builder} {nodes : List Node} (h : b.Adds nodes b') :
    b'.preserves = b.preserves := by
  have hfold (b : Builder) : (nodes.foldl addNode b).preserves = b.preserves := by
    clear h
    induction nodes generalizing b with
    | nil => rfl
    | cons node nodes ih => rw [List.foldl_cons, ih, preserves_addNode]
  rw [← b'.preserves_tree, h.tree_eq, hfold, b.preserves_tree]

variable {b : Builder} {name : Text} {attributes : List Attribute}

theorem adds_text (hpending : b.pending = []) (hpassed : ∀ n ∈ b.passedOver, n ∈ voidNames)
    {t : Text} (ht : t ≠ []) : b.Adds [.text (shrink b.preserves t)] (b.add (.text t)) := by
  refine ⟨?_, hpassed⟩
  rw [tree_of_pending hpending, add, hpending, List.nil_append, tree, endText,
    show ({ b with pending := t } : Builder).preserves = b.preserves from rfl]
  simp only [List.isEmpty_eq_false_iff.mpr ht, Bool.false_eq_true, if_false]
  rcases b with ⟨_ | ⟨e, others⟩, outside, pending, passedOver⟩ <;>
  · obtain rfl : pending = [] := hpending
    rfl

theorem passedOver_addNode (b : Builder) (node : Node) :
    (b.addNode node).passedOver = b.passedOver := by
  rcases b with ⟨_ | ⟨e, others⟩, outside, pending, passedOver⟩ <;> rfl

theorem passedOver_endText (b : Builder) : b.endText.passedOver = b.passedOver := by
  rw [endText]
  split
  · rfl
  · exact b.passedOver_addNode _

theorem pending_addNode (b : Builder) (node : Node) : (b.addNode node).pending = b.pending := by
  rcases b with ⟨_ | ⟨e, others⟩, outside, pending, passedOver⟩ <;> rfl

/-- A plain start tag of a void element adds the element. -/
theorem add_startTag_void (hvoid : name ∈ voidNames)
    (hdistinct : (attributes.map Attribute.name).Nodup) (line : Nat) :
    b.add (.startTag ⟨name, attributes, false⟩ line) =
      { b.endText.addNode (.element name attributes line []) with
        passedOver := b.passedOver ++ [name] } := by
  simp only [add, startTag, Bool.false_eq_true, if_false, List.contains_iff_mem.mpr hvoid, if_true,
    distinctAttributes_of_nodup hdistinct]
  have hclose : closeInnermost { b.endText with
      opened := ⟨name, attributes, line, []⟩ :: b.endText.opened } =
        b.endText.addNode (.element name attributes line []) := rfl
  rw [hclose, passedOver_addNode, passedOver_endText]

/-- A plain start tag of another element opens it. -/
theorem add_startTag_of_not_void (hvoid : name ∉ voidNames)
    (hdistinct : (attributes.map Attribute.name).Nodup) (line : Nat) :
    b.add (.startTag ⟨name, attributes, false⟩ line) =
      { b.endText with opened := ⟨name, attributes, line, []⟩ :: b.endText.opened } := by
  have hnot : voidNames.contains name = false := by
    rwa [← Bool.not_eq_true, List.contains_iff_mem]
  simp only [add, startTag, Bool.false_eq_true, if_false, hnot,
    distinctAttributes_of_nodup hdistinct]

/-- A node that is added after the text has ended is added to the tree. -/
theorem tree_addNode_endText (b : Builder) (node : Node) (passedOver : List Text) :
    ({ b.endText.addNode node with passedOver := passedOver } : Builder).tree =
      b.tree.addNode node := by
  rw [tree_of_pending, tree]
  · generalize b.endText = c
    rcases c with ⟨_ | ⟨e, others⟩, outside, pending, passed⟩ <;> rfl
  · exact (pending_addNode _ _).trans b.pending_endText

theorem adds_void (hvoid : name ∈ voidNames) (hdistinct : (attributes.map Attribute.name).Nodup)
    (hpassed : ∀ n ∈ b.passedOver, n ∈ voidNames) (line : Nat) :
    b.Adds [.element name attributes line []] (b.add (.startTag ⟨name, attributes, false⟩ line)) ∧
      (b.add (.startTag ⟨name, attributes, false⟩ line)).pending = [] := by
  rw [add_startTag_void hvoid hdistinct]
  refine ⟨⟨b.tree_addNode_endText _ _, fun n hn => ?_⟩,
    (pending_addNode _ _).trans b.pending_endText⟩
  rcases List.mem_append.mp hn with hn | hn
  · exact hpassed n hn
  · exact List.mem_singleton.mp hn ▸ hvoid

/-- The end tag of an element adds it with what was added inside it. -/
theorem adds_element (hvoid : name ∉ voidNames) (hdistinct : (attributes.map Attribute.name).Nodup)
    {line : Nat} {nodes : List Node} {inner : Builder}
    (h : (b.add (.startTag ⟨name, attributes, false⟩ line)).Adds nodes inner) :
    b.Adds [.element name attributes line nodes] (inner.add (.endTag name)) ∧
      (inner.add (.endTag name)).pending = [] := by
  have hpassed : inner.passedOver.contains name = false := by
    rw [← Bool.not_eq_true, List.contains_iff_mem]
    exact fun hname => hvoid (h.passedOver name hname)
  have hinner : inner.endText = { b.endText with
      opened := ⟨name, attributes, line, nodes.reverse⟩ :: b.endText.opened
      passedOver := inner.passedOver } := by
    have hself : inner.endText = { inner.tree with passedOver := inner.passedOver } := by
      rw [← inner.passedOver_endText]
      rfl
    have hstart : ({ b.endText with opened := ⟨name, attributes, line, []⟩ :: b.endText.opened } :
        Builder).tree = { b.endText with
          opened := ⟨name, attributes, line, []⟩ :: b.endText.opened, passedOver := [] } :=
      tree_of_pending b.pending_endText
    have hfold := foldl_addNode { b.endText with passedOver := [] } ⟨name, attributes, line, []⟩
      b.endText.opened nodes
    rw [List.append_nil] at hfold
    rw [hself, h.tree_eq, add_startTag_of_not_void hvoid hdistinct, hstart, hfold]
  have hfind : (inner.endText.opened.findIdx? fun e => e.name = name) = some 0 := by
    rw [hinner]
    simp [List.findIdx?_cons]
  have hend : inner.add (.endTag name) = { b.endText.addNode
      (.element name attributes line nodes) with passedOver := inner.passedOver } := by
    rw [add, endTag, hpassed, if_neg Bool.false_ne_true, closeNamed, hfind]
    dsimp only
    rw [closeInnermosts, closeInnermosts, hinner]
    simp only [closeInnermost, OpenElement.close, List.reverse_reverse]
    generalize b.endText = c
    rcases c with ⟨_ | ⟨e, others⟩, outside, pending, passed⟩ <;> rfl
  rw [hend]
  exact ⟨⟨b.tree_addNode_endText _ _, h.passedOver⟩, (pending_addNode _ _).trans b.pending_endText⟩

/-- No white space is preserved in the content of an element that preserves none. -/
theorem preserves_open (e : OpenElement) (he : e.name ∉ preservingNames) :
    ({ b.endText with opened := e :: b.endText.opened } : Builder).preserves = b.preserves := by
  have hnot : preservingNames.contains e.name = false := by
    rwa [← Bool.not_eq_true, List.contains_iff_mem]
  rw [← preserves_tree b, tree]
  simp only [preserves, List.any_cons, hnot, Bool.false_or]

end Builder

mutual

theorem Content.adds_events : ∀ c : Content, c.WellFormed → ∀ (line : Nat) {b : Builder},
    (c.isText = true → b.pending = []) → b.preserves = false →
    (∀ n ∈ b.passedOver, n ∈ voidNames) →
    b.Adds [c.node line] ((c.events line).foldl Builder.add b) ∧
      (c.isText = false → ((c.events line).foldl Builder.add b).pending = [])
  | .text _, h, _, _, hpending, hpreserves, hpassed => by
    have hadds := Builder.adds_text (hpending rfl) hpassed h.1
    rw [hpreserves] at hadds
    exact ⟨hadds, fun htext => by cases htext⟩
  | .void _ _, h, line, _, _, _, hpassed =>
    have hadds := Builder.adds_void h.2.2 h.2.1.distinct hpassed line
    ⟨hadds.1, fun _ => hadds.2⟩
  | .element name attributes children, h, line, b, _, hpreserves, hpassed => by
    obtain ⟨hname, hattributes, hvoid, hraw, hpre, hchildren⟩ := h
    have hopened := b.add_startTag_of_not_void hvoid hattributes.distinct line
    have hinner := adds_eventsOf children hchildren
      (line + Text.lineFeeds (printStartTag name attributes))
      (b := b.add (.startTag ⟨name, attributes, false⟩ line))
      (fun _ _ _ => by rw [hopened]; exact b.pending_endText)
      (by rw [hopened, Builder.preserves_open _ hpre]; exact hpreserves)
      (by rw [hopened, b.passedOver_endText]; exact hpassed)
    have hadds := Builder.adds_element hvoid hattributes.distinct hinner
    rw [Content.events, List.foldl_cons, List.foldl_append]
    exact ⟨hadds.1, fun _ => hadds.2⟩

/-- The events of content build the tree that the content describes. -/
theorem adds_eventsOf : ∀ cs : List Content, AllWellFormed cs → ∀ (line : Nat) {b : Builder},
    (∀ c ∈ cs.head?, c.isText = true → b.pending = []) → b.preserves = false →
    (∀ n ∈ b.passedOver, n ∈ voidNames) →
    b.Adds (nodesOf line cs) ((eventsOf line cs).foldl Builder.add b)
  | [], _, _, _, _, _, hpassed => ⟨rfl, hpassed⟩
  | c :: cs, h, line, b, hpending, hpreserves, hpassed => by
    obtain ⟨hc, hnext, hcs⟩ := h
    obtain ⟨hfirst, hended⟩ := c.adds_events hc line (hpending c rfl) hpreserves hpassed
    rw [eventsOf, List.foldl_append]
    refine hfirst.append (adds_eventsOf cs hcs _ (fun d hd hd' => hended ?_)
      (hfirst.preserves_eq.trans hpreserves) hfirst.passedOver)
    rw [← Bool.not_eq_true]
    intro htext
    rw [hnext htext d hd] at hd'
    cases hd'

end

/-- The nodes that are added to an empty tree make up the tree. -/
theorem Builder.finish_of_adds {nodes : List Node} {b : Builder}
    (h : ({} : Builder).Adds nodes b) : b.finish = nodes := by
  have hfold (b : Builder) (hb : b.opened = []) : nodes.foldl addNode b =
      { b with outside := nodes.reverse ++ b.outside } := by
    clear h
    induction nodes generalizing b with
    | nil => rfl
    | cons node nodes ih =>
      have hnode : b.addNode node = { b with outside := node :: b.outside } := by
        rw [addNode, hb]
      rw [List.foldl_cons, hnode, List.reverse_cons, List.append_assoc]
      exact ih { b with outside := node :: b.outside } hb
  have htree := h.tree_eq.trans (hfold _ rfl)
  have hopened : b.endText.opened = [] := congrArg Builder.opened htree
  have houtside : b.endText.outside = nodes.reverse ++ [] := congrArg Builder.outside htree
  rw [finish, hopened, List.length_nil, closeInnermosts, houtside, List.append_nil,
    List.reverse_reverse]

end MessageExtraction.Markup
