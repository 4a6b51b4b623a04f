import MessageExtraction.Proofs.Script.MarkedCalls
import Mathlib.Data.List.Forall2

/-!
# The comments of the parts of a tree

The walk through a tree comes to every part once, a part before what is in it and siblings in source
order. The comments of a part are the block directly before the nearest part on the way down to it
that has such a block. To a block belong the comments directly before a part, without those on the
row where the sibling before them ends.

The walk need not be recursive: a stack that holds the parts still to come with the comments that
they inherit goes the same way.

## Main definitions

* `Script.Address`, `Script.Tree.part?` -- the way from a tree down to a part.
* `Script.OwnBlock` -- the comments directly before a child.
* `Script.Inherits` -- the comments of a part.
* `Script.drain` -- the walk with a stack.

## Main results

* `drain_eq_flatMap_walk` -- a stack yields the walks through its parts.
* `walk_inherits` -- what the walk yields.
-/

namespace MessageExtraction.Script

/-- The way from a tree down to one of its parts: the number of the child to go to at each step. The
tree itself has the empty address. -/
abbrev Address := List Nat

/-- The part of a tree at an address. -/
def Tree.part? (t : Tree) : Address → Option Tree
  | [] => some t
  | i :: path => t.children[i]?.bind fun child => child.part? path

/-- The comments directly before a child: all siblings before it when these are comments, and else
those after the last sibling that is no comment, without the ones on the row where it ends. -/
inductive OwnBlock (siblings : List Tree) (i : Nat) : List Tree → Prop
  | first (h : ∀ c ∈ siblings.take i, c.isComment = true) : OwnBlock siblings i (siblings.take i)
  | after {earlier run : List Tree} {previous : Tree}
      (h : siblings.take i = earlier ++ previous :: run) (hprevious : previous.isComment = false)
      (hrun : ∀ c ∈ run, c.isComment = true) :
      OwnBlock siblings i (run.filter fun c => c.firstRow ≠ previous.lastRow)

/-- The comments directly before the part at an address. The tree itself has none. -/
def OwnBlockAt (root : Tree) (a : Address) (block : List Tree) : Prop :=
  ∃ path i parent, a = path ++ [i] ∧ root.part? path = some parent ∧
    OwnBlock parent.children i block

/-- The comments of the part at an address: those directly before the nearest part on the way down
to it that has any. -/
inductive Inherits (root : Tree) (a : Address) : List Tree → Prop
  | nearest {b : Address} {block : List Tree} (hb : b <+: a) (hown : OwnBlockAt root b block)
      (hne : block ≠ []) (hbelow : ∀ d, b <+: d → d <+: a → d ≠ b → OwnBlockAt root d []) :
      Inherits root a block
  | none (h : ∀ d, d <+: a → d ≠ [] → OwnBlockAt root d []) : Inherits root a []

mutual

/-- The addresses of a tree and all its parts. -/
def Tree.addresses : Tree → List Address
  | .leaf _ _ _ _ => [[]]
  | .node _ children => [] :: addressesFrom 0 children

/-- The addresses of children and all parts in them; there are so many children before them. -/
def addressesFrom (before : Nat) : List Tree → List Address
  | [] => []
  | t :: ts => t.addresses.map (before :: ·) ++ addressesFrom (before + 1) ts

end

/-- Children with their comments, given those of the parent; `before` are the children before them
from the nearest on. -/
def withComments (inherited before : List Tree) : List Tree → List (Tree × List Tree)
  | [] => []
  | t :: ts =>
    (t, commentsOf inherited (leadingComments before)) :: withComments inherited (t :: before) ts

/-- Children with their comments are put on a stack, the last child first. -/
def push (inherited children : List Tree) (stack : List (Tree × List Tree)) :
    List (Tree × List Tree) :=
  (withComments inherited [] children).reverse.foldl (fun stack part => part :: stack) stack

/-! ## The walk with a stack -/

theorem push_eq (inherited children : List Tree) (stack : List (Tree × List Tree)) :
    push inherited children stack = withComments inherited [] children ++ stack := by
  simp [push]

theorem map_fst_withComments (inherited before ts : List Tree) :
    (withComments inherited before ts).map Prod.fst = ts := by
  induction ts generalizing before with
  | nil => rfl
  | cons t ts ih => rw [withComments, List.map_cons, ih]

theorem Tree.preorderAll_eq (ts : List Tree) : preorderAll ts = ts.flatMap preorder := by
  induction ts with
  | nil => rfl
  | cons t ts ih => rw [preorderAll, ih, List.flatMap_cons]

theorem Tree.preorder_eq (t : Tree) : t.preorder = t :: t.children.flatMap preorder := by
  cases t with
  | leaf => rfl
  | node _ ts => rw [preorder, preorderAll_eq, children]

/-- The parts that are still to come when a stack holds these. -/
def pending (stack : List (Tree × List Tree)) : List Tree :=
  (stack.map Prod.fst).flatMap Tree.preorder

theorem pending_cons (t : Tree) (comments inherited : List Tree)
    (stack : List (Tree × List Tree)) :
    pending ((t, comments) :: stack) = t :: pending (push inherited t.children stack) := by
  simp only [pending, push_eq, List.map_cons, List.map_append, map_fst_withComments,
    List.flatMap_cons, List.flatMap_append, t.preorder_eq, List.cons_append]

/-- Parts are taken from a stack, and the children of each part are put on it. -/
def drain : List (Tree × List Tree) → List (Tree × List Tree)
  | [] => []
  | (t, comments) :: stack => (t, comments) :: drain (push comments t.children stack)
termination_by stack => (pending stack).length
decreasing_by
  rw [pending_cons t comments comments stack]
  exact Nat.lt_succ_self _

theorem walkParts_eq (inherited before ts : List Tree) :
    walkParts inherited before ts =
      (withComments inherited before ts).flatMap fun part => part.1.walk part.2 := by
  induction ts generalizing before with
  | nil => rfl
  | cons t ts ih => rw [walkParts, ih, withComments, List.flatMap_cons]

theorem walk_eq (t : Tree) (comments : List Tree) :
    t.walk comments = (t, comments) :: walkParts comments [] t.children := by
  cases t <;> rfl

/-- A stack yields the walks through the parts on it. -/
theorem drain_eq_flatMap_walk (stack : List (Tree × List Tree)) :
    drain stack = stack.flatMap fun part => part.1.walk part.2 := by
  fun_induction drain stack with
  | case1 => rfl
  | case2 t comments stack ih =>
    rw [ih, push_eq, List.flatMap_append, List.flatMap_cons, walk_eq, walkParts_eq,
      List.cons_append]

/-! ## Blocks -/

section

variable {root parent : Tree} {siblings block block' inherited : List Tree} {i : Nat}
  {a b path : Address}

theorem leadingComments_of_comments {run : List Tree} (h : ∀ c ∈ run, c.isComment = true) :
    leadingComments run.reverse = run := by
  have hall : ∀ c ∈ run.reverse, c.isComment = true := fun c hc => h c (List.mem_reverse.mp hc)
  simp [leadingComments, List.takeWhile_eq_self_iff.mpr hall, List.dropWhile_eq_nil_iff.mpr hall]

theorem leadingComments_append {earlier run : List Tree} {previous : Tree}
    (hprevious : previous.isComment = false) (hrun : ∀ c ∈ run, c.isComment = true) :
    leadingComments (earlier ++ previous :: run).reverse =
      run.filter fun c => c.firstRow ≠ previous.lastRow := by
  have hall : ∀ c ∈ run.reverse, c.isComment = true := fun c hc => hrun c (List.mem_reverse.mp hc)
  have hsplit : (earlier ++ previous :: run).reverse =
      run.reverse ++ previous :: earlier.reverse := by simp
  simp [leadingComments, hsplit, List.takeWhile_append_of_pos hall,
    List.dropWhile_append_of_pos hall, hprevious]

theorem comments_or_split (ts : List Tree) :
    (∀ c ∈ ts, c.isComment = true) ∨ ∃ earlier previous run, ts = earlier ++ previous :: run ∧
      previous.isComment = false ∧ ∀ c ∈ run, c.isComment = true := by
  induction ts with
  | nil => exact .inl nofun
  | cons t ts ih =>
    rcases ih with hall | ⟨earlier, previous, run, rfl, hprevious, hrun⟩
    · cases ht : t.isComment with
      | true => exact .inl (List.forall_mem_cons.mpr ⟨ht, hall⟩)
      | false => exact .inr ⟨[], t, ts, rfl, ht, hall⟩
    · exact .inr ⟨t :: earlier, previous, run, rfl, hprevious, hrun⟩

/-- The comments directly before a child are those that are found going back from it. -/
theorem ownBlock_iff :
    OwnBlock siblings i block ↔ block = leadingComments (siblings.take i).reverse := by
  constructor
  · rintro (h | ⟨h, hprevious, hrun⟩)
    · rw [leadingComments_of_comments h]
    · rw [h, leadingComments_append hprevious hrun]
  · rintro rfl
    rcases comments_or_split (siblings.take i) with
      hall | ⟨earlier, previous, run, h, hprevious, hrun⟩
    · rw [leadingComments_of_comments hall]
      exact .first hall
    · rw [h, leadingComments_append hprevious hrun]
      exact .after h hprevious hrun

theorem OwnBlockAt.unique (h : OwnBlockAt root a block) (h' : OwnBlockAt root a block') :
    block = block' := by
  obtain ⟨path, i, parent, rfl, hparent, hblock⟩ := h
  obtain ⟨path', i', parent', heq, hparent', hblock'⟩ := h'
  obtain ⟨rfl, hi⟩ := List.append_inj' heq rfl
  cases hi
  obtain rfl : parent = parent' := Option.some.inj (hparent.symm.trans hparent')
  rw [ownBlock_iff.mp hblock, ownBlock_iff.mp hblock']

/-- No part below the nearest one with a block has one. -/
theorem within_nearest {d : Address} (hb : b <+: a)
    (hbelow : ∀ d, b <+: d → d <+: a → d ≠ b → OwnBlockAt root d [])
    (hd : d <+: a) (hown : OwnBlockAt root d block) (hne : block ≠ []) : d <+: b := by
  rcases List.prefix_or_prefix_of_prefix hd hb with hdb | hbd
  · exact hdb
  · by_contra hno
    have hother : d ≠ b := fun heq => hno (heq ▸ List.prefix_rfl)
    exact hne (hown.unique (hbelow d hbd hd hother))

/-- The comments of a part are determined. -/
theorem Inherits.unique (h : Inherits root a block) (h' : Inherits root a block') :
    block = block' := by
  have habsent {d : Address} {block : List Tree} (hd : d <+: a) (hown : OwnBlockAt root d block)
      (hne : block ≠ []) (hno : ∀ d, d <+: a → d ≠ [] → OwnBlockAt root d []) : False := by
    refine hne (hown.unique (hno d hd ?_))
    rintro rfl
    obtain ⟨path, i, parent, hnil, -⟩ := hown
    exact List.append_ne_nil_of_right_ne_nil path (List.cons_ne_nil i []) hnil.symm
  cases h with
  | @nearest b block hb hown hne hbelow =>
    cases h' with
    | @nearest b' block' hb' hown' hne' hbelow' =>
      have hle := within_nearest hb hbelow hb' hown' hne'
      have hge := within_nearest hb' hbelow' hb hown hne
      obtain rfl : b = b' := hge.eq_of_length_le hle.length_le
      exact hown.unique hown'
    | none hno => exact (habsent hb hown hne hno).elim
  | none hno =>
    cases h' with
    | nearest hb hown hne => exact (habsent hb hown hne hno).elim
    | none => rfl

theorem inherits_root (root : Tree) : Inherits root [] [] :=
  .none fun _ hd hne => absurd (List.prefix_nil.mp hd) hne

/-- A child without a block of its own has the comments of its parent. -/
theorem Inherits.child (h : Inherits root path inherited) (hparent : root.part? path = some parent)
    (i : Nat) : Inherits root (path ++ [i])
      (commentsOf inherited (leadingComments (parent.children.take i).reverse)) := by
  have hown : OwnBlockAt root (path ++ [i]) (leadingComments (parent.children.take i).reverse) :=
    ⟨path, i, parent, rfl, hparent, ownBlock_iff.mpr rfl⟩
  rw [commentsOf]
  split
  · next hempty =>
    rw [List.isEmpty_iff.mp hempty] at hown
    cases h with
    | nearest hb hblock hne hbelow =>
      refine .nearest (hb.trans (List.prefix_append ..)) hblock hne fun d hbd hd hdb => ?_
      rcases List.prefix_concat_iff.mp hd with rfl | hd
      · exact hown
      · exact hbelow d hbd hd hdb
    | none h =>
      refine .none fun d hd hne => ?_
      rcases List.prefix_concat_iff.mp hd with rfl | hd
      · exact hown
      · exact h d hd hne
  · next hempty =>
    refine .nearest List.prefix_rfl hown (fun h => hempty (List.isEmpty_iff.mpr h))
      fun d hbelow hd hne => absurd (hd.eq_of_length_le hbelow.length_le) hne

end

/-! ## Addresses -/

theorem Tree.part?_append (t : Tree) (path rest : Address) :
    t.part? (path ++ rest) = (t.part? path).bind fun part => part.part? rest := by
  induction path generalizing t with
  | nil => rfl
  | cons i path ih =>
    rw [List.cons_append, part?, part?, Option.bind_assoc]
    exact congrArg _ (funext fun child => ih child)

mutual

/-- The addresses of a tree are those at which there is a part. -/
theorem mem_addresses_iff : ∀ (t : Tree) {a : Address},
    a ∈ t.addresses ↔ ∃ part, t.part? a = some part
  | .leaf _ _ _ _, a => by
    cases a with
    | nil => exact iff_of_true List.mem_cons_self ⟨_, rfl⟩
    | cons i path =>
      exact iff_of_false (by simp [Tree.addresses]) (by simp [Tree.part?, Tree.children])
  | .node kind children, a => by
    cases a with
    | nil => exact iff_of_true List.mem_cons_self ⟨_, rfl⟩
    | cons i path =>
      rw [Tree.addresses, List.mem_cons, mem_addressesFrom_iff 0 children]
      simp only [reduceCtorEq, false_or, Nat.zero_add, List.cons.injEq, Tree.part?, Tree.children,
        Option.bind_eq_some_iff]
      constructor
      · rintro ⟨_, _, child, part, ⟨rfl, rfl⟩, hchild, hpart⟩
        exact ⟨part, child, hchild, hpart⟩
      · rintro ⟨part, child, hchild, hpart⟩
        exact ⟨i, path, child, part, ⟨rfl, rfl⟩, hchild, hpart⟩

theorem mem_addressesFrom_iff (before : Nat) : ∀ (ts : List Tree) {a : Address},
    a ∈ addressesFrom before ts ↔ ∃ i path child part, a = (before + i) :: path ∧
      ts[i]? = some child ∧ child.part? path = some part
  | [], a => iff_of_false List.not_mem_nil (by simp)
  | t :: ts, a => by
    rw [addressesFrom, List.mem_append, List.mem_map, mem_addressesFrom_iff (before + 1) ts]
    constructor
    · rintro (⟨path, hpath, rfl⟩ | ⟨i, path, child, part, rfl, hchild, hpart⟩)
      · obtain ⟨part, hpart⟩ := (mem_addresses_iff t).mp hpath
        exact ⟨0, path, t, part, rfl, rfl, hpart⟩
      · exact ⟨i + 1, path, child, part, by rw [Nat.add_right_comm, Nat.add_assoc], hchild, hpart⟩
    · rintro ⟨i, path, child, part, rfl, hchild, hpart⟩
      cases i with
      | zero =>
        cases hchild
        exact .inl ⟨path, (mem_addresses_iff t).mpr ⟨part, hpart⟩, rfl⟩
      | succ i =>
        exact .inr ⟨i, path, child, part, by rw [Nat.add_right_comm, Nat.add_assoc], hchild, hpart⟩

end

mutual

/-- Addresses ascend, which is the order of a tree read from the left. -/
theorem pairwise_addresses : ∀ t : Tree, t.addresses.Pairwise (· < ·)
  | .leaf _ _ _ _ => List.pairwise_singleton ..
  | .node _ children => by
    rw [Tree.addresses]
    refine List.pairwise_cons.mpr ⟨fun a ha => ?_, pairwise_addressesFrom 0 children⟩
    obtain ⟨i, path, -, -, rfl, -⟩ := (mem_addressesFrom_iff 0 children).mp ha
    exact List.nil_lt_cons _ _

theorem pairwise_addressesFrom (before : Nat) : ∀ ts : List Tree,
    (addressesFrom before ts).Pairwise (· < ·)
  | [] => .nil
  | t :: ts => by
    rw [addressesFrom]
    refine List.pairwise_append.mpr ⟨List.pairwise_map.mpr ?_,
      pairwise_addressesFrom (before + 1) ts, fun a ha b hb => ?_⟩
    · exact (pairwise_addresses t).imp fun h => List.cons_lt_cons_iff.mpr (.inr ⟨rfl, h⟩)
    · obtain ⟨path, -, rfl⟩ := List.mem_map.mp ha
      obtain ⟨i, path', -, -, rfl, -⟩ := (mem_addressesFrom_iff (before + 1) ts).mp hb
      exact List.cons_lt_cons_iff.mpr (.inl (by omega))

end

/-! ## The walk -/

/-- What the walk yields for the part at an address is this part with its comments. -/
def YieldsAt (root : Tree) (a : Address) (visit : Tree × List Tree) : Prop :=
  root.part? a = some visit.1 ∧ Inherits root a visit.2

theorem yieldsAt_append_nil {root t : Tree} {path : Address} {comments : List Tree}
    (ht : root.part? path = some t) (hcomments : Inherits root path comments) :
    YieldsAt root (path ++ []) (t, comments) := by
  rw [List.append_nil]
  exact ⟨ht, hcomments⟩

mutual

theorem yieldsAt_walk (root : Tree) : ∀ (t : Tree) {path : Address} {comments : List Tree},
    root.part? path = some t → Inherits root path comments →
      List.Forall₂ (fun a visit => YieldsAt root (path ++ a) visit) t.addresses (t.walk comments)
  | .leaf _ _ _ _, _, _, ht, hcomments => .cons (yieldsAt_append_nil ht hcomments) .nil
  | .node _ children, _, _, ht, hcomments =>
    .cons (yieldsAt_append_nil ht hcomments) (yieldsAt_walkParts root [] children ht hcomments rfl)

theorem yieldsAt_walkParts (root : Tree) : ∀ (before ts : List Tree) {path : Address}
    {parent : Tree} {inherited : List Tree}, root.part? path = some parent →
      Inherits root path inherited → parent.children = before.reverse ++ ts →
      List.Forall₂ (fun a visit => YieldsAt root (path ++ a) visit)
        (addressesFrom before.length ts) (walkParts inherited before ts)
  | _, [], _, _, _, _, _, _ => .nil
  | before, t :: ts, path, parent, inherited, hparent, hinherited, hchildren => by
    -- the walk has the earlier siblings from the nearest on, an own block in source order
    have hbefore : (parent.children.take before.length).reverse = before := by
      simp [hchildren]
    have hchild : root.part? (path ++ [before.length]) = some t := by
      rw [root.part?_append, hparent]
      simp [Tree.part?, hchildren]
    have hcomments := hinherited.child hparent before.length
    rw [hbefore] at hcomments
    have hfirst := yieldsAt_walk root t hchild hcomments
    have hothers := yieldsAt_walkParts root (t :: before) ts hparent hinherited
      (by rw [hchildren, List.reverse_cons, List.append_assoc]; rfl)
    rw [addressesFrom, walkParts]
    refine List.rel_append (List.forall₂_map_left_iff.mpr ?_) hothers
    simpa only [List.append_assoc, List.singleton_append] using hfirst

end

/-- The walk through a tree, which is also the one that keeps a stack, yields every part once, a
part before what is in it and siblings in source order. With each part it yields the comments
directly before the nearest part on the way down to it that has any, and none where no part has. -/
theorem walk_inherits (root : Tree) :
    root.walk [] = drain [(root, [])] ∧
      ∃ addresses : List Address,
        (∀ a, a ∈ addresses ↔ ∃ part, root.part? a = some part) ∧
        addresses.Pairwise (· < ·) ∧
        List.Forall₂ (fun a visit => root.part? a = some visit.1 ∧
          ∀ block, Inherits root a block ↔ block = visit.2) addresses (root.walk []) := by
  have hstack : drain [(root, [])] = root.walk [] := by
    rw [drain_eq_flatMap_walk, List.flatMap_cons, List.flatMap_nil, List.append_nil]
  -- the walk is taken together with the addresses, which ascend and leave no part out
  refine ⟨hstack.symm, root.addresses, fun a => mem_addresses_iff root, pairwise_addresses root, ?_⟩
  refine (yieldsAt_walk root root rfl (inherits_root root)).imp ?_
  rintro a visit ⟨hpart, hinherits⟩
  refine ⟨hpart, fun block => ⟨fun h => h.unique hinherits, ?_⟩⟩
  rintro rfl
  exact hinherits

end MessageExtraction.Script
