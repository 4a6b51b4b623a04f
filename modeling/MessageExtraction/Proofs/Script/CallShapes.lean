import Mathlib.Data.List.Basic
import MessageExtraction.Script.Calls

/-!
# The shape of a call

A call is a construct that begins with what it calls and ends with the list of its arguments, and
comments may stand anywhere between its parts. What it calls is a variable or a member access, which
begins with the object and ends with the name of the member. The arguments are what stands in the
list besides comments, brackets and separators.

These shapes are read off the constructors of a tree. The functions that scan calls find the same
parts by leaving out comments and taking the first and the last of what remains.

## Main definitions

* `Script.Comment`, `Script.Mark` -- the leaves that are no operands.
* `Script.Operands` -- the operands among trees.
* `Script.BeginsWith`, `Script.EndsWith` -- the first and the last of trees, comments apart.
* `Script.OperatorIs` -- the operator among the parts of a construct.
* `Script.Calls` -- what a call calls, and its arguments.
* `Script.NamesMethod`, `Script.NamesObject` -- the method and the object of a call.

## Main results

* `operands_iff`, `joinsByPlus_iff` -- which operands are joined, and how.
* `Calls.arguments_eq`, `exists_calls` -- the arguments of a call.
* `Calls.methodName?_eq_some_iff` -- the method of a call.
* `Calls.objectName?_eq_some_iff` -- the object of a call.
-/

namespace MessageExtraction.Script

/-- A leaf is a comment. -/
inductive Comment : Tree → Prop
  | intro (text : Text) (firstRow lastRow : Nat) : Comment (.leaf .comment text firstRow lastRow)

/-- A leaf is a bracket, a separator, an operator or a keyword. -/
inductive Mark : Tree → Prop
  | punctuation (text : Text) (firstRow lastRow : Nat) :
      Mark (.leaf .punctuation text firstRow lastRow)
  | keyword (text : Text) (firstRow lastRow : Nat) : Mark (.leaf .keyword text firstRow lastRow)

/-- Among trees that stand side by side, these are the operands. -/
inductive Operands : (trees operands : List Tree) → Prop
  | nil : Operands [] []
  | comment {t : Tree} {ts us : List Tree} (h : Comment t) (hs : Operands ts us) :
      Operands (t :: ts) us
  | mark {t : Tree} {ts us : List Tree} (h : Mark t) (hs : Operands ts us) : Operands (t :: ts) us
  | operand {t : Tree} {ts us : List Tree} (hcomment : ¬ Comment t) (hmark : ¬ Mark t)
      (hs : Operands ts us) : Operands (t :: ts) (t :: us)

/-- Trees begin with a tree, but for comments before it. -/
def BeginsWith (ts : List Tree) (t : Tree) : Prop :=
  ∃ comments others, ts = comments ++ t :: others ∧ (∀ c ∈ comments, Comment c) ∧ ¬ Comment t

/-- Trees end with a tree, but for comments after it. -/
def EndsWith (ts : List Tree) (t : Tree) : Prop :=
  ∃ others comments, ts = others ++ t :: comments ∧ (∀ c ∈ comments, Comment c) ∧ ¬ Comment t

/-- The first mark among trees is a word. -/
def OperatorIs (ts : List Tree) (word : Text) : Prop :=
  ∃ before kind firstRow lastRow after, ts = before ++ .leaf kind word firstRow lastRow :: after ∧
    (∀ t ∈ before, ¬ Mark t) ∧ Mark (.leaf kind word firstRow lastRow)

/-- A call, what it calls, and the arguments that it passes. -/
inductive Calls : (call callee : Tree) → (arguments : List Tree) → Prop
  | intro {children items arguments : List Tree} {callee : Tree}
      (hcallee : BeginsWith children callee) (hlist : EndsWith children (.node .arguments items))
      (harguments : Operands items arguments) : Calls (.node .call children) callee arguments

/-- What a call calls names its method: a variable by itself, a member access by its last part. -/
inductive NamesMethod : (callee name : Tree) → Prop
  | bare (text : Text) (firstRow lastRow : Nat) :
      NamesMethod (.leaf .identifier text firstRow lastRow)
        (.leaf .identifier text firstRow lastRow)
  | member {children : List Tree} {name : Tree} (h : EndsWith children name) :
      NamesMethod (.node .member children) name

/-- What a call calls is a member of an object of this name: of a variable, or of a member access by
its last part. -/
inductive NamesObject : (callee : Tree) → (object : Text) → Prop
  | bare {children : List Tree} {text : Text} {firstRow lastRow : Nat}
      (h : BeginsWith children (.leaf .identifier text firstRow lastRow)) :
      NamesObject (.node .member children) text
  | member {children parts : List Tree} {kind : LeafKind} {text : Text} {firstRow lastRow : Nat}
      (h : BeginsWith children (.node .member parts))
      (hname : EndsWith parts (.leaf kind text firstRow lastRow)) :
      NamesObject (.node .member children) text

/-! ## Comments, marks and operands -/

theorem isComment_iff {t : Tree} : t.isComment = true ↔ Comment t := by
  constructor
  · intro h
    unfold Tree.isComment at h
    split at h
    · exact .intro _ _ _
    · cases h
  · rintro ⟨⟩
    rfl

theorem isNamed_eq_false_iff {t : Tree} : t.isNamed = false ↔ Mark t := by
  constructor
  · intro h
    cases t with
    | leaf kind text firstRow lastRow =>
      have hkind : kind = .punctuation ∨ kind = .keyword := by
        simpa [Tree.isNamed, or_iff_not_imp_left] using h
      rcases hkind with rfl | rfl
      · exact .punctuation text firstRow lastRow
      · exact .keyword text firstRow lastRow
    | node => cases h
  · rintro (⟨⟩ | ⟨⟩) <;> rfl

theorem Mark.not_comment {t : Tree} (h : Mark t) : ¬ Comment t := by
  rintro ⟨⟩
  cases h

/-- The operands are what remains when comments and marks are left out. -/
theorem operands_iff {ts us : List Tree} :
    Operands ts us ↔ ts.filter (fun t => t.isNamed && !t.isComment) = us := by
  have hkeeps (t : Tree) : (t.isNamed && !t.isComment) = true ↔ ¬ Mark t ∧ ¬ Comment t := by
    rw [Bool.and_eq_true, Bool.not_eq_true', ← isComment_iff, ← isNamed_eq_false_iff,
      Bool.not_eq_true, Bool.not_eq_false]
  constructor
  · intro h
    induction h with
    | nil => rfl
    | comment h _ ih => rw [List.filter_cons, if_neg (mt (hkeeps _).mp fun hk => hk.2 h), ih]
    | mark h _ ih => rw [List.filter_cons, if_neg (mt (hkeeps _).mp fun hk => hk.1 h), ih]
    | operand hcomment hmark _ ih =>
      rw [List.filter_cons, if_pos ((hkeeps _).mpr ⟨hmark, hcomment⟩), ih]
  · rintro rfl
    induction ts with
    | nil => exact .nil
    | cons t ts ih =>
      by_cases hcomment : Comment t
      · rw [List.filter_cons, if_neg (mt (hkeeps _).mp fun hk => hk.2 hcomment)]
        exact .comment hcomment ih
      · by_cases hmark : Mark t
        · rw [List.filter_cons, if_neg (mt (hkeeps _).mp fun hk => hk.1 hmark)]
          exact .mark hmark ih
        · rw [List.filter_cons, if_pos ((hkeeps _).mpr ⟨hmark, hcomment⟩)]
          exact .operand hcomment hmark ih

theorem exists_operands (ts : List Tree) : ∃ us, Operands ts us :=
  ⟨_, operands_iff.mpr rfl⟩

theorem Operands.unique {ts us vs : List Tree} (h : Operands ts us) (h' : Operands ts vs) :
    us = vs :=
  (operands_iff.mp h).symm.trans (operands_iff.mp h')

theorem Operands.sublist {ts us : List Tree} (h : Operands ts us) : us.Sublist ts :=
  operands_iff.mp h ▸ List.filter_sublist

/-- Operands are joined by a `+` if it is the first mark between them. -/
theorem joinsByPlus_iff {ts : List Tree} : joinsByPlus ts = true ↔ OperatorIs ts "+" := by
  have hmark (t : Tree) : (!t.isComment && !t.isNamed) = true ↔ Mark t := by
    rw [Bool.and_eq_true, Bool.not_eq_true', Bool.not_eq_true', ← Bool.not_eq_true, isComment_iff,
      isNamed_eq_false_iff]
    exact and_iff_right_of_imp Mark.not_comment
  have hbefore (before : List Tree) :
      (∀ t ∈ before, (!(!t.isComment && !t.isNamed)) = true) ↔ ∀ t ∈ before, ¬ Mark t := by
    simp only [Bool.not_eq_true', ← Bool.not_eq_true, hmark]
  rw [joinsByPlus]
  constructor
  · intro h
    split at h
    · next kind text firstRow lastRow hfind =>
      obtain ⟨hp, before, after, hts, hothers⟩ := List.find?_eq_some_iff_append.mp hfind
      obtain rfl : text = "+" := eq_of_beq h
      exact ⟨before, kind, firstRow, lastRow, after, hts, (hbefore before).mp hothers,
        (hmark _).mp hp⟩
    · cases h
  · rintro ⟨before, kind, firstRow, lastRow, after, hts, hothers, hp⟩
    have hfind : ts.find? (fun c => !c.isComment && !c.isNamed) =
        some (.leaf kind "+" firstRow lastRow) :=
      List.find?_eq_some_iff_append.mpr
        ⟨(hmark _).mpr hp, before, after, hts, (hbefore before).mpr hothers⟩
    rw [hfind]
    rfl

/-! ## First and last parts -/

theorem beginsWith_iff {ts : List Tree} {t : Tree} :
    BeginsWith ts t ↔ (ts.filter fun c => !c.isComment).head? = some t := by
  rw [List.head?_filter, List.find?_eq_some_iff_append, BeginsWith]
  simp only [Bool.not_not, isComment_iff, Bool.not_eq_true', ← Bool.not_eq_true]
  constructor
  · rintro ⟨comments, others, hts, hcomments, ht⟩
    exact ⟨ht, comments, others, hts, hcomments⟩
  · rintro ⟨ht, comments, others, hts, hcomments⟩
    exact ⟨comments, others, hts, hcomments, ht⟩

theorem endsWith_iff {ts : List Tree} {t : Tree} :
    EndsWith ts t ↔ (ts.filter fun c => !c.isComment).getLast? = some t := by
  have hreverse : EndsWith ts t ↔ BeginsWith ts.reverse t := by
    constructor
    · rintro ⟨others, comments, rfl, hcomments, ht⟩
      exact ⟨comments.reverse, others.reverse, by simp,
        fun c hc => hcomments c (List.mem_reverse.mp hc), ht⟩
    · rintro ⟨comments, others, hts, hcomments, ht⟩
      refine ⟨others.reverse, comments.reverse, ?_,
        fun c hc => hcomments c (List.mem_reverse.mp hc), ht⟩
      rw [← List.reverse_reverse ts, hts]
      simp
  rw [hreverse, beginsWith_iff, List.filter_reverse, List.getLast?_eq_head?_reverse]

theorem EndsWith.unique {ts : List Tree} {t u : Tree} (h : EndsWith ts t) (h' : EndsWith ts u) :
    t = u :=
  Option.some.inj ((endsWith_iff.mp h).symm.trans (endsWith_iff.mp h'))

section Parts

variable {call callee name : Tree} {children arguments : List Tree}

theorem firstPart?_eq_some_iff {kind : NodeKind} {t : Tree} :
    (Tree.node kind children).firstPart? = some t ↔ BeginsWith children t :=
  beginsWith_iff.symm

theorem lastPart?_eq_some_iff {kind : NodeKind} {t : Tree} :
    (Tree.node kind children).lastPart? = some t ↔ EndsWith children t :=
  endsWith_iff.symm

/-- The name of a member access is its last part. -/
theorem memberName?_eq_some_iff {t : Tree} :
    t.memberName? = some name ↔ ∃ children, t = .node .member children ∧ EndsWith children name := by
  rw [Tree.memberName?]
  cases t with
  | leaf => simp [Tree.isNode]
  | node kind children =>
    by_cases hkind : kind = .member
    · simp [Tree.isNode, hkind, lastPart?_eq_some_iff]
    · simp [Tree.isNode, hkind]

/-! ## Calls -/

theorem Tree.exists_children {t : Tree} {kind : NodeKind} (h : t.isNode kind = true) :
    ∃ children, t = .node kind children := by
  cases t with
  | leaf => cases h
  | node kind' children => exact ⟨children, congrArg (node · children) (of_decide_eq_true h)⟩

theorem Calls.isNode (h : Calls call callee arguments) : call.isNode .call = true := by
  cases h
  rfl

theorem Calls.firstPart?_eq (h : Calls call callee arguments) : call.firstPart? = some callee := by
  obtain ⟨hcallee, -, -⟩ := h
  exact firstPart?_eq_some_iff.mpr hcallee

/-- The arguments of a call are those that it passes. -/
theorem Calls.arguments_eq (h : Calls call callee arguments) : call.arguments = arguments := by
  obtain ⟨-, hlist, harguments⟩ := h
  rw [Tree.arguments, lastPart?_eq_some_iff.mpr hlist]
  exact (List.filter_filter ..).trans (operands_iff.mp harguments)

/-- A call calls one thing, with one list of arguments. -/
theorem Calls.unique {callee' : Tree} {arguments' : List Tree} (h : Calls call callee arguments)
    (h' : Calls call callee' arguments') : callee = callee' ∧ arguments = arguments' :=
  ⟨Option.some.inj (h.firstPart?_eq.symm.trans h'.firstPart?_eq),
    h.arguments_eq.symm.trans h'.arguments_eq⟩

/-- A call that has arguments passes them. -/
theorem exists_calls (hcall : call.isNode .call = true) (harguments : call.arguments ≠ []) :
    ∃ callee, Calls call callee call.arguments := by
  obtain ⟨children, rfl⟩ := Tree.exists_children hcall
  cases hlast : (Tree.node .call children).lastPart? with
  | none => exact absurd (by rw [Tree.arguments, hlast]) harguments
  | some list =>
    by_cases hlist : list.isNode .arguments = true
    · obtain ⟨items, rfl⟩ := Tree.exists_children hlist
      obtain ⟨callee, hfirst⟩ : ∃ callee, (Tree.node .call children).firstPart? = some callee := by
        rw [← Option.isSome_iff_exists, Tree.firstPart?, List.isSome_head?]
        rintro hnil
        rw [Tree.lastPart?, hnil] at hlast
        cases hlast
      refine ⟨callee, .intro (firstPart?_eq_some_iff.mp hfirst) (lastPart?_eq_some_iff.mp hlast) ?_⟩
      rw [Tree.arguments, hlast]
      exact operands_iff.mpr (List.filter_filter ..).symm
    · exact absurd (by rw [Tree.arguments, hlast]; exact if_neg hlist) harguments

theorem NamesMethod.unique {name' : Tree} (h : NamesMethod callee name)
    (h' : NamesMethod callee name') : name = name' := by
  cases h with
  | bare =>
    cases h'
    rfl
  | member h =>
    cases h' with
    | member h' => exact h.unique h'

/-- The method of a call is the one that is named by what it calls. -/
theorem Calls.methodName?_eq_some_iff (h : Calls call callee arguments) :
    call.methodName? = some name ↔ NamesMethod callee name := by
  rw [Tree.methodName?, h.firstPart?_eq]
  split
  · next text firstRow lastRow heq =>
    obtain rfl := Option.some.inj heq
    constructor
    · rintro ⟨⟩
      exact .bare _ _ _
    · rintro ⟨⟩
      rfl
  · next callee' hleaf heq =>
    obtain rfl := Option.some.inj heq
    rw [memberName?_eq_some_iff]
    constructor
    · rintro ⟨children, rfl, hname⟩
      exact .member hname
    · intro hname
      cases hname with
      | bare text firstRow lastRow => exact absurd rfl (hleaf text firstRow lastRow)
      | member hname => exact ⟨_, rfl, hname⟩
  · next heq => cases heq

/-- The object of a call is the one that is named by what it calls. -/
theorem Calls.objectName?_eq_some_iff {object : Text} (h : Calls call callee arguments)
    (hne : object ≠ []) : call.objectName? = some object ↔ NamesObject callee object := by
  have hleafText {t : Tree} : t.leafText = object ↔
      ∃ kind firstRow lastRow, t = .leaf kind object firstRow lastRow := by
    cases t with
    | leaf kind text firstRow lastRow => simp [Tree.leafText]
    | node => simp [Tree.leafText, hne.symm]
  rw [Tree.objectName?, h.firstPart?_eq]
  dsimp only
  split
  · next hmember =>
    obtain ⟨children, rfl⟩ := Tree.exists_children hmember
    constructor
    · intro hobject
      split at hobject
      · next text firstRow lastRow hfirst =>
        obtain rfl := Option.some.inj hobject
        exact .bare (firstPart?_eq_some_iff.mp hfirst)
      · next target _ hfirst =>
        obtain ⟨name, hmemberName, htext⟩ := Option.map_eq_some_iff.mp hobject
        obtain ⟨parts, rfl, hname⟩ := memberName?_eq_some_iff.mp hmemberName
        obtain ⟨kind, firstRow, lastRow, rfl⟩ := hleafText.mp htext
        exact .member (firstPart?_eq_some_iff.mp hfirst) hname
      · cases hobject
    · intro hobject
      cases hobject with
      | bare hfirst => rw [firstPart?_eq_some_iff.mpr hfirst]
      | member hfirst hname =>
        rw [firstPart?_eq_some_iff.mpr hfirst]
        dsimp only
        rw [memberName?_eq_some_iff.mpr ⟨_, rfl, hname⟩]
        rfl
  · next hmember =>
    refine iff_of_false nofun fun hobject => hmember ?_
    cases hobject <;> rfl

end Parts

end MessageExtraction.Script
