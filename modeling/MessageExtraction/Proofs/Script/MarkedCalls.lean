import MessageExtraction.Proofs.Catalog.Entries
import MessageExtraction.Proofs.Script.CallShapes
import MessageExtraction.Proofs.Script.Failures

/-!
# The calls that mark messages

Scanning a syntax tree goes through all its parts, each before the parts in it. Every call that
marks a message yields one candidate, a call in the arguments of another one included, and nothing
else yields any. A call marks its first argument, with the context in the third, or its second one,
with the plural form in the third. An argument has a value when it is a string literal or a `+` tree
of whatever shape with string literals as its leaves.

## Main definitions

* `Script.Tree.preorder` -- a tree and all its parts.
* `Script.Tree.Joins` -- a `+` tree of literals, and its value.
* `Script.MarksMessage`, `Script.Marks` -- a call marks a message, and gives a candidate.
* `Script.Yields` -- the candidates of parts one after the other.

## Main results

* `value?_eq_ok_some_iff` -- which arguments have which value.
* `callCandidate_eq_ok` -- the candidate of a call is the one that it marks.
* `Yields.unique` -- what parts yield is determined.
* `yields_scanTree` -- scanning a tree yields the candidates that its calls mark.
-/

namespace MessageExtraction.Script

namespace Tree

mutual

/-- A tree and all its parts, each before the parts in it. -/
def preorder : Tree → List Tree
  | leaf kind text first last => [leaf kind text first last]
  | node kind children => node kind children :: preorderAll children

/-- Trees one after the other, each with all its parts. -/
def preorderAll : List Tree → List Tree
  | [] => []
  | t :: ts => t.preorder ++ preorderAll ts

end

/-- A tree is a string literal or joins two such trees by `+`; its value is that of its literals
from left to right. -/
inductive Joins : Tree → Text → Prop
  | literal {text value : Text} (firstRow lastRow : Nat) (h : literalValue text = .ok value) :
      Joins (.leaf .string text firstRow lastRow) value
  | plus {children : List Tree} {left right : Tree} {u v : Text}
      (hplus : OperatorIs children "+") (hoperands : Operands children [left, right])
      (hleft : Joins left u) (hright : Joins right v) : Joins (.node .binary children) (u ++ v)

end Tree

/-- The argument at a position has a value; an argument that is missing or joins no literals has
none. -/
def ArgumentIs (arguments : List Tree) (i : Nat) (value : Option Text) : Prop :=
  ∀ v, value = some v ↔ ∃ t, arguments[i]? = some t ∧ t.Joins v

/-- A method of this name marks the first argument of its call. -/
def MarksFirst (markers : List Text) (callee : Tree) (method : Text) : Prop :=
  method ∈ markers ∨ NamesObject callee accessorName ∧ method = singularMethod

/-- A call of a method with arguments marks a message, with its plural form and its context. -/
inductive MarksMessage (markers : List Text) (callee : Tree) (arguments : List Tree)
    (method : Text) : (msgid : Text) → (plural context : Option Text) → Prop
  | first {msgid : Text} {context : Option Text} (hmethod : MarksFirst markers callee method)
      (hmsgid : ArgumentIs arguments 0 (some msgid)) (hcontext : ArgumentIs arguments 2 context) :
      MarksMessage markers callee arguments method msgid none context
  | second {msgid : Text} {plural : Option Text} (hfirst : ¬ MarksFirst markers callee method)
      (hmethod : NamesObject callee accessorName ∧ method = pluralMethod)
      (hmsgid : ArgumentIs arguments 1 (some msgid)) (hplural : ArgumentIs arguments 2 plural) :
      MarksMessage markers callee arguments method msgid plural none

/-- A tree is a call with arguments, and it marks a candidate. The line of the candidate is that on
which the name of the method ends. -/
def Marks (markers : List Text) (file : Text) (offset : Int) (call : Tree) (comments : List Tree)
    (c : Candidate) : Prop :=
  ∃ callee arguments name, Calls call callee arguments ∧ arguments ≠ [] ∧ NamesMethod callee name ∧
    c.text ≠ [] ∧ c.comment = some (translatorComment comments) ∧
    c.reference = ⟨file, some (offset + 1 + name.lastRow)⟩ ∧
    MarksMessage markers callee arguments name.leafText c.text c.plural c.context

/-- Parts one after the other, with the comments that belong to them, yield candidates: each part
that marks a candidate yields it, and the other parts yield none. -/
inductive Yields (markers : List Text) (file : Text) (offset : Int) :
    List (Tree × List Tree) → List Candidate → Prop
  | nil : Yields markers file offset [] []
  | marked {part : Tree × List Tree} {parts : List (Tree × List Tree)} {c : Candidate}
      {cs : List Candidate} (h : Marks markers file offset part.1 part.2 c)
      (hs : Yields markers file offset parts cs) : Yields markers file offset (part :: parts) (c :: cs)
  | unmarked {part : Tree × List Tree} {parts : List (Tree × List Tree)} {cs : List Candidate}
      (h : ∀ c, ¬ Marks markers file offset part.1 part.2 c)
      (hs : Yields markers file offset parts cs) : Yields markers file offset (part :: parts) cs

/-! ## Values of arguments -/

theorem operandValues_eq_mapM {children operands : List Tree} (h : Operands children operands) :
    operandValues children = operands.mapM Tree.value? := by
  induction h with
  | nil => rfl
  | comment hcomment _ ih =>
    rw [operandValues_cons, if_pos (by rw [isComment_iff.mpr hcomment, Bool.true_or]), ih]
  | mark hmark _ ih =>
    rw [operandValues_cons, if_pos (by rw [isNamed_eq_false_iff.mpr hmark, Bool.not_false,
      Bool.or_true]), ih]
  | operand hcomment hmark _ ih =>
    rw [← isComment_iff] at hcomment
    rw [← isNamed_eq_false_iff] at hmark
    rw [operandValues_cons, if_neg (by simp [hcomment, hmark]), ih, List.mapM_cons]

/-- The value of operands that are joined: there are two of them, and both have one. -/
theorem value?_binary_eq_ok_some_iff {children : List Tree} {w : Text} :
    (Tree.node .binary children).value? = .ok (some w) ↔
      OperatorIs children "+" ∧ ∃ left right u v, Operands children [left, right] ∧
        left.value? = .ok (some u) ∧ right.value? = .ok (some v) ∧ u ++ v = w := by
  rw [Tree.value?, ← joinsByPlus_iff]
  split
  · next hplus =>
    obtain ⟨operands, hoperands⟩ := exists_operands children
    rw [and_iff_right hplus, operandValues_eq_mapM hoperands, bind_eq_ok_iff]
    constructor
    · rintro ⟨values, hvalues, hw⟩
      split at hw
      · next u v =>
        obtain ⟨left, others, rfl, hleft, hothers⟩ := mapM_eq_ok_cons_iff.mp hvalues
        obtain ⟨right, rest, rfl, hright, hrest⟩ := mapM_eq_ok_cons_iff.mp hothers
        obtain rfl := mapM_eq_ok_nil_iff.mp hrest
        exact ⟨left, right, u, v, hoperands, hleft, hright, Option.some.inj (Except.ok.inj hw)⟩
      · cases hw
    · rintro ⟨left, right, u, v, htwo, hleft, hright, rfl⟩
      obtain rfl := hoperands.unique htwo
      refine ⟨[some u, some v], ?_, rfl⟩
      exact mapM_eq_ok_cons_iff.mpr ⟨left, _, rfl, hleft,
        mapM_eq_ok_cons_iff.mpr ⟨right, [], rfl, hright, rfl⟩⟩
  · next hplus =>
    refine iff_of_false (fun h => ?_) fun h => hplus h.1
    cases h

theorem Operands.sizeOf_lt_of_mem {children operands : List Tree} {t : Tree}
    (h : Operands children operands) (ht : t ∈ operands) :
    sizeOf t < sizeOf (Tree.node .binary children) := by
  have hlt := List.sizeOf_lt_of_mem (h.sublist.mem ht)
  simp only [Tree.node.sizeOf_spec]
  omega

/-- A tree that has a value joins literals. -/
theorem joins_of_value? {t : Tree} {v : Text} (h : t.value? = .ok (some v)) : t.Joins v := by
  -- The operands are chosen among the children, so the induction is on sizes.
  induction hsize : sizeOf t using Nat.strongRecOn generalizing t v with
  | ind n ih =>
    subst hsize
    unfold Tree.value? at h
    split at h
    · next text first last =>
      cases hvalue : literalValue text with
      | error e => rw [hvalue] at h; cases h
      | ok value =>
        rw [hvalue] at h
        cases h
        exact .literal first last hvalue
    · next children =>
      rw [← Tree.value?] at h
      obtain ⟨hplus, left, right, u, w, hoperands, hleft, hright, rfl⟩ :=
        value?_binary_eq_ok_some_iff.mp h
      exact .plus hplus hoperands
        (ih _ (hoperands.sizeOf_lt_of_mem List.mem_cons_self) hleft rfl)
        (ih _ (hoperands.sizeOf_lt_of_mem (List.mem_cons_of_mem _ List.mem_cons_self)) hright rfl)
    · cases h

/-- An argument has a value just if it joins literals, and the value is what they join to. -/
theorem value?_eq_ok_some_iff {t : Tree} {v : Text} : t.value? = .ok (some v) ↔ t.Joins v := by
  refine ⟨joins_of_value?, fun h => ?_⟩
  induction h with
  | literal first last h =>
    rw [Tree.value?, h]
    rfl
  | plus hplus hoperands _ _ hleft hright =>
    exact value?_binary_eq_ok_some_iff.mpr ⟨hplus, _, _, _, _, hoperands, hleft, hright, rfl⟩

/-- The value that is read for an argument is the one that it has. -/
theorem argumentIs_of_argumentValue? {arguments : List Tree} {i : Nat} {value : Option Text}
    (h : argumentValue? arguments i = .ok value) : ArgumentIs arguments i value := by
  intro v
  rw [argumentValue?] at h
  cases ht : arguments[i]? with
  | none =>
    rw [ht] at h
    cases h
    simp
  | some t =>
    rw [ht] at h
    simp only [Option.some.injEq, exists_eq_left', ← value?_eq_ok_some_iff]
    rw [show t.value? = .ok value from h, Except.ok.injEq]

theorem ArgumentIs.unique {arguments : List Tree} {i : Nat} {value value' : Option Text}
    (h : ArgumentIs arguments i value) (h' : ArgumentIs arguments i value') : value = value' :=
  Option.ext fun v => (h v).trans (h' v).symm

/-! ## Calls -/

section Message

variable {markers : List Text} {callee : Tree} {arguments : List Tree} {method msgid : Text}
  {plural context : Option Text}

/-- What a call marks whose first argument is marked. -/
theorem marksMessage_iff_of_first {first third : Option Text}
    (hmethod : MarksFirst markers callee method) (hfirst : ArgumentIs arguments 0 first)
    (hthird : ArgumentIs arguments 2 third) :
    MarksMessage markers callee arguments method msgid plural context ↔
      first = some msgid ∧ none = plural ∧ third = context := by
  constructor
  · intro h
    cases h with
    | first _ hmsgid hcontext => exact ⟨hfirst.unique hmsgid, rfl, hthird.unique hcontext⟩
    | second hno => exact absurd hmethod hno
  · rintro ⟨rfl, rfl, rfl⟩
    exact .first hmethod hfirst hthird

/-- What a call marks whose second argument is marked. -/
theorem marksMessage_iff_of_second {second third : Option Text}
    (hno : ¬ MarksFirst markers callee method)
    (hmethod : NamesObject callee accessorName ∧ method = pluralMethod)
    (hsecond : ArgumentIs arguments 1 second) (hthird : ArgumentIs arguments 2 third) :
    MarksMessage markers callee arguments method msgid plural context ↔
      second = some msgid ∧ third = plural ∧ none = context := by
  constructor
  · intro h
    cases h with
    | first hfirst => exact absurd hfirst hno
    | second _ _ hmsgid hplural => exact ⟨hsecond.unique hmsgid, hthird.unique hplural, rfl⟩
  · rintro ⟨rfl, rfl, rfl⟩
    exact .second hno hmethod hsecond hthird

/-- A call marks one message at most. -/
theorem MarksMessage.unique {msgid' : Text} {plural' context' : Option Text}
    (h : MarksMessage markers callee arguments method msgid plural context)
    (h' : MarksMessage markers callee arguments method msgid' plural' context') :
    msgid = msgid' ∧ plural = plural' ∧ context = context' := by
  cases h with
  | first hmethod hmsgid hcontext =>
    exact ((marksMessage_iff_of_first hmethod hmsgid hcontext).mp h').imp_left Option.some.inj
  | second hno hmethod hmsgid hplural =>
    exact ((marksMessage_iff_of_second hno hmethod hmsgid hplural).mp h').imp_left Option.some.inj

/-- The message that is read off a call of a method is the one that the call marks. -/
theorem marksMessage_iff_of_markedMessage {ofAccessor : Bool} {message : MarkedMessage}
    (haccessor : ofAccessor = true ↔ NamesObject callee accessorName)
    (h : markedMessage markers method ofAccessor arguments = .ok message) :
    MarksMessage markers callee arguments method msgid plural context ↔
      message.msgid = some msgid ∧ message.plural = plural ∧ message.context = context := by
  have hfirst : (markers.contains method || (ofAccessor && decide (method = singularMethod))) = true ↔
      MarksFirst markers callee method := by
    simp [MarksFirst, haccessor]
  have hsecond : (ofAccessor && decide (method = pluralMethod)) = true ↔
      NamesObject callee accessorName ∧ method = pluralMethod := by
    simp [haccessor]
  rw [markedMessage] at h
  split at h
  · next hmethod =>
    obtain ⟨first, hmsgid, h⟩ := bind_eq_ok_iff.mp h
    obtain ⟨third, hcontext, h⟩ := bind_eq_ok_iff.mp h
    cases h
    exact marksMessage_iff_of_first (hfirst.mp hmethod) (argumentIs_of_argumentValue? hmsgid)
      (argumentIs_of_argumentValue? hcontext)
  · next hno =>
    rw [hfirst] at hno
    split at h
    · next hmethod =>
      obtain ⟨second, hmsgid, h⟩ := bind_eq_ok_iff.mp h
      obtain ⟨third, hplural, h⟩ := bind_eq_ok_iff.mp h
      cases h
      exact marksMessage_iff_of_second hno (hsecond.mp hmethod) (argumentIs_of_argumentValue? hmsgid)
        (argumentIs_of_argumentValue? hplural)
    · next hother =>
      rw [hsecond] at hother
      cases h
      constructor
      · intro h
        cases h with
        | first hmethod => exact absurd hmethod hno
        | second _ hmethod => exact absurd hmethod hother
      · rintro ⟨h, -⟩
        cases h

end Message

section Candidate

variable {markers : List Text} {file : Text} {offset : Int} {call callee : Tree}
  {arguments comments : List Tree} {c d : Candidate}

/-- What a call marks, given what it calls and its arguments. -/
theorem marks_iff_of_calls (hcalls : Calls call callee arguments) :
    Marks markers file offset call comments c ↔
      arguments ≠ [] ∧ ∃ name, NamesMethod callee name ∧ c.text ≠ [] ∧
        c.comment = some (translatorComment comments) ∧
        c.reference = ⟨file, some (offset + 1 + name.lastRow)⟩ ∧
        MarksMessage markers callee arguments name.leafText c.text c.plural c.context := by
  constructor
  · rintro ⟨callee', arguments', name, hcalls', hne, h⟩
    obtain ⟨rfl, rfl⟩ := hcalls.unique hcalls'
    exact ⟨hne, name, h⟩
  · rintro ⟨hne, name, h⟩
    exact ⟨callee, arguments, name, hcalls, hne, h⟩

/-- What a call marks, given the message that it marks. -/
theorem marks_iff_of_message {name : Tree} {message : MarkedMessage}
    (hcalls : Calls call callee arguments) (hne : arguments ≠ []) (hname : NamesMethod callee name)
    (hmessage : ∀ {msgid plural context},
      MarksMessage markers callee arguments name.leafText msgid plural context ↔
        message.msgid = some msgid ∧ message.plural = plural ∧ message.context = context) :
    Marks markers file offset call comments c ↔
      ∃ msgid, nonEmpty? message.msgid = some msgid ∧
        c = ⟨⟨file, some (offset + 1 + name.lastRow)⟩, msgid, message.plural,
          some (translatorComment comments), message.context⟩ := by
  rw [marks_iff_of_calls hcalls, and_iff_right hne]
  constructor
  · rintro ⟨name', hname', htext, hcomment, hreference, hmarks⟩
    obtain rfl := hname.unique hname'
    obtain ⟨hmsgid, hplural, hcontext⟩ := hmessage.mp hmarks
    refine ⟨c.text, nonEmpty?_eq_some.mpr ⟨hmsgid, htext⟩, ?_⟩
    rw [hplural, hcontext, ← hcomment, ← hreference]
  · rintro ⟨msgid, hsome, rfl⟩
    obtain ⟨hmsgid, htext⟩ := nonEmpty?_eq_some.mp hsome
    exact ⟨name, hname, htext, rfl, rfl, hmessage.mpr ⟨hmsgid, rfl, rfl⟩⟩

/-- What a call yields that can be read is the candidate that it marks. -/
theorem callCandidate_eq_ok {found : Option Candidate} (hcall : call.isNode .call = true)
    (h : callCandidate markers file offset call comments = .ok found) :
    found = some c ↔ Marks markers file offset call comments c := by
  by_cases hne : call.arguments = []
  · have hnone : found = none := by
      rw [callCandidate, hne] at h
      split at h <;> exact (Except.ok.inj h).symm
    refine iff_of_false (by simp [hnone]) ?_
    rintro ⟨callee, arguments, name, hcalls, harguments, -⟩
    exact harguments (hcalls.arguments_eq ▸ hne)
  · obtain ⟨callee, hcalls⟩ := exists_calls hcall hne
    rw [callCandidate] at h
    split at h
    · next hnone =>
      cases h
      refine iff_of_false (by simp) fun hmarks => ?_
      obtain ⟨-, name, hname, -⟩ := (marks_iff_of_calls hcalls).mp hmarks
      rw [← hcalls.methodName?_eq_some_iff, hnone] at hname
      cases hname
    · next name hname =>
      rw [if_neg (mt List.isEmpty_iff.mp hne)] at h
      obtain ⟨message, hmessage, h⟩ := bind_eq_ok_iff.mp h
      have haccessor : decide (call.objectName? = some accessorName) = true ↔
          NamesObject callee accessorName := by
        rw [decide_eq_true_eq, hcalls.objectName?_eq_some_iff (by decide)]
      have hline : (name.lastRow : Int) + 1 + offset = offset + 1 + name.lastRow := by omega
      rw [marks_iff_of_message hcalls hne (hcalls.methodName?_eq_some_iff.mp hname)
        (marksMessage_iff_of_markedMessage haccessor hmessage)]
      rw [hline] at h
      split at h
      · next hnone =>
        cases h
        simp [hnone]
      · next msgid hsome =>
        cases h
        simp [hsome, eq_comm]

/-- A call marks one candidate at most. -/
theorem Marks.unique (hc : Marks markers file offset call comments c)
    (hd : Marks markers file offset call comments d) : c = d := by
  obtain ⟨callee, arguments, name, hcalls, -, hname, -, hcomment, hreference, hmessage⟩ := hc
  obtain ⟨-, name', hname', -, hcomment', hreference', hmessage'⟩ :=
    (marks_iff_of_calls hcalls).mp hd
  obtain rfl := hname.unique hname'
  obtain ⟨htext, hplural, hcontext⟩ := hmessage.unique hmessage'
  cases c
  cases d
  simp only at *
  rw [hcomment, hcomment', hreference, hreference', htext, hplural, hcontext]

end Candidate

/-! ## Trees -/

mutual

/-- The walk through a tree goes through all its parts, each before the parts in it. -/
theorem map_fst_walk : (t : Tree) → (comments : List Tree) →
    (t.walk comments).map Prod.fst = t.preorder
  | .leaf _ _ _ _, _ => rfl
  | .node _ children, comments =>
    congrArg (_ :: ·) (map_fst_walkParts children comments [])

theorem map_fst_walkParts : (ts inherited before : List Tree) →
    (walkParts inherited before ts).map Prod.fst = Tree.preorderAll ts
  | [], _, _ => rfl
  | t :: ts, inherited, before => by
    rw [walkParts, List.map_append, map_fst_walk t, map_fst_walkParts ts, Tree.preorderAll]

end

variable {markers : List Text} {file : Text} {offset : Int}

/-- A part that can be read yields the candidate that it marks, if it marks one. -/
theorem partEvents_cases {part : Tree × List Tree}
    (hreadable : part.1.isNode .call = true → ¬ FaultyCall markers part.1) :
    (∃ c, Marks markers file offset part.1 part.2 c ∧
        partEvents markers file offset part = [.candidate c]) ∨
      (∀ c, ¬ Marks markers file offset part.1 part.2 c) ∧
        partEvents markers file offset part = [] := by
  rw [partEvents]
  by_cases hcall : part.1.isNode .call = true
  · have hreads : ¬ Fails (callCandidate markers file offset part.1 part.2) := fun hfails =>
      hreadable hcall (fails_callCandidate_iff.mp hfails)
    obtain ⟨found, hfound⟩ := exists_eq_ok_of_not_fails hreads
    rw [if_pos hcall, hfound]
    cases found with
    | none =>
      refine .inr ⟨fun c hc => ?_, rfl⟩
      cases (callCandidate_eq_ok hcall hfound).mpr hc
    | some c => exact .inl ⟨c, (callCandidate_eq_ok hcall hfound).mp rfl, rfl⟩
  · rw [if_neg hcall]
    refine .inr ⟨fun c hc => ?_, rfl⟩
    obtain ⟨callee, arguments, name, hcalls, -⟩ := hc
    exact hcall hcalls.isNode

theorem yields_flatMap_partEvents {parts : List (Tree × List Tree)}
    (hreadable : ∀ part ∈ parts, part.1.isNode .call = true → ¬ FaultyCall markers part.1) :
    ∃ cs, Yields markers file offset parts cs ∧
      parts.flatMap (partEvents markers file offset) = cs.map .candidate := by
  induction parts with
  | nil => exact ⟨[], .nil, rfl⟩
  | cons part parts ih =>
    obtain ⟨hpart, hparts⟩ := List.forall_mem_cons.mp hreadable
    obtain ⟨cs, hcs, hevents⟩ := ih hparts
    rw [List.flatMap_cons, hevents]
    rcases partEvents_cases hpart with ⟨c, hc, hpart⟩ | ⟨hno, hpart⟩
    · exact ⟨c :: cs, .marked hc hcs, by rw [hpart]; rfl⟩
    · exact ⟨cs, .unmarked hno hcs, by rw [hpart]; rfl⟩

/-- Parts yield one row of candidates. -/
theorem Yields.unique {parts : List (Tree × List Tree)} {cs ds : List Candidate}
    (h : Yields markers file offset parts cs) (h' : Yields markers file offset parts ds) :
    cs = ds := by
  induction h generalizing ds with
  | nil =>
    cases h'
    rfl
  | marked hc _ ih =>
    cases h' with
    | marked hd hs => rw [hc.unique hd, ih hs]
    | unmarked hno => exact absurd hc (hno _)
  | unmarked hno _ ih =>
    cases h' with
    | marked hd => exact absurd hd (hno _)
    | unmarked _ hs => exact ih hs

/-- Scanning a syntax tree goes through all its parts, each before the parts in it, and yields the
candidates that its calls mark, one for each call that marks one, and nothing else. No call may read
an argument with an escape beyond the last code point. -/
theorem yields_scanTree {tree : Tree}
    (hreadable : ∀ call ∈ tree.preorder, call.isNode .call = true → ¬ FaultyCall markers call) :
    (tree.walk []).map Prod.fst = tree.preorder ∧
      (∃ cs, Yields markers file offset (tree.walk []) cs) ∧
      ∀ cs, Yields markers file offset (tree.walk []) cs ↔
        scanTree markers file offset tree = cs.map .candidate := by
  have horder := map_fst_walk tree []
  obtain ⟨cs, hcs, hevents⟩ := yields_flatMap_partEvents fun part hpart => hreadable part.1 (horder ▸ List.mem_map_of_mem hpart)
  refine ⟨horder, ⟨cs, hcs⟩, fun ds => ⟨fun hds => ?_, fun hds => ?_⟩⟩
  · rw [← hcs.unique hds]
    exact hevents
  · have hmap : cs.map ScanEvent.candidate = ds.map ScanEvent.candidate := hevents.symm.trans hds
    rwa [← List.map_injective_iff.mpr (fun c d => ScanEvent.candidate.inj) hmap]

/-- The call `gettext('c', x, 'd')`, on the third line. -/
def innerCall : Tree :=
  .node .call [.leaf .identifier "gettext" 2 2,
    .node .arguments [.leaf .punctuation "(" 2 2, .leaf .string "'c'" 2 2,
      .leaf .punctuation "," 2 2, .leaf .identifier "x" 2 2, .leaf .punctuation "," 2 2,
      .leaf .string "'d'" 2 2, .leaf .punctuation ")" 2 2]]

/-- The call `vm.gettextCatalog.getPlural(n, 'a' + 'b', 'abs', gettext('c', x, 'd'))` below a comment
for translators, its last argument on a line of its own. -/
def commentedCall : Tree :=
  .node .program [.leaf .comment "/// note" 0 0,
    .node .statement [.node .call [
      .node .member [
        .node .member [.leaf .identifier "vm" 1 1, .leaf .punctuation "." 1 1,
          .leaf .property "gettextCatalog" 1 1],
        .leaf .punctuation "." 1 1, .leaf .property "getPlural" 1 1],
      .node .arguments [.leaf .punctuation "(" 1 1, .leaf .identifier "n" 1 1,
        .leaf .punctuation "," 1 1,
        .node .binary [.leaf .string "'a'" 1 1, .leaf .punctuation "+" 1 1,
          .leaf .string "'b'" 1 1],
        .leaf .punctuation "," 1 1, .leaf .string "'abs'" 1 1, .leaf .punctuation "," 1 1, innerCall,
        .leaf .punctuation ")" 2 2]]]]

/-- A call and another one in its arguments yield one candidate each. -/
theorem yields_scanTree_commentedCall :
    (∀ call ∈ commentedCall.preorder,
      call.isNode .call = true → ¬ FaultyCall ["gettext"] call) ∧
      Yields ["gettext"] "a.js" 4 (commentedCall.walk []) [
        ⟨⟨"a.js", some 6⟩, "ab", some "abs", some "note", none⟩,
        ⟨⟨"a.js", some 7⟩, "c", none, some "note", some "d"⟩] := by
  have hreadable : ∀ call ∈ commentedCall.preorder, call.isNode .call = true →
      ¬ FaultyCall ["gettext"] call := by
    have hreads : commentedCall.preorder.all fun call =>
        !call.isNode .call || (callCandidate ["gettext"] [] 0 call []).toBool := by
      decide +kernel
    intro call hmem hcall hfaulty
    have hread := List.all_eq_true.mp hreads call hmem
    obtain ⟨e, he⟩ := fails_callCandidate_iff.mpr hfaulty
    rw [hcall, he] at hread
    cases hread
  exact ⟨hreadable, ((yields_scanTree hreadable).2.2 _).mpr (by decide +kernel)⟩

end MessageExtraction.Script
