import MessageExtraction.Proofs.Script.Escapes
import MessageExtraction.Script.Calls

/-!
# Scripts that cannot be scanned

A call marks a message by the values of two of its arguments, and an argument has no value just if
a literal in it has none. So a script cannot be scanned just if one of its calls reads an argument
with an escape beyond the last code point.

## Main definitions

* `Script.Tree.Faulty` -- an argument with such a literal.
* `Script.FaultyCall` -- a call that reads such an argument.
* `Script.FaultyScript` -- a script with such a call.

## Main results

* `fails_value?_iff` -- which arguments have no value.
* `failure_mem_scan_iff` -- which scripts cannot be scanned.
-/

namespace MessageExtraction.Script

/-- A tree is an operand of the construct that it is part of. -/
def Tree.IsOperand (t : Tree) : Prop :=
  t.isNamed = true ∧ t.isComment = false

/-- An argument is a literal with an escape beyond the last code point, or it joins operands one of
which is faulty. -/
inductive Tree.Faulty : Tree → Prop
  | literal {text : Text} (firstRow lastRow : Nat) (h : FaultyLiteral text) :
      Faulty (.leaf .string text firstRow lastRow)
  | operand {children : List Tree} {t : Tree} (hplus : joinsByPlus children = true)
      (hmem : t ∈ children) (hoperand : t.IsOperand) (h : Faulty t) :
      Faulty (.node .binary children)

/-- The positions of the arguments whose values a call of a method reads, given whether the method
is one of the accessor. -/
def readPositions (markers : List Text) (method : Text) (ofAccessor : Bool) : List Nat :=
  if markers.contains method || (ofAccessor && method = singularMethod) then [0, 2]
  else if ofAccessor && method = pluralMethod then [1, 2]
  else []

/-- A call reads a faulty argument. -/
def FaultyCall (markers : List Text) (call : Tree) : Prop :=
  ∃ name, call.methodName? = some name ∧
    ∃ i ∈ readPositions markers name.leafText (call.objectName? = some accessorName),
      ∃ t, call.arguments[i]? = some t ∧ t.Faulty

/-- A source is read as a script with a call that reads a faulty argument. -/
def FaultyScript (markers : List Text) (source : Text) : Prop :=
  source.any CodePoint.isSurrogate = false ∧
    ∃ part ∈ (parse source).walk [], part.1.isNode .call = true ∧ FaultyCall markers part.1

/-! ## Arguments -/

theorem operandValues_cons (t : Tree) (ts : List Tree) :
    operandValues (t :: ts) =
      if t.isComment || !t.isNamed then operandValues ts
      else do
        let value ← t.value?
        return value :: (← operandValues ts) := by
  rw [operandValues]

/-- Operands that are joined have a value together just if each of them can be read. -/
theorem fails_value?_binary_iff {children : List Tree} :
    Fails (Tree.node .binary children).value? ↔
      joinsByPlus children = true ∧ Fails (operandValues children) := by
  rw [Tree.value?]
  split
  · next hplus =>
    refine (fails_bind_iff_or fun values => iff_of_false ?_ not_false).trans ?_
    · split <;> exact not_fails_ok _
    · rw [or_false, and_iff_right hplus]
  · next hplus => exact iff_of_false (not_fails_ok _) fun h => hplus h.1

mutual

/-- An argument has no value just if it is faulty. -/
theorem fails_value?_iff : (t : Tree) → (Fails t.value? ↔ t.Faulty)
  | .leaf kind text first last => by
    unfold Tree.value?
    split
    · next h =>
      cases h
      rw [fails_map_iff, fails_literalValue_iff]
      exact ⟨.literal first last, fun h => by cases h; assumption⟩
    · next h => cases h
    · next hleaf hnode =>
      refine iff_of_false (not_fails_ok _) fun h => ?_
      cases h
      exact hleaf text first last rfl
  | .node kind children => by
    unfold Tree.value?
    split
    · next h => cases h
    · next h =>
      cases h
      rw [← Tree.value?, fails_value?_binary_iff, fails_operandValues_iff children]
      constructor
      · exact fun ⟨hplus, t, hmem, hoperand, h⟩ => .operand hplus hmem hoperand h
      · intro h
        cases h with
        | operand hplus hmem hoperand h => exact ⟨hplus, _, hmem, hoperand, h⟩
    · next hleaf hnode =>
      refine iff_of_false (not_fails_ok _) fun h => ?_
      cases h
      exact hnode children rfl

/-- Operands have values unless one of them is faulty. -/
theorem fails_operandValues_iff :
    (ts : List Tree) → (Fails (operandValues ts) ↔ ∃ t ∈ ts, t.IsOperand ∧ t.Faulty)
  | [] => iff_of_false (not_fails_ok _) fun ⟨t, ht, _⟩ => List.not_mem_nil ht
  | t :: ts => by
    rw [operandValues_cons, List.exists_mem_cons_iff, ← fails_operandValues_iff ts,
      ← fails_value?_iff t]
    split
    · next hskip =>
      refine (or_iff_right fun h => ?_).symm
      rw [h.1.1, h.1.2] at hskip
      cases hskip
    · next hoperand =>
      have hoperand : t.IsOperand := by
        rwa [Bool.not_eq_true, Bool.or_eq_false_iff, Bool.not_eq_false', and_comm] at hoperand
      rw [and_iff_right hoperand]
      refine fails_bind_iff_or fun value => ?_
      rw [fails_bind_iff_or fun values => iff_of_false (not_fails_pure (value :: values)) not_false,
        or_false]

end

/-! ## Calls -/

theorem fails_argumentValue?_iff {arguments : List Tree} {i : Nat} :
    Fails (argumentValue? arguments i) ↔ ∃ t, arguments[i]? = some t ∧ t.Faulty := by
  rw [argumentValue?]
  cases arguments[i]? with
  | none => exact iff_of_false (not_fails_ok _) fun ⟨t, ht, _⟩ => Option.some_ne_none t ht.symm
  | some t =>
    refine (fails_value?_iff t).trans ⟨fun h => ⟨t, rfl, h⟩, fun ⟨u, hu, h⟩ => ?_⟩
    exact Option.some.inj hu ▸ h

theorem fails_markedMessage_iff {markers : List Text} {method : Text} {ofAccessor : Bool}
    {arguments : List Tree} :
    Fails (markedMessage markers method ofAccessor arguments) ↔
      ∃ i ∈ readPositions markers method ofAccessor, ∃ t, arguments[i]? = some t ∧ t.Faulty := by
  have htwo (i j : Nat) (f : Option Text → Option Text → MarkedMessage) :
      Fails (do
        let first ← argumentValue? arguments i
        let second ← argumentValue? arguments j
        return f first second) ↔
      ∃ k ∈ [i, j], ∃ t, arguments[k]? = some t ∧ t.Faulty := by
    simp only [← fails_argumentValue?_iff, List.exists_mem_cons_iff, List.not_mem_nil, false_and,
      exists_false, or_false]
    refine fails_bind_iff_or fun first => ?_
    rw [fails_bind_iff_or fun second => iff_of_false (not_fails_pure (f first second)) not_false,
      or_false]
  rw [markedMessage, readPositions]
  split
  · exact htwo 0 2 fun msgid context => { msgid, context }
  · split
    · exact htwo 1 2 fun msgid plural => { msgid, plural }
    · exact iff_of_false (not_fails_ok _) fun ⟨i, hi, _⟩ => List.not_mem_nil hi

theorem fails_callCandidate_iff {markers : List Text} {file : Text} {offset : Int} {call : Tree}
    {comments : List Tree} :
    Fails (callCandidate markers file offset call comments) ↔ FaultyCall markers call := by
  rw [callCandidate, FaultyCall]
  cases call.methodName? with
  | none => exact iff_of_false (not_fails_ok _) fun ⟨name, hname, _⟩ => by cases hname
  | some name =>
    simp only [Option.some.injEq, exists_eq_left', ← fails_markedMessage_iff]
    split
    · next hempty =>
      refine iff_of_false (not_fails_ok _) fun h => ?_
      obtain ⟨i, -, t, ht, -⟩ := fails_markedMessage_iff.mp h
      rw [List.isEmpty_iff.mp hempty] at ht
      cases ht
    · refine (fails_bind_iff_or fun message => iff_of_false ?_ not_false).trans (or_false _).to_iff
      split <;> exact not_fails_pure _

theorem failure_mem_partEvents_iff {markers : List Text} {file : Text} {offset : Int}
    {part : Tree × List Tree} :
    (∃ f, .failure f ∈ partEvents markers file offset part) ↔
      part.1.isNode .call = true ∧ FaultyCall markers part.1 := by
  rw [partEvents, ← @fails_callCandidate_iff markers file offset part.1 part.2]
  split
  · next hcall =>
    rw [and_iff_right hcall]
    split
    · next c hc => rw [hc]; exact iff_of_false (by simp) (not_fails_ok _)
    · next hc => rw [hc]; exact iff_of_false (by simp) (not_fails_ok _)
    · next e he => rw [he]; exact iff_of_true ⟨e, List.mem_cons_self⟩ (fails_error e)
  · next hcall => exact iff_of_false (by simp) fun h => hcall h.1

/-- A script cannot be scanned just if one of its calls reads a faulty argument. -/
theorem failure_mem_scan_iff {markers : List Text} {file : Text} {offset : Int} {source : Text} :
    (∃ f, .failure f ∈ scan markers file offset source) ↔ FaultyScript markers source := by
  rw [scan, FaultyScript]
  split
  · next hsurrogate =>
    refine iff_of_false (by simp) fun h => ?_
    rw [h.1] at hsurrogate
    cases hsurrogate
  · next hsurrogate =>
    rw [Bool.not_eq_true] at hsurrogate
    rw [and_iff_right hsurrogate, scanTree]
    constructor
    · rintro ⟨f, hf⟩
      obtain ⟨part, hpart, hf⟩ := List.mem_flatMap.mp hf
      exact ⟨part, hpart, failure_mem_partEvents_iff.mp ⟨f, hf⟩⟩
    · rintro ⟨part, hpart, hcall⟩
      obtain ⟨f, hf⟩ := failure_mem_partEvents_iff.mpr hcall
      exact ⟨f, List.mem_flatMap.mpr ⟨part, hpart, hf⟩⟩

end MessageExtraction.Script
