import MessageExtraction.Expression.Filters
import MessageExtraction.Proofs.Expression.Acceptance

/-!
# Where messages are looked for

Every expression stands at a place of the expression around it. The filter
`translate` gives a finding when all the places from a statement down to it are
searched: what filters and calls are applied to, the values of properties and
the two outcomes of a conditional. An element, an operand, a test, a callee, a
key or a side of an assignment hides whatever is below it.

## Main definitions

* `Place`, `Expr.parts` -- the places in an expression, and what stands there.
* `Stands` -- an expression stands in another one, below the places of a path.

## Main statements

* `mem_findings_iff` -- the findings of an expression are its own one and those of its searched parts.
* `mem_findings_iff_stands` -- a finding stands below searched places, at any depth.
* `mem_messagesIn_iff` -- the messages of a text are the translated literals below searched places.
-/

namespace MessageExtraction.Expression

/-- The places at which an expression stands in the expression around it. -/
inductive Place
  | element | propertyKey | propertyValue | memberObject | indexedObject | indexKey
  | callee | argument | filtered | filterArgument | unaryOperand | leftOperand | rightOperand
  | test | consequent | alternate | assigned | assignedValue
deriving DecidableEq

/-- Whether messages are looked for at a place. -/
def Place.isSearched : Place → Bool
  | propertyValue | argument | filtered | filterArgument | consequent | alternate => true
  | _ => false

/-- The expressions in a property, with their places. -/
def Property.parts : Property Expr → List (Place × Expr)
  | ⟨.computed key, value⟩ => [(.propertyKey, key), (.propertyValue, value)]
  | ⟨_, value⟩ => [(.propertyValue, value)]

/-- The expressions directly in an expression, with their places. -/
def Expr.parts : Expr → List (Place × Expr)
  | .string _ | .number _ | .constant _ | .name _ => []
  | .array elements => elements.map (.element, ·)
  | .object properties => properties.flatMap Property.parts
  | .member left _ => [(.memberObject, left)]
  | .index left key => [(.indexedObject, left), (.indexKey, key)]
  | .call callee arguments => (.callee, callee) :: arguments.map (.argument, ·)
  | .filter _ input arguments => (.filtered, input) :: arguments.map (.filterArgument, ·)
  | .unary _ argument => [(.unaryOperand, argument)]
  | .binary _ left right => [(.leftOperand, left), (.rightOperand, right)]
  | .conditional test consequent alternate =>
    [(.test, test), (.consequent, consequent), (.alternate, alternate)]
  | .assignment left right => [(.assigned, left), (.assignedValue, right)]

/-- The second expression stands in the first, below the places of the path. -/
inductive Stands : Expr → List Place → Expr → Prop
  | here {e : Expr} : Stands e [] e
  | inside {e part inner : Expr} {place : Place} {path : List Place}
      (hpart : (place, part) ∈ e.parts) (h : Stands part path inner) :
      Stands e (place :: path) inner

variable {e : Expr} {path : List Place} {finding : Finding} {m : Text}

theorem mem_listFindings_iff {es : List Expr} :
    finding ∈ listFindings es ↔ ∃ e ∈ es, finding ∈ e.findings := by
  induction es with
  | nil => simp [listFindings]
  | cons e es ih => simp [listFindings, ih]

/-- Of a property only the value is searched. -/
theorem Property.mem_findings_value_iff (p : Property Expr) :
    finding ∈ p.value.findings ↔
      ∃ q ∈ p.parts, q.1.isSearched ∧ finding ∈ q.2.findings := by
  obtain ⟨key, value⟩ := p
  cases key with
  | _ => simp [Property.parts, Place.isSearched]

theorem mem_propertyFindings_iff {ps : List (Property Expr)} :
    finding ∈ propertyFindings ps ↔
      ∃ q ∈ ps.flatMap Property.parts, q.1.isSearched ∧ finding ∈ q.2.findings := by
  induction ps with
  | nil => simp [propertyFindings]
  | cons p ps ih =>
    simp only [propertyFindings, List.mem_append, ih, p.mem_findings_value_iff, List.flatMap_cons,
      or_and_right, exists_or]

/-- The findings of an expression are the one that it gives itself, when it is the filter
`translate`, and those of its parts at searched places. -/
theorem mem_findings_iff :
    finding ∈ e.findings ↔
      (∃ input others, e = .filter translateFilter input others ∧ finding = input.asFinding) ∨
        ∃ q ∈ e.parts, q.1.isSearched ∧ finding ∈ q.2.findings := by
  cases e with
  | filter name input others =>
    simp only [Expr.findings, Expr.parts, List.mem_append, mem_listFindings_iff]
    by_cases hname : name = translateFilter
    · simp [hname, Place.isSearched, or_assoc]
    · simp [hname, Place.isSearched]
  | object properties => simp [Expr.findings, Expr.parts, mem_propertyFindings_iff]
  | _ => simp [Expr.findings, Expr.parts, mem_listFindings_iff, Place.isSearched]

theorem sizeOf_lt_of_mem_map {es : List Expr} {place : Place} {q : Place × Expr}
    (h : q ∈ es.map (place, ·)) : sizeOf q.2 < sizeOf es := by
  obtain ⟨part, hpart, rfl⟩ := List.mem_map.mp h
  exact List.sizeOf_lt_of_mem hpart

theorem Property.sizeOf_lt_of_mem_parts {p : Property Expr} {q : Place × Expr}
    (h : q ∈ p.parts) : sizeOf q.2 < sizeOf p := by
  obtain ⟨key, value⟩ := p
  cases key with
  | computed key =>
    simp only [parts, List.mem_cons, List.not_mem_nil, or_false] at h
    rcases h with rfl | rfl
    · simp only [Property.mk.sizeOf_spec, PropertyKey.computed.sizeOf_spec]
      omega
    · simp only [Property.mk.sizeOf_spec]
      omega
  | _ =>
    simp only [parts, List.mem_cons, List.not_mem_nil, or_false] at h
    subst h
    simp only [Property.mk.sizeOf_spec]
    omega

/-- What stands directly in an expression is smaller. -/
theorem sizeOf_lt_of_mem_parts {q : Place × Expr} (h : q ∈ e.parts) : sizeOf q.2 < sizeOf e := by
  cases e with
  | array es =>
    have hlt := sizeOf_lt_of_mem_map h
    simp only [Expr.array.sizeOf_spec]
    omega
  | object ps =>
    obtain ⟨p, hp, hq⟩ := List.mem_flatMap.mp h
    have hlt := Property.sizeOf_lt_of_mem_parts hq
    have hmem := List.sizeOf_lt_of_mem hp
    simp only [Expr.object.sizeOf_spec]
    omega
  | call callee es =>
    simp only [Expr.call.sizeOf_spec]
    rcases List.mem_cons.mp h with rfl | h
    · simp only
      omega
    · have hlt := sizeOf_lt_of_mem_map h
      omega
  | filter name input es =>
    simp only [Expr.filter.sizeOf_spec]
    rcases List.mem_cons.mp h with rfl | h
    · simp only
      omega
    · have hlt := sizeOf_lt_of_mem_map h
      omega
  | string _ | number _ | constant _ | name _ => cases h
  | _ =>
    simp only [Expr.parts, List.mem_cons, List.not_mem_nil, or_false] at h
    rcases h with rfl | rfl | rfl <;> simp <;> omega

/-- A finding of an expression is what the filter `translate` gives somewhere in it, at any depth,
below searched places only. -/
theorem mem_findings_iff_stands :
    finding ∈ e.findings ↔
      ∃ path input others, Stands e path (.filter translateFilter input others) ∧
        (∀ place ∈ path, place.isSearched) ∧ finding = input.asFinding := by
  constructor
  · intro h
    -- The parts of an expression are smaller, whichever of its lists they are taken from.
    induction hsize : sizeOf e using Nat.strongRecOn generalizing e with
    | ind n ih =>
      rcases mem_findings_iff.mp h with ⟨input, others, rfl, hfinding⟩ | ⟨q, hq, hsearched, hin⟩
      · exact ⟨[], input, others, .here, by simp, hfinding⟩
      · obtain ⟨path, input, others, hstands, hpath, hfinding⟩ :=
          ih _ (hsize ▸ sizeOf_lt_of_mem_parts hq) hin rfl
        exact ⟨q.1 :: path, input, others, .inside hq hstands,
          List.forall_mem_cons.mpr ⟨hsearched, hpath⟩, hfinding⟩
  · rintro ⟨path, input, others, hstands, hpath, hfinding⟩
    generalize hinner : Expr.filter translateFilter input others = inner at hstands
    induction hstands with
    | here => exact mem_findings_iff.mpr (.inl ⟨input, others, hinner.symm, hfinding⟩)
    | inside hpart _ ih =>
      obtain ⟨hsearched, hpath⟩ := List.forall_mem_cons.mp hpath
      exact mem_findings_iff.mpr (.inr ⟨_, hpart, hsearched, ih hpath hinner⟩)

theorem Expr.asFinding_eq_message_iff : e.asFinding = .message m ↔ e = .string m := by
  cases e <;> simp [Expr.asFinding]

theorem Finding.message?_eq_some_iff : finding.message? = some m ↔ finding = .message m := by
  cases finding <;> simp [Finding.message?]

theorem message_mem_findings_iff :
    .message m ∈ e.findings ↔
      ∃ path others, Stands e path (.filter translateFilter (.string m) others) ∧
        ∀ place ∈ path, place.isSearched := by
  simp only [mem_findings_iff_stands, eq_comm (a := Finding.message m),
    Expr.asFinding_eq_message_iff]
  grind

/-- The messages of a text are the string literals to which the filter `translate` is applied
somewhere in its statements, below searched places only. So a translated literal is lost exactly
when every one of its occurrences is below an element, an operand, a test, a callee, a key, the
object of a member access or a side of an assignment. A text that is no program has no messages. -/
theorem mem_messagesIn_iff {source : Text} :
    m ∈ messagesIn source ↔
      ∃ body, parse (restoreQuotes source) = .ok body ∧ ∃ statement ∈ body, ∃ path others,
        Stands statement path (.filter translateFilter (.string m) others) ∧
          ∀ place ∈ path, place.isSearched := by
  simp only [messagesIn, findingsIn, List.mem_filterMap, Finding.message?_eq_some_iff,
    exists_eq_right]
  cases parse (restoreQuotes source) with
  | error _ => simp
  | ok body => simp [mem_listFindings_iff, message_mem_findings_iff]

/-- The text `[('x' | translate)]`. -/
def translatedElement : Text :=
  ['[', '(', '\x27', 'x', '\x27', ' ', '|', ' ', 't', 'r', 'a', 'n', 's', 'l', 'a', 't', 'e', ')',
    ']'].map CodePoint.ofChar

/-- The tokens of `[('x' | translate)]`. -/
def translatedElementTokens : List Token :=
  [⟨.symbol .openBracket, Symbol.openBracket.text, 0⟩,
    ⟨.symbol .openParen, Symbol.openParen.text, 1⟩,
    ⟨.string (['x'].map CodePoint.ofChar), ['\x27', 'x', '\x27'].map CodePoint.ofChar, 2⟩,
    ⟨.symbol .pipe, Symbol.pipe.text, 6⟩, ⟨.name, translateFilter, 8⟩,
    ⟨.symbol .closeParen, Symbol.closeParen.text, 17⟩,
    ⟨.symbol .closeBracket, Symbol.closeBracket.text, 18⟩]

set_option maxRecDepth 4096 in
/-- The translated literal in `[('x' | translate)]` is no message of the text. -/
theorem messagesIn_translatedElement :
    (∃ body, parse (restoreQuotes translatedElement) = .ok body ∧ ∃ statement ∈ body, ∃ path others,
      Stands statement path
        (.filter translateFilter (.string (['x'].map CodePoint.ofChar)) others)) ∧
    ['x'].map CodePoint.ofChar ∉ messagesIn translatedElement := by
  have hquotes : restoreQuotes translatedElement = translatedElement := by cbv
  have htokens : tokenize translatedElement = .ok translatedElementTokens := by cbv
  have hp : parse translatedElement = .ok
      [.array [.filter translateFilter (.string (['x'].map CodePoint.ofChar)) []]] :=
    parse_of_program htokens rfl
  refine ⟨⟨_, hquotes ▸ hp, _, List.mem_singleton_self _, [.element], [], .inside ?_ .here⟩, ?_⟩
  · simp [Expr.parts]
  · simp [messagesIn, findingsIn, hquotes, hp, listFindings, Expr.findings]

end MessageExtraction.Expression
