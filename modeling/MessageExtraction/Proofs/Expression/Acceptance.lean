import Mathlib.Data.List.Permutation
import MessageExtraction.Proofs.Expression.Completeness
import MessageExtraction.Proofs.Expression.Soundness

/-!
# The parser accepts the grammar

A text that has tokens is read as a program exactly when the tokens make one
up. The grammar alone does not say which program that is, since an assignment
after a conditional can be read in two ways; the parser reads it in the
innermost one.

## Main statements

* `parse_eq_ok_iff` -- a text is read as the program that its tokens make up in the innermost
  reading.
* `parse_ok_iff_derives` -- a text is read as a program when its tokens make up one at all.
-/

namespace MessageExtraction.Expression

variable {source : Text} {tokens : List Token} {body : Program}

theorem parse_of_program (h : tokenize source = .ok tokens)
    (hp : program (stepsFor tokens) tokens = .ok body) : parse source = .ok body := by
  simp only [parse, h, hp]

theorem program_of_parse (h : tokenize source = .ok tokens) (hp : parse source = .ok body) :
    program (stepsFor tokens) tokens = .ok body := by
  simp only [parse, h] at hp
  split at hp
  · next heq =>
    cases hp
    exact heq
  · cases hp
  · cases hp

/-- A text is read as the program that its tokens make up in the innermost reading. -/
theorem parse_eq_ok_iff (h : tokenize source = .ok tokens) :
    parse source = .ok body ↔ Derives .innermost tokens (.program body) :=
  ⟨fun hp => derives_of_program (program_of_parse h hp),
    fun hd => parse_of_program h (program_of_derives hd)⟩

/-- A text that has tokens is read as a program exactly when the tokens make up some program. What
it is read as they make up, and they do so in the reading in which every `=` belongs to the
innermost outcome, which leaves no choice. -/
theorem parse_ok_iff_derives (h : tokenize source = .ok tokens) :
    ((∃ body, parse source = .ok body) ↔ ∃ body, Derives .any tokens (.program body)) ∧
      ∀ body, (parse source = .ok body → Derives .any tokens (.program body)) ∧
        (parse source = .ok body ↔ Derives .innermost tokens (.program body)) := by
  have hsound {body : Program} (hp : parse source = .ok body) :
      Derives .any tokens (.program body) := derives_of_program (program_of_parse h hp)
  refine ⟨⟨fun hp => ?_, fun hd => ?_⟩, fun body => ⟨hsound, parse_eq_ok_iff h⟩⟩
  · obtain ⟨body, hp⟩ := hp
    exact ⟨body, hsound hp⟩
  · obtain ⟨body, hd⟩ := hd
    obtain ⟨body', hd'⟩ : ∃ body', Derives .innermost tokens (.program body') := hd.exists_innermost
    exact ⟨body', (parse_eq_ok_iff h).mpr hd'⟩

/-- The text `a?b:c=d`. -/
def conditionalThenAssign : Text :=
  ['a', '?', 'b', ':', 'c', '=', 'd'].map CodePoint.ofChar

/-- The tokens of `a?b:c=d`. -/
def conditionalThenAssignTokens : List Token :=
  [⟨.name, ['a'].map CodePoint.ofChar, 0⟩, ⟨.symbol .question, Symbol.question.text, 1⟩,
    ⟨.name, ['b'].map CodePoint.ofChar, 2⟩, ⟨.symbol .colon, Symbol.colon.text, 3⟩,
    ⟨.name, ['c'].map CodePoint.ofChar, 4⟩, ⟨.symbol .assign, Symbol.assign.text, 5⟩,
    ⟨.name, ['d'].map CodePoint.ofChar, 6⟩]

set_option maxRecDepth 4096 in
/-- In `a?b:c=d` the assignment is the last outcome of the conditional. -/
theorem derives_conditionalThenAssign :
    tokenize conditionalThenAssign = .ok conditionalThenAssignTokens ∧
    Derives .innermost conditionalThenAssignTokens
      (.program [.conditional (.name (['a'].map CodePoint.ofChar))
        (.name (['b'].map CodePoint.ofChar))
        (.assignment (.name (['c'].map CodePoint.ofChar))
          (.name (['d'].map CodePoint.ofChar)))]) := by
  have htokens : tokenize conditionalThenAssign = .ok conditionalThenAssignTokens := by cbv
  have hp : parse conditionalThenAssign = .ok _ := parse_of_program htokens rfl
  exact ⟨htokens, ((parse_ok_iff_derives htokens).2 _).2.mp hp⟩

end MessageExtraction.Expression
