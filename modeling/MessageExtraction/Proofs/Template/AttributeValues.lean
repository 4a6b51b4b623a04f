import MessageExtraction.Proofs.Expression.LeadingLiteral
import MessageExtraction.Proofs.Expression.Occurrences
import MessageExtraction.Proofs.Expression.TranslatedStrings
import MessageExtraction.Proofs.Template.Entities
import MessageExtraction.Proofs.Template.Literals

/-!
# Messages in the values of attributes

When no message is found in the expressions of a value, the value is searched for translated
literals. The search is meant for values that are no programs. It also takes place when all
expressions are programs without a message, and then it may find a text that no expression
translates: the name of the filter may go on after `translate`, and the body may reach over
quotation marks that end literals.

It finds nothing else. If an expression begins with a plain translated literal, the literal is among
the messages of the expressions, and there is no search.

## Main definitions

* `expressionMessages` -- the messages in the expressions of a value.
* `literalDelimiters` -- the delimiters with which a value is searched for translated literals.

## Main results

* `valueMessages_of_accepted` -- when the messages of a value are those of its expressions, and what
  else they may be.
-/

namespace MessageExtraction.Template

open Expression (messagesIn parse restoreQuotes translateFilter BeginsTranslated Stands Expr
  Symbol Word TokenizesAs IsName nameWord lexeme? parse_of_program)

/-- The messages in the expressions of a value. -/
def expressionMessages (d : Delimiters) (value : Text) : List Text :=
  (valueExpressions d value).flatMap messagesIn

/-- The delimiters with which a value is searched for translated literals. -/
def literalDelimiters (d : Delimiters) (value : Text) : Delimiters :=
  if (d.expressions value).isEmpty then bareDelimiters else d

section

variable {d : Delimiters} {value m : Text}

theorem valueMessages_of_ne_nil (h : expressionMessages d value ≠ []) :
    valueMessages d value = expressionMessages d value := by
  rw [valueMessages]
  split
  · next hnil => exact absurd hnil h
  · next hfound => rfl

theorem valueMessages_of_eq_nil (h : expressionMessages d value = []) :
    valueMessages d value = ((literalDelimiters d value).literals value).map (·.value.body) := by
  rw [expressionMessages] at h
  rw [valueMessages, h]
  rfl

/-- A message in an expression is a literal that the filter `translate` is applied to. -/
theorem exists_stands_of_mem_expressionMessages (h : m ∈ expressionMessages d value) :
    ∃ e ∈ valueExpressions d value, ∃ program, parse (restoreQuotes e) = .ok program ∧
      ∃ statement ∈ program, ∃ path others,
        Stands statement path (.filter translateFilter (.string m) others) := by
  obtain ⟨e, he, hm⟩ := List.mem_flatMap.mp h
  obtain ⟨finding, hfinding, hmessage⟩ := List.mem_filterMap.mp hm
  rw [Expression.Finding.message?_eq_some_iff.mp hmessage, Expression.findingsIn] at hfinding
  split at hfinding
  · next program hprogram =>
    obtain ⟨statement, hstatement, hin⟩ := Expression.mem_listFindings_iff.mp hfinding
    obtain ⟨path, others, hstands, -⟩ := Expression.message_mem_findings_iff.mp hin
    exact ⟨e, he, program, hprogram, statement, hstatement, path, others, hstands⟩
  · cases hfinding

/-- If all expressions of a value are programs, the messages of the value are those of the
expressions unless these have none and the value is written like a translated literal somewhere. The
messages of the expressions are literals that the filter `translate` is applied to, and whatever
plain translated literal an expression begins with is one of them. Other messages are bodies of what
is written like a translated literal. -/
theorem valueMessages_of_accepted
    (h : ∀ e ∈ valueExpressions d value, ∃ program, parse (restoreQuotes e) = .ok program) :
    (valueMessages d value = expressionMessages d value ↔ expressionMessages d value ≠ [] ∨
      ∀ body, ¬(literalDelimiters d value).Holds body value) ∧
    (∀ m ∈ expressionMessages d value, ∃ e ∈ valueExpressions d value, ∃ program,
      parse (restoreQuotes e) = .ok program ∧ ∃ statement ∈ program, ∃ path others,
        Stands statement path (.filter translateFilter (.string m) others)) ∧
    (∀ e ∈ valueExpressions d value, ∀ body, BeginsTranslated body e →
      body ∈ expressionMessages d value) ∧
    (expressionMessages d value = [] → ∀ m ∈ valueMessages d value,
      (literalDelimiters d value).Holds m value) := by
  refine ⟨?_, fun m => exists_stands_of_mem_expressionMessages, fun e he body hbody => ?_,
    fun hnil m hm => ?_⟩
  · by_cases hnil : expressionMessages d value = []
    · rw [valueMessages_of_eq_nil hnil, hnil, List.map_eq_nil_iff, literals_eq_nil_iff]
      exact ⟨.inr, fun h => h.resolve_left (not_not_intro rfl)⟩
    · exact iff_of_true (valueMessages_of_ne_nil hnil) (.inl hnil)
  · obtain ⟨program, hprogram⟩ := h e he
    exact List.mem_flatMap.mpr
      ⟨e, he, Expression.mem_messagesIn_of_beginsTranslated hbody hprogram⟩
  · rw [valueMessages_of_eq_nil hnil] at hm
    obtain ⟨found, hfound, rfl⟩ := List.mem_map.mp hm
    exact holds_of_mem_literals hfound

end

/-- The text `'a' | name`. -/
def filteredBy (name : Text) : Text :=
  ['\x27', 'a', '\x27', ' ', '|', ' '].map CodePoint.ofChar ++ name

/-- The words of `'a' | name`. -/
def filteredByWords (name : Text) : List Word :=
  [⟨.string (['a'].map CodePoint.ofChar), ['\x27', 'a', '\x27'].map CodePoint.ofChar⟩,
    Symbol.pipe.word, nameWord name]

/-- The name `translated`. -/
def translatedFilter : Text :=
  translateFilter ++ ['d'].map CodePoint.ofChar

section

variable {name : Text}

theorem tokenizesAs_filteredBy (h : IsName name) :
    TokenizesAs (filteredBy name) (filteredByWords name) := by
  have hstring : lexeme? (['\x27', 'a', '\x27'].map CodePoint.ofChar) =
      some (.string (['a'].map CodePoint.ofChar), 3) :=
    Expression.lexeme?_quoted (.inl rfl) (List.forall_mem_singleton.mpr rfl) []
  have hreads : ∀ w ∈ filteredByWords name, w.Reads :=
    List.forall_mem_cons.mpr ⟨hstring, List.forall_mem_cons.mpr ⟨Symbol.pipe.reads_word,
      List.forall_mem_singleton.mpr (Expression.reads_nameWord h)⟩⟩
  have hspaced := TokenizesAs.spaced hreads (t := []) trivial Expression.tokenizesAs_nil
  rw [List.append_nil, List.append_nil] at hspaced
  exact hspaced

theorem parse_filteredBy (h : IsName name) (hplain : CodePoint.ofChar '&' ∉ name) :
    parse (restoreQuotes (filteredBy name)) =
      .ok [.filter name (.string (['a'].map CodePoint.ofChar)) []] := by
  have hrestore : restoreQuotes (filteredBy name) = filteredBy name := by
    have hnot : CodePoint.ofChar '&' ∉ filteredBy name := by
      rw [filteredBy, List.mem_append, not_or]
      exact ⟨by decide, hplain⟩
    have happend := Expression.restoreQuotes_append hnot []
    rw [List.append_nil] at happend
    exact happend.trans (List.append_nil _)
  rw [hrestore]
  exact Expression.parse_filteredString (tokenizesAs_filteredBy h)

/-- The text `'a' | name` has a message exactly if the name is `translate`. -/
theorem messagesIn_filteredBy (h : IsName name) (hplain : CodePoint.ofChar '&' ∉ name) :
    messagesIn (filteredBy name) =
      if name = translateFilter then [['a'].map CodePoint.ofChar] else [] := by
  rw [messagesIn, Expression.findingsIn, parse_filteredBy h hplain]
  by_cases hname : name = translateFilter
  · simp [Expression.listFindings, Expr.findings, Expr.asFinding, Expression.Finding.message?,
      hname]
  · simp [Expression.listFindings, Expr.findings, hname]

end

/-- The value `'a' | translate` is a program with a message, which is the message of the value. -/
theorem valueMessages_filteredByTranslate :
    (∀ e ∈ valueExpressions doubleBraces.delimiters (filteredBy translateFilter),
      ∃ program, parse (restoreQuotes e) = .ok program) ∧
    expressionMessages doubleBraces.delimiters (filteredBy translateFilter) ≠ [] ∧
    valueMessages doubleBraces.delimiters (filteredBy translateFilter) =
      expressionMessages doubleBraces.delimiters (filteredBy translateFilter) := by
  have hexpressions : valueExpressions doubleBraces.delimiters (filteredBy translateFilter) =
      [filteredBy translateFilter] := by cbv
  have haccepted : ∀ e ∈ valueExpressions doubleBraces.delimiters (filteredBy translateFilter),
      ∃ program, parse (restoreQuotes e) = .ok program := by
    rw [hexpressions]
    exact List.forall_mem_singleton.mpr ⟨_, parse_filteredBy (by decide) (by decide)⟩
  have hfound : expressionMessages doubleBraces.delimiters (filteredBy translateFilter) ≠ [] := by
    rw [expressionMessages, hexpressions, List.flatMap_singleton,
      messagesIn_filteredBy (by decide) (by decide), if_pos rfl]
    exact List.cons_ne_nil _ _
  exact ⟨haccepted, hfound, (valueMessages_of_accepted haccepted).1.mpr (.inl hfound)⟩

/-- The value `'a' | translated` is a program without messages, and yet a message is found in it. -/
theorem valueMessages_filteredByTranslated :
    (∀ e ∈ valueExpressions doubleBraces.delimiters (filteredBy translatedFilter),
      ∃ program, parse (restoreQuotes e) = .ok program) ∧
    expressionMessages doubleBraces.delimiters (filteredBy translatedFilter) = [] ∧
    valueMessages doubleBraces.delimiters (filteredBy translatedFilter) =
      [['a'].map CodePoint.ofChar] := by
  have hexpressions : valueExpressions doubleBraces.delimiters (filteredBy translatedFilter) =
      [filteredBy translatedFilter] := by cbv
  have hnone : expressionMessages doubleBraces.delimiters (filteredBy translatedFilter) = [] := by
    rw [expressionMessages, hexpressions, List.flatMap_singleton,
      messagesIn_filteredBy (by decide) (by decide), if_neg (by decide)]
  refine ⟨?_, hnone, ?_⟩
  · rw [hexpressions]
    exact List.forall_mem_singleton.mpr ⟨_, parse_filteredBy (by decide) (by decide)⟩
  · rw [valueMessages_of_eq_nil hnone]
    cbv

end MessageExtraction.Template
