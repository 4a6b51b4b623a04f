import MessageExtraction.Proofs.Expression.Acceptance
import MessageExtraction.Expression.Filters

/-!
# Findings in the order of the tokens

Every phrase takes up a stretch of the tokens, and its parts take up stretches of it one after the
other. The findings of a phrase keep to that order: each message is the value of a string token of
its own, and each finding has a bar before the name `translate` of its own. So nothing is found
twice, nothing is found that is not written, and messages come in the order in which they are
written.

## Main definitions

* `stringValues` -- the values of the string tokens.
* `translateBars` -- how often a bar is followed by the name `translate`.
* `AccountsFor` -- tokens that findings can be told apart by.

## Main results

* `accountsFor_of_derives` -- the tokens of a phrase account for its findings.
* `messagesIn_sublist_stringValues` -- the messages of a text, and how many findings it has.
-/

namespace MessageExtraction.Expression

/-- The value of a token that is a string. -/
def Token.stringValue? (t : Token) : Option Text :=
  match t.lexeme with
  | .string value => some value
  | _ => none

/-- The values of the string tokens, in order. -/
def stringValues (tokens : List Token) : List Text :=
  tokens.filterMap Token.stringValue?

/-- A bar and after it the name of the filter that marks messages. -/
def PipesToTranslate (bar name : Token) : Prop :=
  bar.lexeme = .symbol .pipe ∧ name.lexeme = .name ∧ name.text = translateFilter

instance (bar name : Token) : Decidable (PipesToTranslate bar name) :=
  inferInstanceAs (Decidable (_ ∧ _ ∧ _))

/-- How often a bar is followed by the name of the filter that marks messages. -/
def translateBars : List Token → Nat
  | [] => 0
  | [_] => 0
  | t :: u :: ts => (if PipesToTranslate t u then 1 else 0) + translateBars (u :: ts)

/-- The tokens of a text, its entities of quotation marks restored; none if it has stray code
points. -/
def tokensIn (source : Text) : List Token :=
  match tokenize (restoreQuotes source) with
  | .ok tokens => tokens
  | .error _ => []

/-- The number of warnings among notices. -/
def warningCount (notices : List Notice) : Nat :=
  notices.countP fun n => n.level = .warning

section

variable {ts us : List Token} {fs gs : List Finding} {tx : Text} {i j : Nat} {name : Text}
  {input : Expr} {others : List Expr}

@[simp] theorem stringValues_append (ts us : List Token) :
    stringValues (ts ++ us) = stringValues ts ++ stringValues us :=
  List.filterMap_append

/-- No pair is lost when stretches of tokens are put together. -/
theorem translateBars_add_le (ts us : List Token) :
    translateBars ts + translateBars us ≤ translateBars (ts ++ us) := by
  fun_induction translateBars ts with
  | case1 => simp
  | case2 t =>
    cases us with
    | nil => simp [translateBars]
    | cons u us =>
      rw [List.singleton_append, translateBars]
      omega
  | case3 t u ts ih =>
    rw [List.cons_append, List.cons_append, translateBars]
    rw [List.cons_append] at ih
    omega

theorem listFindings_append (es others : List Expr) :
    listFindings (es ++ others) = listFindings es ++ listFindings others := by
  induction es with
  | nil => rfl
  | cons e es ih => rw [List.cons_append, listFindings, listFindings, ih, List.append_assoc]

/-- The messages among findings are, in order, values of string tokens, and there are as many pairs
of a bar and the name `translate` as findings at least. -/
structure AccountsFor (ts : List Token) (fs : List Finding) : Prop where
  messages : (fs.filterMap Finding.message?).Sublist (stringValues ts)
  length_le : fs.length ≤ translateBars ts

namespace AccountsFor

theorem nil (ts : List Token) : AccountsFor ts [] :=
  ⟨List.nil_sublist _, Nat.zero_le _⟩

theorem append (h : AccountsFor ts fs) (h' : AccountsFor us gs) :
    AccountsFor (ts ++ us) (fs ++ gs) where
  messages := by
    rw [List.filterMap_append, stringValues_append]
    exact h.messages.append h'.messages
  length_le := by
    rw [List.length_append]
    exact (Nat.add_le_add h.length_le h'.length_le).trans (translateBars_add_le ts us)

theorem append_left (ts : List Token) (h : AccountsFor us fs) : AccountsFor (ts ++ us) fs :=
  (nil ts).append h

theorem append_right (h : AccountsFor ts fs) (us : List Token) : AccountsFor (ts ++ us) fs := by
  rw [← List.append_nil fs]
  exact h.append (nil us)

theorem cons (t : Token) (h : AccountsFor ts fs) : AccountsFor (t :: ts) fs :=
  h.append_left [t]

/-- What stands between two tokens. -/
theorem between (t : Token) (h : AccountsFor ts fs) (u : Token) :
    AccountsFor (t :: (ts ++ [u])) fs :=
  (h.append_right [u]).cons t

/-- What stands on the two sides of a token. -/
theorem beside (h : AccountsFor ts fs) (t : Token) (h' : AccountsFor us gs) :
    AccountsFor (ts ++ t :: us) (fs ++ gs) :=
  h.append (h'.cons t)

/-- A filter adds at most one finding to those of its input and its further arguments. It is a
message if the input is a literal, which then has no findings of its own. -/
theorem filter (h : AccountsFor ts input.findings)
    (hliteral : ∀ s, input = .string s → s ∈ stringValues ts)
    (hothers : AccountsFor us (listFindings others)) :
    AccountsFor (ts ++ ⟨.symbol .pipe, tx, i⟩ :: ⟨.name, name, j⟩ :: us)
      (Expr.filter name input others).findings := by
  have hsplit : ts ++ ⟨.symbol .pipe, tx, i⟩ :: ⟨.name, name, j⟩ :: us =
      (ts ++ [⟨.symbol .pipe, tx, i⟩, ⟨.name, name, j⟩]) ++ us := by simp
  rw [hsplit, Expr.findings]
  refine append ?_ hothers
  split
  · next hname =>
    constructor
    · rw [List.filterMap_append, stringValues_append]
      refine List.Sublist.trans ?_ (List.sublist_append_left ..)
      cases input with
      | string s => simpa [Expr.asFinding, Finding.message?, Expr.findings] using hliteral s rfl
      | _ => exact h.messages
    · have hpair : translateBars [⟨.symbol .pipe, tx, i⟩, ⟨.name, name, j⟩] = 1 := by
        simp [translateBars, PipesToTranslate, hname]
      have hadd := translateBars_add_le ts [⟨.symbol .pipe, tx, i⟩, ⟨.name, name, j⟩]
      have hle := h.length_le
      rw [List.length_append, List.length_singleton]
      omega
  · exact h.append_right _

end AccountsFor

/-- The findings of the syntax that a phrase stands for. -/
def Phrase.findings : Phrase → List Finding
  | program body | statement body => listFindings body
  | chain e | expression e | ternary e | operand _ e | unary e | primary e | atom e => e.findings
  | filterArguments es | arguments es | moreArguments es | elements es => listFindings es
  | properties ps => propertyFindings ps
  | property p => p.value.findings

/-- The phrase stands for a string literal. -/
def Phrase.IsLiteral (s : Text) : Phrase → Prop
  | chain e | expression e | ternary e | operand _ e | unary e | primary e | atom e => e = .string s
  | _ => False

/-- The tokens of a phrase account for its findings. A literal, which is no finding by itself but
may become one, is the value of one of its tokens. -/
theorem accountsFor_of_derives {r : Reading} {phrase : Phrase} (h : Derives r ts phrase) :
    AccountsFor ts phrase.findings ∧ ∀ s, phrase.IsLiteral s → s ∈ stringValues ts := by
  induction h with
  | filter _ _ ih₁ ih₂ => exact ⟨ih₁.1.filter ih₁.2 ih₂.1, fun _ => nofun⟩
  | string =>
    refine ⟨.nil _, fun s hs => ?_⟩
    cases hs
    exact List.mem_singleton_self _
  | parentheses _ ih =>
    refine ⟨ih.1.between _ _, fun s hs => ?_⟩
    have hmem := ih.2 s hs
    exact List.mem_filterMap.mpr ((List.mem_filterMap.mp hmem).imp fun t ht =>
      ⟨List.mem_cons_of_mem _ (List.mem_append_left _ ht.1), ht.2⟩)
  -- the syntax is the same under another name
  | chain _ ih | expression _ ih | ternary _ ih | operand _ ih | tighter _ _ ih | primary _ ih
  | atom _ ih => exact ih
  | lastStatement _ ih => exact ⟨ih.1, fun _ => nofun⟩
  -- nothing is looked for in these
  | noStatement | noFilterArguments | noArguments | noMoreArguments | noElements | noProperties
  | number | constant | name | shorthand => exact ⟨.nil _, fun _ => nofun⟩
  | assignment _ _ _ _ | binary _ _ _ _ _ | index _ _ _ _ | unary _ _ | member _ _ | array _ _ =>
    exact ⟨.nil _, fun _ => nofun⟩
  -- the parts come one after the other
  | statement _ ih | lastElement _ ih | lastProperty _ ih =>
    refine ⟨?_, fun _ => nofun⟩
    rw [← List.append_nil (Phrase.findings _)] at ih
    exact ih.1
  | statementMore _ _ ih₁ ih₂ =>
    refine ⟨?_, fun _ => nofun⟩
    rw [Phrase.findings, listFindings_append]
    exact ih₁.1.beside _ ih₂.1
  | element _ _ ih₁ ih₂ | property _ _ ih₁ ih₂ => exact ⟨ih₁.1.beside _ ih₂.1, fun _ => nofun⟩
  | arguments _ _ ih₁ ih₂ => exact ⟨ih₁.1.append ih₂.1, fun _ => nofun⟩
  | filterArgument _ _ ih₁ ih₂ | moreArguments _ _ ih₁ ih₂ =>
    exact ⟨(ih₁.1.append ih₂.1).cons _, fun _ => nofun⟩
  | conditional _ _ _ _ ih₂ ih₃ =>
    exact ⟨((ih₂.1.beside _ ih₃.1).cons _).append_left _, fun _ => nofun⟩
  | call _ _ _ ih => exact ⟨(ih.1.between _ _).append_left _, fun _ => nofun⟩
  | object _ ih => exact ⟨ih.1.between _ _, fun _ => nofun⟩
  | named _ ih | stringKey _ ih | numberKey _ ih => exact ⟨(ih.1.cons _).cons _, fun _ => nofun⟩
  | computed _ _ _ ih => exact ⟨((ih.1.cons _).cons _).append_left _ |>.cons _, fun _ => nofun⟩

end

/-- A finding is a message or it is worth a warning. -/
theorem length_messages_add_warningCount (fs : List Finding) :
    (fs.filterMap Finding.message?).length + warningCount (fs.filterMap Finding.notice?) =
      fs.length := by
  induction fs with
  | nil => rfl
  | cons f fs ih =>
    cases f with
    | message m =>
      simp only [List.filterMap_cons, Finding.message?, Finding.notice?, List.length_cons]
      omega
    | notLiteral kind =>
      simp only [List.filterMap_cons, Finding.message?, Finding.notice?, List.length_cons,
        warningCount, List.countP_cons, Notice.level, decide_true, if_true] at ih ⊢
      omega

/-- The messages of a text are, in order, values of its string tokens, none of them taken twice,
and messages and warnings together are no more than the bars that are followed by the name
`translate`. -/
theorem messagesIn_sublist_stringValues (source : Text) :
    (messagesIn source).Sublist (stringValues (tokensIn source)) ∧
      (messagesIn source).length + warningCount (noticesIn source) ≤
        translateBars (tokensIn source) := by
  rw [messagesIn, findingsIn, noticesIn, tokensIn]
  cases hparse : parse (restoreQuotes source) with
  | error e => exact ⟨List.nil_sublist _, Nat.zero_le _⟩
  | ok body =>
    cases htokens : tokenize (restoreQuotes source) with
    | error stray =>
      rw [parse, htokens] at hparse
      cases hparse
    | ok tokens =>
      have haccounts : AccountsFor tokens (listFindings body) :=
        (accountsFor_of_derives ((parse_eq_ok_iff htokens).mp hparse)).1
      refine ⟨haccounts.messages, ?_⟩
      rw [length_messages_add_warningCount]
      exact haccounts.length_le

end MessageExtraction.Expression
