import MessageExtraction.Proofs.Expression.Grammar
import MessageExtraction.Proofs.Expression.Printing

/-!
# Phrases made up of words

The grammar looks at what tokens are and not at where they stand, so that words
alone decide which phrases they make up. The productions are restated here for
words, together with the fact that the words can be read.

## Main definitions

* `Worded` -- readable words, all tokens of which satisfy a condition.
* `Forms` -- readable words that make up a phrase.
-/

namespace MessageExtraction.Expression

/-- Words that can be read, such that all tokens that are these words satisfy a condition. -/
structure Worded (ws : List Word) (p : List Token → Prop) : Prop where
  reads : ∀ w ∈ ws, w.Reads
  holds : ∀ ts : List Token, ts.map Token.word = ws → p ts

/-- Words that can be read and make up a phrase wherever they stand. -/
def Forms (ws : List Word) (phrase : Phrase) : Prop :=
  Worded ws fun ts => Derives .innermost ts phrase

namespace Worded

variable {ws us : List Word} {w : Word} {p q : List Token → Prop}

theorem imp (h : Worded ws p) (hpq : ∀ ts, p ts → q ts) : Worded ws q where
  reads := h.reads
  holds ts hts := hpq ts (h.holds ts hts)

theorem nil (h : p []) : Worded [] p where
  reads := nofun
  holds ts hts := by rwa [List.map_eq_nil_iff.mp hts]

/-- A word in front. -/
theorem cons (hw : w.Reads) (h : Worded ws p) :
    Worded (w :: ws) fun ts => ∃ i us, ts = ⟨w.lexeme, w.text, i⟩ :: us ∧ p us where
  reads := List.forall_mem_cons.mpr ⟨hw, h.reads⟩
  holds ts hts := by
    obtain ⟨t, us, rfl, ht, hus⟩ := List.map_eq_cons_iff.mp hts
    refine ⟨t.index, us, ?_, h.holds us hus⟩
    rw [← ht]
    rfl

/-- Words after words. -/
theorem append (h₁ : Worded ws p) (h₂ : Worded us q) :
    Worded (ws ++ us) fun ts => ∃ as bs, ts = as ++ bs ∧ p as ∧ q bs where
  reads := List.forall_mem_append.mpr ⟨h₁.reads, h₂.reads⟩
  holds ts hts := by
    obtain ⟨as, bs, rfl, has, hbs⟩ := List.map_eq_append_iff.mp hts
    exact ⟨as, bs, rfl, h₁.holds as has, h₂.holds bs hbs⟩

/-- A single word. -/
theorem singleton (hw : w.Reads) : Worded [w] fun ts => ∃ i, ts = [⟨w.lexeme, w.text, i⟩] := by
  have hnil : Worded [] fun ts => ts = [] := nil rfl
  refine (hnil.cons hw).imp ?_
  rintro _ ⟨i, _, rfl, rfl⟩
  exact ⟨i, rfl⟩

end Worded

/-! ## Words that can be read -/

theorem Symbol.reads_word (s : Symbol) : s.word.Reads := by
  cases s <;> rfl

/-- Words between two symbols. -/
theorem Worded.between {ws : List Word} {p : List Token → Prop} (h : Worded ws p)
    (s s' : Symbol) : Worded (s.word :: (ws ++ [s'.word])) fun ts =>
      ∃ i as j, ts = ⟨.symbol s, s.text, i⟩ :: (as ++ [⟨.symbol s', s'.text, j⟩]) ∧ p as := by
  refine ((h.append (.singleton s'.reads_word)).cons s.reads_word).imp ?_
  rintro _ ⟨i, _, rfl, as, _, rfl, has, j, rfl⟩
  exact ⟨i, as, j, rfl, has⟩

theorem reads_nameWord {name : Text} (h : IsName name) : (nameWord name).Reads := by
  cases name with
  | nil => cases h
  | cons c t =>
    obtain ⟨hstart, hgoes⟩ := h
    have htake : t.takeWhile continuesName = t := by
      have h : (t ++ []).takeWhile continuesName = t ++ [] :=
        List.takeWhile_append_of_pos (List.all_eq_true.mp hgoes)
      rwa [List.append_nil] at h
    have hread := lexeme?_of_startsName hstart t
    rwa [htake] at hread

theorem Constant.reads_word (c : Constant) : c.word.Reads :=
  reads_nameWord (by cases c <;> decide)

theorem Style.reads_stringWord (style : Style) (t : Text) : (style.stringWord t).Reads := by
  have h := (style.quotes_body t).lexeme?_eq (style.isMark t)
  simpa [Word.Reads, Style.stringWord] using h

theorem Style.reads_numberWord (style : Style) (d : Decimal) : (style.numberWord d).Reads := by
  have hscan := style.scan_numeral d
  change lexeme? (style.numeral d) = some (.number (style.value d), (style.numeral d).length)
  cases hnumeral : style.numeral d with
  | nil =>
    rw [hnumeral] at hscan
    cases hscan
  | cons c t =>
    rw [hnumeral] at hscan
    rw [lexeme?, hscan]

/-! ## Productions -/

namespace Forms

variable {ws us vs : List Word} {level : Nat} {e e₁ e₂ e₃ : Expr} {es : List Expr}
  {p : Property Expr} {ps : List (Property Expr)} {first body : Program} {label : Text}

theorem filter (h : Forms ws (.chain e)) (hname : IsName label)
    (hs : Forms us (.filterArguments es)) :
    Forms (ws ++ Symbol.pipe.word :: nameWord label :: us) (.chain (.filter label e es)) := by
  refine (h.append ((hs.cons (reads_nameWord hname)).cons Symbol.pipe.reads_word)).imp ?_
  rintro _ ⟨as, _, rfl, has, i, _, rfl, j, bs, rfl, hbs⟩
  exact has.filter hbs

theorem noFilterArguments : Forms [] (.filterArguments []) :=
  .nil .noFilterArguments

theorem filterArgument (h : Forms ws (.expression e)) (hs : Forms us (.filterArguments es)) :
    Forms (Symbol.colon.word :: (ws ++ us)) (.filterArguments (e :: es)) := by
  refine ((h.append hs).cons Symbol.colon.reads_word).imp ?_
  rintro _ ⟨i, _, rfl, as, bs, rfl, has, hbs⟩
  exact has.filterArgument hbs

theorem assignment (h₁ : Forms ws (.operand 0 e₁)) (h₂ : Forms us (.expression e₂)) :
    Forms (ws ++ Symbol.assign.word :: us) (.expression (.assignment e₁ e₂)) := by
  refine (h₁.append (h₂.cons Symbol.assign.reads_word)).imp ?_
  rintro _ ⟨as, _, rfl, has, i, bs, rfl, hbs⟩
  exact .assignment has hbs

theorem conditional (h₁ : Forms ws (.operand 0 e₁)) (h₂ : Forms us (.expression e₂))
    (h₃ : Forms vs (.expression e₃)) :
    Forms (ws ++ Symbol.question.word :: (us ++ Symbol.colon.word :: vs))
      (.ternary (.conditional e₁ e₂ e₃)) := by
  have h₄ := (h₂.append (h₃.cons Symbol.colon.reads_word)).cons Symbol.question.reads_word
  refine (h₁.append h₄).imp ?_
  rintro _ ⟨as, _, rfl, has, i, _, rfl, bs, _, rfl, hbs, j, cs, rfl, hcs⟩
  exact has.conditional hbs hcs

theorem binary {operator : BinaryOperator} (hl : operator.level = level)
    (h₁ : Forms ws (.operand level e₁)) (h₂ : Forms us (.operand (level + 1) e₂)) :
    Forms (ws ++ operator.symbol.word :: us) (.operand level (.binary operator e₁ e₂)) := by
  refine (h₁.append (h₂.cons operator.symbol.reads_word)).imp ?_
  rintro _ ⟨as, _, rfl, has, i, bs, rfl, hbs⟩
  exact .binary hl has hbs

theorem unary {operator : UnaryOperator} (h : Forms ws (.unary e)) :
    Forms (operator.symbol.word :: ws) (.unary (.unary operator e)) := by
  refine (h.cons operator.symbol.reads_word).imp ?_
  rintro _ ⟨i, as, rfl, has⟩
  exact has.unary

theorem call (h : Forms ws (.primary e)) (hs : Forms us (.arguments es)) :
    Forms (ws ++ Symbol.openParen.word :: (us ++ [Symbol.closeParen.word]))
      (.primary (.call e es)) := by
  refine (h.append (hs.between .openParen .closeParen)).imp ?_
  rintro _ ⟨as, _, rfl, has, i, bs, j, rfl, hbs⟩
  exact has.call hbs

theorem index (h₁ : Forms ws (.primary e₁)) (h₂ : Forms us (.expression e₂)) :
    Forms (ws ++ Symbol.openBracket.word :: (us ++ [Symbol.closeBracket.word]))
      (.primary (.index e₁ e₂)) := by
  refine (h₁.append (h₂.between .openBracket .closeBracket)).imp ?_
  rintro _ ⟨as, _, rfl, has, i, bs, j, rfl, hbs⟩
  exact has.index hbs

theorem member (h : Forms ws (.primary e)) (hname : IsName label) :
    Forms (ws ++ [Symbol.dot.word, nameWord label]) (.primary (.member e label)) := by
  have hword := Worded.singleton (reads_nameWord hname)
  refine (h.append (hword.cons Symbol.dot.reads_word)).imp ?_
  rintro _ ⟨as, _, rfl, has, i, _, rfl, j, rfl⟩
  exact has.member

theorem noArguments : Forms [] (.arguments []) :=
  .nil .noArguments

theorem arguments (h : Forms ws (.chain e)) (hs : Forms us (.moreArguments es)) :
    Forms (ws ++ us) (.arguments (e :: es)) := by
  refine (h.append hs).imp ?_
  rintro _ ⟨as, bs, rfl, has, hbs⟩
  exact has.arguments hbs

theorem noMoreArguments : Forms [] (.moreArguments []) :=
  .nil .noMoreArguments

theorem moreArguments (h : Forms ws (.chain e)) (hs : Forms us (.moreArguments es)) :
    Forms (Symbol.comma.word :: (ws ++ us)) (.moreArguments (e :: es)) := by
  refine ((h.append hs).cons Symbol.comma.reads_word).imp ?_
  rintro _ ⟨i, _, rfl, as, bs, rfl, has, hbs⟩
  exact has.moreArguments hbs

theorem parentheses (h : Forms ws (.chain e)) :
    Forms (Symbol.openParen.word :: (ws ++ [Symbol.closeParen.word])) (.atom e) := by
  refine (h.between .openParen .closeParen).imp ?_
  rintro _ ⟨i, as, j, rfl, has⟩
  exact has.parentheses

theorem array (hs : Forms ws (.elements es)) :
    Forms (Symbol.openBracket.word :: (ws ++ [Symbol.closeBracket.word])) (.atom (.array es)) := by
  refine (hs.between .openBracket .closeBracket).imp ?_
  rintro _ ⟨i, as, j, rfl, has⟩
  exact has.array

theorem object (hs : Forms ws (.properties ps)) :
    Forms (Symbol.openBrace.word :: (ws ++ [Symbol.closeBrace.word])) (.atom (.object ps)) := by
  refine (hs.between .openBrace .closeBrace).imp ?_
  rintro _ ⟨i, as, j, rfl, has⟩
  exact has.object

theorem string (style : Style) (t : Text) : Forms [style.stringWord t] (.atom (.string t)) := by
  refine (Worded.singleton (style.reads_stringWord t)).imp ?_
  rintro _ ⟨i, rfl⟩
  exact .string

theorem number (style : Style) (d : Decimal) :
    Forms [style.numberWord d] (.atom (.number (style.value d))) := by
  refine (Worded.singleton (style.reads_numberWord d)).imp ?_
  rintro _ ⟨i, rfl⟩
  exact .number

theorem constant (c : Constant) : Forms [c.word] (.atom (.constant c)) := by
  refine (Worded.singleton c.reads_word).imp ?_
  rintro _ ⟨i, rfl⟩
  exact .constant (by cases c <;> decide)

theorem name (hname : IsName label) (hnone : Constant.ofName? label = none) :
    Forms [nameWord label] (.atom (.name label)) := by
  refine (Worded.singleton (reads_nameWord hname)).imp ?_
  rintro _ ⟨i, rfl⟩
  exact .name hnone

theorem noElements : Forms [] (.elements []) :=
  .nil .noElements

theorem lastElement (h : Forms ws (.expression e)) : Forms ws (.elements [e]) :=
  h.imp fun _ => .lastElement

theorem element (h : Forms ws (.expression e)) (hs : Forms us (.elements es)) :
    Forms (ws ++ Symbol.comma.word :: us) (.elements (e :: es)) := by
  refine (h.append (hs.cons Symbol.comma.reads_word)).imp ?_
  rintro _ ⟨as, _, rfl, has, i, bs, rfl, hbs⟩
  exact has.element hbs

theorem noProperties : Forms [] (.properties []) :=
  .nil .noProperties

theorem lastProperty (h : Forms ws (.property p)) : Forms ws (.properties [p]) :=
  h.imp fun _ => .lastProperty

theorem property (h : Forms ws (.property p)) (hs : Forms us (.properties ps)) :
    Forms (ws ++ Symbol.comma.word :: us) (.properties (p :: ps)) := by
  refine (h.append (hs.cons Symbol.comma.reads_word)).imp ?_
  rintro _ ⟨as, _, rfl, has, i, bs, rfl, hbs⟩
  exact has.property hbs

theorem named (hname : IsName label) (h : Forms ws (.expression e)) :
    Forms (nameWord label :: Symbol.colon.word :: ws) (.property ⟨.name label, e⟩) := by
  refine ((h.cons Symbol.colon.reads_word).cons (reads_nameWord hname)).imp ?_
  rintro _ ⟨i, _, rfl, j, as, rfl, has⟩
  exact has.named

theorem stringKey (style : Style) (t : Text) (h : Forms ws (.expression e)) :
    Forms (style.stringWord t :: Symbol.colon.word :: ws) (.property ⟨.string t, e⟩) := by
  refine ((h.cons Symbol.colon.reads_word).cons (style.reads_stringWord t)).imp ?_
  rintro _ ⟨i, _, rfl, j, as, rfl, has⟩
  exact has.stringKey

theorem numberKey (style : Style) (d : Decimal) (h : Forms ws (.expression e)) :
    Forms (style.numberWord d :: Symbol.colon.word :: ws)
      (.property ⟨.number (style.value d), e⟩) := by
  refine ((h.cons Symbol.colon.reads_word).cons (style.reads_numberWord d)).imp ?_
  rintro _ ⟨i, _, rfl, j, as, rfl, has⟩
  exact has.numberKey

theorem computed (h₁ : Forms ws (.expression e₁)) (h₂ : Forms us (.expression e₂)) :
    Forms (Symbol.openBracket.word ::
      (ws ++ Symbol.closeBracket.word :: Symbol.colon.word :: us))
      (.property ⟨.computed e₁, e₂⟩) := by
  have h₃ := (h₂.cons Symbol.colon.reads_word).cons Symbol.closeBracket.reads_word
  refine ((h₁.append h₃).cons Symbol.openBracket.reads_word).imp ?_
  rintro _ ⟨i, _, rfl, as, _, rfl, has, j, _, rfl, k, bs, rfl, hbs⟩
  exact has.computed hbs

theorem noStatement : Forms [] (.program []) :=
  .nil (.lastStatement .noStatement)

theorem lastStatement (h : Forms ws (.chain e)) : Forms ws (.program [e]) :=
  h.imp fun _ has => .lastStatement has.statement

theorem statementMore (h : Forms ws (.chain e)) (hs : Forms us (.program body)) :
    Forms (ws ++ Symbol.semicolon.word :: us) (.program (e :: body)) := by
  refine (h.append (hs.cons Symbol.semicolon.reads_word)).imp ?_
  rintro _ ⟨as, _, rfl, has, i, bs, rfl, hbs⟩
  exact has.statement.statementMore hbs

end Forms

end MessageExtraction.Expression
