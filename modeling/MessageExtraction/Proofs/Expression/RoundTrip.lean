import MessageExtraction.Proofs.Expression.Acceptance
import MessageExtraction.Proofs.Expression.PlainStyle
import MessageExtraction.Proofs.Expression.Wording

/-!
# Parsing undoes printing

The words of an expression make up the phrase of its precedence, and, with the
parentheses that its place requires, the phrase of that place. The text of the
words has them as its tokens, and the parser reads what its tokens make up.

## Main definitions

* `phraseAt` -- the phrase of a precedence.

## Main statements

* `forms_words` -- the words of an expression make up the phrase of its precedence.
* `parse_print` -- parsing the text of a program gives the program back.
-/

namespace MessageExtraction.Expression

/-! ## Precedence -/

/-- The phrase that an expression has to be where it has to bind so tightly. -/
def phraseAt : Nat → Expr → Phrase
  | 0, e => .chain e
  | 1, e => .expression e
  | 2, e => .ternary e
  | level + 3, e => if level ≤ levelCount then .operand level e else .primary e

section

variable {ws : List Word} {k level : Nat} {e : Expr}

theorem phraseAt_operand (h : level ≤ levelCount) (e : Expr) :
    phraseAt (level + 3) e = .operand level e :=
  if_pos h

/-- What binds more tightly also binds less tightly. -/
theorem Forms.loosen (h : Forms ws (phraseAt (k + 1) e)) : Forms ws (phraseAt k e) := by
  match k with
  | 0 => exact h.imp fun _ => .chain
  | 1 => exact h.imp fun _ => .expression
  | 2 => exact h.imp fun _ => .ternary
  | level + 3 =>
    rw [phraseAt] at h ⊢
    by_cases hlt : level + 1 ≤ levelCount
    · rw [if_pos hlt] at h
      rw [if_pos (Nat.le_of_lt hlt)]
      exact h.imp fun _ => .tighter hlt
    · rw [if_neg hlt] at h
      split
      · next hle =>
        obtain rfl : level = levelCount := Nat.le_antisymm hle (Nat.le_of_not_lt hlt)
        exact h.imp fun _ has => .operand has.primary
      · exact h

theorem Forms.loosen_le {m : Nat} (h : Forms ws (phraseAt k e)) (hmk : m ≤ k) :
    Forms ws (phraseAt m e) := by
  induction k with
  | zero => rwa [Nat.le_zero.mp hmk]
  | succ k ih =>
    rcases Nat.lt_or_eq_of_le hmk with hlt | rfl
    · exact ih h.loosen (Nat.le_of_lt_succ hlt)
    · exact h

/-- A unary phrase is an operand past the last level. -/
theorem forms_unary (h : Forms ws (phraseAt (levelCount + 3) e)) : Forms ws (.unary e) := by
  refine h.imp fun ts has => ?_
  have hoperand : Derives .innermost ts (.operand levelCount e) := has
  generalize hlevel : levelCount = level at hoperand
  cases hoperand with
  | operand h => exact h
  | tighter hl _ => exact absurd (hlevel ▸ hl) (Nat.lt_irrefl _)
  | @binary _ _ _ _ _ _ _ operator hl =>
    exact absurd (hl.trans hlevel.symm) (by cases operator <;> decide)

/-- The words of an expression make up the phrase of its precedence. -/
def Prints (style : Style) (e : Expr) : Prop :=
  Forms (e.words style) (phraseAt e.precedence (e.mapNumbers style.value))

/-- With the parentheses that a place requires the words of an expression fit that place. -/
theorem Prints.fits {style : Style} (h : Prints style e) (hk : k ≤ levelCount + 4) :
    Forms (enclose k e (e.words style)) (phraseAt k (e.mapNumbers style.value)) := by
  rw [enclose]
  split
  · have hchain : Forms (e.words style) (.chain (e.mapNumbers style.value)) :=
      h.loosen_le (Nat.zero_le _)
    have hprimary : Forms (Symbol.openParen.word :: (e.words style ++ [Symbol.closeParen.word]))
        (phraseAt (levelCount + 4) (e.mapNumbers style.value)) :=
      hchain.parentheses.imp fun _ => .atom
    exact hprimary.loosen_le hk
  · next hprecedence => exact h.loosen_le (Nat.le_of_not_lt hprecedence)

theorem Prints.unary {style : Style} {operator : UnaryOperator} (h : Prints style e) :
    Prints style (.unary operator e) := by
  have hunary : Forms (operator.symbol.word :: enclose (levelCount + 3) e (e.words style))
      (.unary (.unary operator (e.mapNumbers style.value))) :=
    (forms_unary (h.fits (by decide))).unary
  exact hunary.imp fun _ => .operand

theorem Prints.binary {style : Style} {operator : BinaryOperator} {e' : Expr}
    (h : Prints style e) (h' : Prints style e') : Prints style (.binary operator e e') := by
  have hlevel : operator.level < levelCount := by cases operator <;> decide
  have hleft := h.fits (k := operator.level + 3) (by omega)
  have hright := h'.fits (k := operator.level + 1 + 3) (by omega)
  rw [phraseAt_operand (Nat.le_of_lt hlevel)] at hleft
  rw [phraseAt_operand hlevel] at hright
  have hbinary := Forms.binary rfl hleft hright
  rw [← phraseAt_operand (Nat.le_of_lt hlevel)] at hbinary
  exact hbinary

end

/-! ## Rows -/

section

variable {style : Style} {es : List Expr}

theorem forms_filterArguments (h : ∀ e ∈ es, Prints style e) :
    Forms (tailWords style .colon 1 es) (.filterArguments (mapNumbersList style.value es)) := by
  induction es with
  | nil => exact .noFilterArguments
  | cons e es ih =>
    obtain ⟨he, hes⟩ := List.forall_mem_cons.mp h
    exact .filterArgument (he.fits (by decide)) (ih hes)

theorem forms_moreArguments (h : ∀ e ∈ es, Prints style e) :
    Forms (tailWords style .comma 0 es) (.moreArguments (mapNumbersList style.value es)) := by
  induction es with
  | nil => exact .noMoreArguments
  | cons e es ih =>
    obtain ⟨he, hes⟩ := List.forall_mem_cons.mp h
    exact .moreArguments (he.fits (by decide)) (ih hes)

theorem forms_arguments (h : ∀ e ∈ es, Prints style e) :
    Forms (tailWords style .comma 0 es).tail (.arguments (mapNumbersList style.value es)) := by
  cases es with
  | nil => exact .noArguments
  | cons e es =>
    obtain ⟨he, hes⟩ := List.forall_mem_cons.mp h
    exact .arguments (he.fits (by decide)) (forms_moreArguments hes)

theorem forms_elements (h : ∀ e ∈ es, Prints style e) :
    Forms (tailWords style .comma 1 es).tail (.elements (mapNumbersList style.value es)) := by
  induction es with
  | nil => exact .noElements
  | cons e es ih =>
    obtain ⟨he, hes⟩ := List.forall_mem_cons.mp h
    have hexpression := he.fits (k := 1) (by decide)
    cases es with
    | nil =>
      rw [tailWords, tailWords, List.tail_cons, List.append_nil]
      exact .lastElement hexpression
    | cons e' es => exact .element hexpression (ih hes)

/-- The words of a property make it up. -/
def PrintsProperty (style : Style) (p : Property Expr) : Prop :=
  Forms (keyWords style p.key ++ Symbol.colon.word :: enclose 1 p.value (p.value.words style))
    (.property ⟨mapNumbersKey style.value p.key, p.value.mapNumbers style.value⟩)

theorem Prints.computed {key value : Expr} (h : Prints style key) (h' : Prints style value) :
    PrintsProperty style ⟨.computed key, value⟩ := by
  have hcomputed := (h.fits (k := 1) (by decide)).computed (h'.fits (k := 1) (by decide))
  simpa [PrintsProperty, keyWords, mapNumbersKey] using hcomputed

theorem forms_properties {ps : List (Property Expr)} (h : ∀ p ∈ ps, PrintsProperty style p) :
    Forms (propertyTailWords style ps).tail
      (.properties (mapNumbersProperties style.value ps)) := by
  induction ps with
  | nil => exact .noProperties
  | cons p ps ih =>
    obtain ⟨hp, hps⟩ := List.forall_mem_cons.mp h
    cases ps with
    | nil =>
      rw [propertyTailWords, propertyTailWords, List.append_nil, List.tail_cons]
      exact .lastProperty hp
    | cons p' ps => exact .property hp (ih hps)

end

/-! ## Expressions -/

mutual

/-- The words of an expression make up the phrase of its precedence. -/
theorem forms_words (style : Style) : ∀ e : Expr, e.Printable → Prints style e
  | .string value, _ => (Forms.string style value).imp fun _ => .atom
  | .number value, _ => (Forms.number style value).imp fun _ => .atom
  | .constant value, _ => (Forms.constant value).imp fun _ => .atom
  | .name name, h => (Forms.name h.1 h.2).imp fun _ => .atom
  | .array elements, h => (forms_elements (forms_list style elements h)).array.imp fun _ => .atom
  | .object properties, h =>
    (forms_properties (forms_propertyList style properties h)).object.imp fun _ => .atom
  | .member object property, h =>
    ((forms_words style object h.1).fits (Nat.le_refl _)).member h.2
  | .index object key, h =>
    ((forms_words style object h.1).fits (Nat.le_refl _)).index
      ((forms_words style key h.2).fits (by decide))
  | .call callee others, h =>
    ((forms_words style callee h.1).fits (Nat.le_refl _)).call
      (forms_arguments (forms_list style others h.2))
  | .filter name input others, h =>
    ((forms_words style input h.2.1).fits (Nat.zero_le _)).filter h.1
      (forms_filterArguments (forms_list style others h.2.2))
  | .unary _ argument, h => (forms_words style argument h).unary
  | .binary _ left right, h => (forms_words style left h.1).binary (forms_words style right h.2)
  | .conditional test consequent alternate, h =>
    ((forms_words style test h.1).fits (by decide)).conditional
      ((forms_words style consequent h.2.1).fits (by decide))
      ((forms_words style alternate h.2.2).fits (by decide))
  | .assignment left right, h =>
    ((forms_words style left h.1).fits (by decide)).assignment
      ((forms_words style right h.2).fits (by decide))

theorem forms_list (style : Style) :
    ∀ es : List Expr, PrintableList es → ∀ e ∈ es, Prints style e
  | [], _ => nofun
  | e :: es, h => List.forall_mem_cons.mpr ⟨forms_words style e h.1, forms_list style es h.2⟩

theorem forms_propertyList (style : Style) :
    ∀ ps : List (Property Expr), PrintableProperties ps → ∀ p ∈ ps, PrintsProperty style p
  | [], _ => nofun
  | ⟨key, value⟩ :: ps, h =>
    List.forall_mem_cons.mpr ⟨forms_property style key value h.1 (forms_words style value h.2.1),
      forms_propertyList style ps h.2.2⟩

theorem forms_property (style : Style) : ∀ (key : PropertyKey Expr) (value : Expr),
    PrintableKey key → Prints style value → PrintsProperty style ⟨key, value⟩
  | .name name, value, h, hvalue => .named h (hvalue.fits (by decide))
  | .string t, value, h, hvalue => .stringKey style t (hvalue.fits (by decide))
  | .number d, value, h, hvalue => .numberKey style d (hvalue.fits (by decide))
  | .computed key, value, h, hvalue => (forms_words style key h).computed hvalue

end

/-! ## Programs -/

/-- The words of expressions with semicolons between them. -/
def programWords (style : Style) : Program → List Word
  | [] => []
  | [e] => e.words style
  | e :: body => e.words style ++ Symbol.semicolon.word :: programWords style body

theorem forms_programWords (style : Style) {body : Program} (h : ∀ e ∈ body, e.Printable) :
    Forms (programWords style body) (.program (body.map (Expr.mapNumbers style.value))) := by
  have hchain {e : Expr} (he : e.Printable) :
      Forms (e.words style) (.chain (e.mapNumbers style.value)) :=
    (forms_words style e he).loosen_le (Nat.zero_le _)
  induction body with
  | nil => exact .noStatement
  | cons e body ih =>
    obtain ⟨he, hbody⟩ := List.forall_mem_cons.mp h
    cases body with
    | nil => exact .lastStatement (hchain he)
    | cons e' body => exact .statementMore (hchain he) (ih hbody)

/-! ## Text -/

section

variable {ws us : List Word} {t : Text}

/-- Spaces before a text add no words. -/
theorem TokenizesAs.spaces (h : TokenizesAs t ws) (n : Nat) :
    TokenizesAs (List.replicate n (CodePoint.ofChar ' ') ++ t) ws := by
  induction n with
  | zero => exact h
  | succ n ih => exact ih.blank rfl

/-- Words with spaces between them add themselves. -/
theorem TokenizesAs.spaced (hws : ∀ w ∈ ws, w.Reads) (ht : t.EndsWord) (h : TokenizesAs t us) :
    TokenizesAs (spaced ws ++ t) (ws ++ us) := by
  induction ws with
  | nil => exact h
  | cons w ws ih =>
    obtain ⟨hw, hws⟩ := List.forall_mem_cons.mp hws
    cases ws with
    | nil => exact .word hw ht h
    | cons w' ws =>
      have hrest : TokenizesAs (' ' :: (Expression.spaced (w' :: ws) ++ t)) (w' :: ws ++ us) :=
        .blank rfl (ih hws)
      have hspaced := TokenizesAs.word hw (t := ' ' :: _) (.inl rfl) hrest
      simpa [Expression.spaced, Text.join] using hspaced

/-- A separator is where a word ends. -/
theorem Style.endsWord_separator (style : Style) (t : Text) :
    (style.separator ++ t).EndsWord := by
  rw [separator]
  cases style.spacesBefore with
  | zero => exact .inr rfl
  | succ n => exact .inl rfl

theorem tokenizesAs_print (style : Style) {body : Program}
    (h : ∀ e ∈ body, ∀ w ∈ e.words style, w.Reads) :
    TokenizesAs (style.print body) (programWords style body) := by
  induction body with
  | nil => exact tokenizesAs_nil
  | cons e body ih =>
    obtain ⟨he, hbody⟩ := List.forall_mem_cons.mp h
    cases body with
    | nil =>
      have hspaced := TokenizesAs.spaced he (t := []) trivial tokenizesAs_nil
      rw [List.append_nil, List.append_nil] at hspaced
      exact hspaced
    | cons e' body =>
      have hrest : TokenizesAs (style.separator ++ style.print (e' :: body))
          (Symbol.semicolon.word :: programWords style (e' :: body)) := by
        rw [Style.separator, List.append_assoc]
        exact ((ih hbody).spaces style.spacesAfter).semicolon.spaces style.spacesBefore
      have hspaced := TokenizesAs.spaced he (style.endsWord_separator _) hrest
      rw [← List.append_assoc] at hspaced
      exact hspaced

/-- Parsing undoes printing. The text of a program is read as that program, each of its numbers as
the number of the same double that the numeral says, and as the very same program when the numerals
say the very same numbers. -/
theorem parse_print (style : Style) {body : Program} (h : ∀ e ∈ body, e.Printable) :
    parse (style.print body) = .ok (body.map (Expr.mapNumbers style.value)) ∧
      (style.value = id → parse (style.print body) = .ok body) := by
  have hforms := forms_programWords style h
  have hreads : ∀ e ∈ body, ∀ w ∈ e.words style, w.Reads :=
    fun e he => (forms_words style e (h e he)).reads
  obtain ⟨tokens, htokens, hwords⟩ := tokenizesAs_print style hreads 0
  have hparse : parse (style.print body) = .ok (body.map (Expr.mapNumbers style.value)) :=
    (parse_eq_ok_iff htokens).mpr (hforms.holds tokens hwords)
  refine ⟨hparse, fun hvalue => ?_⟩
  have hid : body.map (Expr.mapNumbers style.value) = body := by
    rw [hvalue, List.map_congr_left fun e _ => e.mapNumbers_id, List.map_id']
  rw [hparse, hid]

end

/-- The assignment of `d` to a conditional, and a product to which a filter is applied. -/
def printedProgram : Program :=
  let name (ch : Char) : Expr := .name [CodePoint.ofChar ch]
  [.assignment (.conditional (name 'a') (name 'b') (name 'c')) (name 'd'),
    .filter (['f'].map CodePoint.ofChar)
      (.binary .multiply (.binary .add (.number ⟨15, -1⟩) (.unary .minus (name 'a')))
        (.string (['q', '\x22', '\\'].map CodePoint.ofChar)))
      [name 'b']]

/-- The text of the two expressions, and what parsing it gives back. -/
theorem parse_print_printedProgram :
    (∀ e ∈ printedProgram, e.Printable) ∧
      Style.plain.print printedProgram = Text.ofString
        "( a ? b : c ) = d ; ( 15e-1 + - a ) * \"q\\\"\\\\\" | f : b" ∧
      parse (Style.plain.print printedProgram) = .ok printedProgram := by
  have hprintable : ∀ e ∈ printedProgram, e.Printable := by
    simp only [printedProgram, List.forall_mem_cons, List.not_mem_nil, false_implies, implies_true,
      Expr.Printable, PrintableList]
    decide
  exact ⟨hprintable, by decide +kernel, (parse_print Style.plain hprintable).2 rfl⟩

end MessageExtraction.Expression
