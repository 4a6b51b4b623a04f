import MessageExtraction.Proofs.Expression.Follow

/-!
# What the parser returns has been derived

Every function of the parser takes tokens from the front of a list. What it
takes makes up the phrase that the function is named for, and what it returns
is the syntax that this phrase stands for.

## Main definitions

* `Spells` -- tokens, after others that have been read, make up a phrase.
* `SoundAt` -- every function with a number of steps returns what has been derived.

## Main statements

* `soundAt` -- every function with any number of steps returns what has been derived.
* `derives_of_program` -- the tokens of a program make up the program.
-/

namespace MessageExtraction.Expression

/-- The tokens up to the rest, put after those before them, make up a phrase. -/
def Spells (r : Reading) (before ts rest : List Token) (phrase : Phrase) : Prop :=
  ∃ us, ts = us ++ rest ∧ Derives r (before ++ us) phrase

/-- What every function of the parser returns within a number of steps has been derived. A
conditional that it returns as the left side of an assignment stands in parentheses. -/
structure SoundAt (r : Reading) (n : Nat) : Prop where
  chain {ts e rest} : chain n ts = .ok (e, rest) → Spells r [] ts rest (.chain e)
  filters {before left ts e rest} : Derives r before (.chain left) →
    filters n left ts = .ok (e, rest) → Spells r before ts rest (.chain e)
  filterArguments {ts es rest} : filterArguments n ts = .ok (es, rest) →
    Spells r [] ts rest (.filterArguments es)
  expression {ts e rest} : expression n ts = .ok (e, rest) →
    Spells r [] ts rest (.expression e) ∧ ¬nextIs .assign rest
  ternary {ts e rest} : ternary n ts = .ok (e, rest) →
    Spells r [] ts rest (.operand 0 e) ∨ Spells r [] ts rest (.ternary e) ∧ ¬nextIs .assign rest
  operand {level ts e rest} : level ≤ levelCount → operand n level ts = .ok (e, rest) →
    Spells r [] ts rest (.operand level e)
  operators {before level left ts e rest} : level < levelCount →
    Derives r before (.operand level left) → operators n level left ts = .ok (e, rest) →
    Spells r before ts rest (.operand level e)
  unary {ts e rest} : unary n ts = .ok (e, rest) → Spells r [] ts rest (.unary e)
  primary {ts e rest} : primary n ts = .ok (e, rest) → Spells r [] ts rest (.primary e)
  atom {ts e rest} : atom n ts = .ok (e, rest) → Spells r [] ts rest (.atom e)
  suffixes {before left ts e rest} : Derives r before (.primary left) →
    suffixes n left ts = .ok (e, rest) → Spells r before ts rest (.primary e)
  arguments {ts es rest} : arguments n ts = .ok (es, rest) → Spells r [] ts rest (.arguments es)
  argumentTail {ts es rest} : argumentTail n ts = .ok (es, rest) →
    Spells r [] ts rest (.moreArguments es)
  elements {ts es rest} : elements n ts = .ok (es, rest) → Spells r [] ts rest (.elements es)
  properties {ts ps rest} : properties n ts = .ok (ps, rest) → Spells r [] ts rest (.properties ps)
  property {ts p rest} : property n ts = .ok (p, rest) → Spells r [] ts rest (.property p)
  literalProperty {t key ts p rest} : (∀ {us e tx i}, Derives r us (.expression e) →
      Derives r (t :: ⟨.symbol .colon, tx, i⟩ :: us) (.property ⟨key, e⟩)) →
    literalProperty n key ts = .ok (p, rest) → Spells r [] (t :: ts) rest (.property p)

section

variable {r : Reading} {n level : Nat} {before ts rest : List Token} {e left : Expr}
  {es : List Expr} {p : Property Expr} {ps : List (Property Expr)} {key : PropertyKey Expr}

/-- Nothing more has been read. -/
theorem spells_refl {phrase : Phrase} (h : Derives r before phrase) :
    Spells r before rest rest phrase :=
  ⟨[], rfl, by rwa [List.append_nil]⟩

/-! ## Filter chains and expressions -/

theorem spells_chain (ih : SoundAt r n) (h : chain (n + 1) ts = .ok (e, rest)) :
    Spells r [] ts rest (.chain e) := by
  rw [chain] at h
  obtain ⟨⟨left, ts₁⟩, h₁, h₂⟩ := bind_eq_ok_iff.mp h
  obtain ⟨⟨us, rfl, hus⟩, -⟩ := ih.expression h₁
  obtain ⟨vs, rfl, hvs⟩ := ih.filters hus.chain h₂
  exact ⟨us ++ vs, (List.append_assoc ..).symm, hvs⟩

theorem spells_filters (ih : SoundAt r n) (hb : Derives r before (.chain left))
    (h : filters (n + 1) left ts = .ok (e, rest)) : Spells r before ts rest (.chain e) := by
  rw [filters] at h
  split at h
  · next hpipe =>
    obtain ⟨tx, i, us, rfl⟩ := nextIs_iff.mp hpipe
    dsimp only [List.tail_cons] at h
    split at h
    · next name j ts₁ =>
      obtain ⟨⟨es, ts₂⟩, h₁, h₂⟩ := bind_eq_ok_iff.mp h
      obtain ⟨us, rfl, hus⟩ := ih.filterArguments h₁
      obtain ⟨vs, rfl, hvs⟩ := ih.filters (hb.filter hus) h₂
      exact ⟨⟨.symbol .pipe, tx, i⟩ :: ⟨.name, name, j⟩ :: (us ++ vs), by simp, by simpa using hvs⟩
    · cases h
  · cases h
    exact spells_refl hb

theorem spells_filterArguments (ih : SoundAt r n)
    (h : filterArguments (n + 1) ts = .ok (es, rest)) :
    Spells r [] ts rest (.filterArguments es) := by
  rw [filterArguments] at h
  split at h
  · next hcolon =>
    obtain ⟨tx, i, us, rfl⟩ := nextIs_iff.mp hcolon
    obtain ⟨⟨e, ts₁⟩, h₁, h⟩ := bind_eq_ok_iff.mp h
    obtain ⟨⟨es, ts₂⟩, h₂, h⟩ := bind_eq_ok_iff.mp h
    cases h
    obtain ⟨⟨us, rfl, hus⟩, -⟩ := ih.expression h₁
    obtain ⟨vs, rfl, hvs⟩ := ih.filterArguments h₂
    exact ⟨⟨.symbol .colon, tx, i⟩ :: (us ++ vs), by simp, hus.filterArgument hvs⟩
  · cases h
    exact spells_refl .noFilterArguments

theorem spells_expression (ih : SoundAt r n) (h : expression (n + 1) ts = .ok (e, rest)) :
    Spells r [] ts rest (.expression e) ∧ ¬nextIs .assign rest := by
  rw [expression] at h
  obtain ⟨⟨left, ts₁⟩, h₁, h⟩ := bind_eq_ok_iff.mp h
  dsimp only at h
  split at h
  · next hassign =>
    obtain ⟨⟨right, ts₂⟩, h₂, h⟩ := bind_eq_ok_iff.mp h
    cases h
    -- a conditional does not end where `=` follows, so the left side is none
    obtain ⟨us, rfl, hus⟩ := (ih.ternary h₁).resolve_right fun hleft => hleft.2 hassign
    obtain ⟨tx, i, ts, rfl⟩ := nextIs_iff.mp hassign
    obtain ⟨⟨vs, rfl, hvs⟩, hrest⟩ := ih.expression h₂
    exact ⟨⟨us ++ ⟨.symbol .assign, tx, i⟩ :: vs, by simp, .assignment hus.target hvs⟩, hrest⟩
  · next hassign =>
    cases h
    refine ⟨?_, hassign⟩
    rcases ih.ternary h₁ with ⟨us, rfl, hus⟩ | ⟨⟨us, rfl, hus⟩, -⟩
    · exact ⟨us, rfl, hus.ternary.expression⟩
    · exact ⟨us, rfl, hus.expression⟩

theorem spells_ternary (ih : SoundAt r n) (h : ternary (n + 1) ts = .ok (e, rest)) :
    Spells r [] ts rest (.operand 0 e) ∨
      Spells r [] ts rest (.ternary e) ∧ ¬nextIs .assign rest := by
  rw [ternary] at h
  obtain ⟨⟨test, ts₁⟩, h₁, h₂⟩ := bind_eq_ok_iff.mp h
  obtain ⟨us, rfl, hus⟩ := ih.operand (Nat.zero_le _) h₁
  clear h
  dsimp only at h₂
  split at h₂
  · next hquestion =>
    obtain ⟨⟨consequent, ts₂⟩, h₃, h₄⟩ := bind_eq_ok_iff.mp h₂
    obtain ⟨ts₃, h₅, h₆⟩ := bind_eq_ok_iff.mp h₄
    obtain ⟨⟨alternate, ts₄⟩, h₇, h₈⟩ := bind_eq_ok_iff.mp h₆
    cases h₈
    obtain ⟨tx, i, ts, rfl⟩ := nextIs_iff.mp hquestion
    obtain ⟨⟨vs, rfl, hvs⟩, -⟩ := ih.expression h₃
    obtain ⟨ty, j, rfl⟩ := consume_eq_ok h₅
    obtain ⟨⟨ws, rfl, hws⟩, hrest⟩ := ih.expression h₇
    refine .inr ⟨⟨us ++ ⟨.symbol .question, tx, i⟩ :: (vs ++ ⟨.symbol .colon, ty, j⟩ :: ws),
      ?_, ?_⟩, hrest⟩
    · simp
    · exact hus.conditional hvs hws
  · cases h₂
    exact .inl ⟨us, rfl, hus⟩

/-! ## Operators -/

theorem spells_operand (ih : SoundAt r n) (hl : level ≤ levelCount)
    (h : operand (n + 1) level ts = .ok (e, rest)) : Spells r [] ts rest (.operand level e) := by
  rw [operand] at h
  split at h
  · next heq =>
    obtain ⟨us, rfl, hus⟩ := ih.unary h
    exact ⟨us, rfl, heq ▸ hus.operand⟩
  · next hne =>
    have hlt : level < levelCount := Nat.lt_of_le_of_ne hl hne
    obtain ⟨⟨left, ts₁⟩, h₁, h₂⟩ := bind_eq_ok_iff.mp h
    obtain ⟨us, rfl, hus⟩ := ih.operand hlt h₁
    obtain ⟨vs, rfl, hvs⟩ := ih.operators hlt (hus.tighter hlt) h₂
    exact ⟨us ++ vs, (List.append_assoc ..).symm, hvs⟩

theorem spells_operators (ih : SoundAt r n) (hl : level < levelCount)
    (hb : Derives r before (.operand level left))
    (h : operators (n + 1) level left ts = .ok (e, rest)) :
    Spells r before ts rest (.operand level e) := by
  unfold operators at h
  split at h
  · next s tx i ts₁ =>
    split at h
    · next operator hs =>
      obtain rfl := s.eq_of_binary? hs
      split at h
      · next hlevel =>
        obtain ⟨⟨right, ts₂⟩, h₁, h₂⟩ := bind_eq_ok_iff.mp h
        obtain ⟨us, rfl, hus⟩ := ih.operand hl h₁
        obtain ⟨vs, rfl, hvs⟩ := ih.operators hl (hb.binary hlevel hus) h₂
        exact ⟨⟨.symbol operator.symbol, tx, i⟩ :: (us ++ vs), by simp, by simpa using hvs⟩
      · cases h
        exact spells_refl hb
    · cases h
      exact spells_refl hb
  · cases h
    exact spells_refl hb

theorem spells_unary (ih : SoundAt r n) (h : unary (n + 1) ts = .ok (e, rest)) :
    Spells r [] ts rest (.unary e) := by
  have primary {ts : List Token} (h : Expression.primary n ts = .ok (e, rest)) :
      Spells r [] ts rest (.unary e) := by
    obtain ⟨us, rfl, hus⟩ := ih.primary h
    exact ⟨us, rfl, hus.primary⟩
  unfold unary at h
  split at h
  · next s tx i ts₁ =>
    split at h
    · next operator hs =>
      obtain rfl := s.eq_of_unary? hs
      obtain ⟨⟨argument, ts₂⟩, h₁, h⟩ := bind_eq_ok_iff.mp h
      cases h
      obtain ⟨us, rfl, hus⟩ := ih.unary h₁
      exact ⟨⟨.symbol operator.symbol, tx, i⟩ :: us, rfl, hus.unary⟩
    · exact primary h
  · exact primary h

/-! ## Atoms and their suffixes -/

theorem spells_primary (ih : SoundAt r n) (h : primary (n + 1) ts = .ok (e, rest)) :
    Spells r [] ts rest (.primary e) := by
  rw [primary] at h
  obtain ⟨⟨first, ts₁⟩, h₁, h₂⟩ := bind_eq_ok_iff.mp h
  obtain ⟨us, rfl, hus⟩ := ih.atom h₁
  obtain ⟨vs, rfl, hvs⟩ := ih.suffixes hus.atom h₂
  exact ⟨us ++ vs, (List.append_assoc ..).symm, hvs⟩

theorem spells_atom (ih : SoundAt r n) (h : atom (n + 1) ts = .ok (e, rest)) :
    Spells r [] ts rest (.atom e) := by
  unfold atom at h
  split at h
  · cases h
  · next value tx i ts₁ =>
    cases h
    exact ⟨[⟨.string value, tx, i⟩], rfl, .string⟩
  · next value tx i ts₁ =>
    cases h
    exact ⟨[⟨.number value, tx, i⟩], rfl, .number⟩
  · next name i ts₁ =>
    refine ⟨[⟨.name, name, i⟩], ?_⟩
    split at h
    · next value hvalue =>
      cases h
      exact ⟨rfl, .constant hvalue⟩
    · next hnone =>
      cases h
      exact ⟨rfl, .name hnone⟩
  · next tx i ts₁ =>
    obtain ⟨⟨inner, ts₂⟩, h₁, h⟩ := bind_eq_ok_iff.mp h
    obtain ⟨ts₃, h₂, h⟩ := bind_eq_ok_iff.mp h
    cases h
    obtain ⟨us, rfl, hus⟩ := ih.chain h₁
    obtain ⟨ty, j, rfl⟩ := consume_eq_ok h₂
    refine ⟨⟨.symbol .openParen, tx, i⟩ :: (us ++ [⟨.symbol .closeParen, ty, j⟩]), by simp, ?_⟩
    exact hus.parentheses
  · next tx i ts₁ =>
    obtain ⟨⟨items, ts₂⟩, h₁, h⟩ := bind_eq_ok_iff.mp h
    obtain ⟨ts₃, h₂, h⟩ := bind_eq_ok_iff.mp h
    cases h
    obtain ⟨us, rfl, hus⟩ := ih.elements h₁
    obtain ⟨ty, j, rfl⟩ := consume_eq_ok h₂
    refine ⟨⟨.symbol .openBracket, tx, i⟩ :: (us ++ [⟨.symbol .closeBracket, ty, j⟩]), by simp, ?_⟩
    exact hus.array
  · next tx i ts₁ =>
    obtain ⟨⟨items, ts₂⟩, h₁, h⟩ := bind_eq_ok_iff.mp h
    obtain ⟨ts₃, h₂, h⟩ := bind_eq_ok_iff.mp h
    cases h
    obtain ⟨us, rfl, hus⟩ := ih.properties h₁
    obtain ⟨ty, j, rfl⟩ := consume_eq_ok h₂
    refine ⟨⟨.symbol .openBrace, tx, i⟩ :: (us ++ [⟨.symbol .closeBrace, ty, j⟩]), by simp, ?_⟩
    exact hus.object
  · cases h

theorem spells_suffixes (ih : SoundAt r n) (hb : Derives r before (.primary left))
    (h : suffixes (n + 1) left ts = .ok (e, rest)) : Spells r before ts rest (.primary e) := by
  rw [suffixes] at h
  split at h
  · next hopen =>
    obtain ⟨tx, i, ts, rfl⟩ := nextIs_iff.mp hopen
    obtain ⟨⟨items, ts₁⟩, h₁, h₂⟩ := bind_eq_ok_iff.mp h
    obtain ⟨ts₂, h₃, h₄⟩ := bind_eq_ok_iff.mp h₂
    obtain ⟨us, rfl, hus⟩ := ih.arguments h₁
    obtain ⟨ty, j, rfl⟩ := consume_eq_ok h₃
    obtain ⟨vs, rfl, hvs⟩ := ih.suffixes (hb.call hus) h₄
    exact ⟨⟨.symbol .openParen, tx, i⟩ :: (us ++ ⟨.symbol .closeParen, ty, j⟩ :: vs), by simp,
      by simpa using hvs⟩
  · split at h
    · next hopen =>
      obtain ⟨tx, i, ts, rfl⟩ := nextIs_iff.mp hopen
      obtain ⟨⟨key, ts₁⟩, h₁, h₂⟩ := bind_eq_ok_iff.mp h
      obtain ⟨ts₂, h₃, h₄⟩ := bind_eq_ok_iff.mp h₂
      obtain ⟨⟨us, rfl, hus⟩, -⟩ := ih.expression h₁
      obtain ⟨ty, j, rfl⟩ := consume_eq_ok h₃
      obtain ⟨vs, rfl, hvs⟩ := ih.suffixes (hb.index hus) h₄
      exact ⟨⟨.symbol .openBracket, tx, i⟩ :: (us ++ ⟨.symbol .closeBracket, ty, j⟩ :: vs), by simp,
        by simpa using hvs⟩
    · split at h
      · next hdot =>
        obtain ⟨tx, i, ts, rfl⟩ := nextIs_iff.mp hdot
        dsimp only [List.tail_cons] at h
        split at h
        · next name j ts₁ _ _ =>
          obtain ⟨vs, rfl, hvs⟩ := ih.suffixes hb.member h
          exact ⟨⟨.symbol .dot, tx, i⟩ :: ⟨.name, name, j⟩ :: vs, rfl, by simpa using hvs⟩
        · cases h
      · cases h
        exact spells_refl hb

/-! ## Rows of phrases -/

theorem spells_arguments (ih : SoundAt r n) (h : arguments (n + 1) ts = .ok (es, rest)) :
    Spells r [] ts rest (.arguments es) := by
  rw [arguments] at h
  split at h
  · cases h
    exact spells_refl .noArguments
  · obtain ⟨⟨first, ts₁⟩, h₁, h⟩ := bind_eq_ok_iff.mp h
    obtain ⟨⟨others, ts₂⟩, h₂, h⟩ := bind_eq_ok_iff.mp h
    cases h
    obtain ⟨us, rfl, hus⟩ := ih.chain h₁
    obtain ⟨vs, rfl, hvs⟩ := ih.argumentTail h₂
    exact ⟨us ++ vs, by simp, hus.arguments hvs⟩

theorem spells_argumentTail (ih : SoundAt r n) (h : argumentTail (n + 1) ts = .ok (es, rest)) :
    Spells r [] ts rest (.moreArguments es) := by
  rw [argumentTail] at h
  split at h
  · next hcomma =>
    obtain ⟨tx, i, ts, rfl⟩ := nextIs_iff.mp hcomma
    obtain ⟨⟨argument, ts₁⟩, h₁, h⟩ := bind_eq_ok_iff.mp h
    obtain ⟨⟨others, ts₂⟩, h₂, h⟩ := bind_eq_ok_iff.mp h
    cases h
    obtain ⟨us, rfl, hus⟩ := ih.chain h₁
    obtain ⟨vs, rfl, hvs⟩ := ih.argumentTail h₂
    exact ⟨⟨.symbol .comma, tx, i⟩ :: (us ++ vs), by simp, hus.moreArguments hvs⟩
  · cases h
    exact spells_refl .noMoreArguments

theorem spells_elements (ih : SoundAt r n) (h : elements (n + 1) ts = .ok (es, rest)) :
    Spells r [] ts rest (.elements es) := by
  rw [elements] at h
  split at h
  · cases h
    exact spells_refl .noElements
  · obtain ⟨⟨item, ts₁⟩, h₁, h₂⟩ := bind_eq_ok_iff.mp h
    clear h
    obtain ⟨⟨us, rfl, hus⟩, -⟩ := ih.expression h₁
    dsimp only at h₂
    split at h₂
    · next hcomma =>
      obtain ⟨⟨items, ts₂⟩, h₃, h₄⟩ := bind_eq_ok_iff.mp h₂
      cases h₄
      obtain ⟨tx, i, ts, rfl⟩ := nextIs_iff.mp hcomma
      obtain ⟨vs, rfl, hvs⟩ := ih.elements h₃
      exact ⟨us ++ ⟨.symbol .comma, tx, i⟩ :: vs, by simp, hus.element hvs⟩
    · cases h₂
      exact ⟨us, rfl, hus.lastElement⟩

theorem spells_properties (ih : SoundAt r n) (h : properties (n + 1) ts = .ok (ps, rest)) :
    Spells r [] ts rest (.properties ps) := by
  rw [properties] at h
  split at h
  · cases h
    exact spells_refl .noProperties
  · obtain ⟨⟨item, ts₁⟩, h₁, h₂⟩ := bind_eq_ok_iff.mp h
    clear h
    obtain ⟨us, rfl, hus⟩ := ih.property h₁
    dsimp only at h₂
    split at h₂
    · next hcomma =>
      obtain ⟨⟨items, ts₂⟩, h₃, h₄⟩ := bind_eq_ok_iff.mp h₂
      cases h₄
      obtain ⟨tx, i, ts, rfl⟩ := nextIs_iff.mp hcomma
      obtain ⟨vs, rfl, hvs⟩ := ih.properties h₃
      exact ⟨us ++ ⟨.symbol .comma, tx, i⟩ :: vs, by simp, hus.property hvs⟩
    · cases h₂
      exact ⟨us, rfl, hus.lastProperty⟩

theorem spells_literalProperty (ih : SoundAt r n) {key : PropertyKey Expr}
    {t : Token} (hkey : ∀ {us e tx i}, Derives r us (.expression e) →
      Derives r (t :: ⟨.symbol .colon, tx, i⟩ :: us) (.property ⟨key, e⟩))
    (h : literalProperty (n + 1) key ts = .ok (p, rest)) :
    Spells r [] (t :: ts) rest (.property p) := by
  rw [literalProperty] at h
  split at h
  · next hcolon =>
    obtain ⟨tx, i, ts, rfl⟩ := nextIs_iff.mp hcolon
    obtain ⟨⟨value, ts₁⟩, h₁, h⟩ := bind_eq_ok_iff.mp h
    cases h
    obtain ⟨⟨us, rfl, hus⟩, -⟩ := ih.expression h₁
    exact ⟨t :: ⟨.symbol .colon, tx, i⟩ :: us, rfl, hkey hus⟩
  · cases h

theorem spells_property (ih : SoundAt r n) (h : property (n + 1) ts = .ok (p, rest)) :
    Spells r [] ts rest (.property p) := by
  unfold property at h
  split at h
  · next tx i ts₁ =>
    obtain ⟨⟨key, ts₂⟩, h₁, h₂⟩ := bind_eq_ok_iff.mp h
    obtain ⟨ts₃, h₃, h₄⟩ := bind_eq_ok_iff.mp h₂
    obtain ⟨ts₄, h₅, h₆⟩ := bind_eq_ok_iff.mp h₄
    obtain ⟨⟨value, ts₅⟩, h₇, h₈⟩ := bind_eq_ok_iff.mp h₆
    cases h₈
    obtain ⟨⟨us, rfl, hus⟩, -⟩ := ih.expression h₁
    obtain ⟨ty, j, rfl⟩ := consume_eq_ok h₃
    obtain ⟨tz, k, rfl⟩ := consume_eq_ok h₅
    obtain ⟨⟨vs, rfl, hvs⟩, -⟩ := ih.expression h₇
    refine ⟨⟨.symbol .openBracket, tx, i⟩ ::
      (us ++ ⟨.symbol .closeBracket, ty, j⟩ :: ⟨.symbol .colon, tz, k⟩ :: vs), by simp, ?_⟩
    exact hus.computed hvs
  · next name i ts₁ =>
    split at h
    · next hcolon =>
      obtain ⟨tx, j, ts, rfl⟩ := nextIs_iff.mp hcolon
      obtain ⟨⟨value, ts₂⟩, h₁, h⟩ := bind_eq_ok_iff.mp h
      cases h
      obtain ⟨⟨us, rfl, hus⟩, -⟩ := ih.expression h₁
      exact ⟨⟨.name, name, i⟩ :: ⟨.symbol .colon, tx, j⟩ :: us, rfl, hus.named⟩
    · cases h
      exact ⟨[⟨.name, name, i⟩], rfl, .shorthand⟩
  · next value tx i ts₁ => exact ih.literalProperty .stringKey h
  · next value tx i ts₁ => exact ih.literalProperty .numberKey h
  · cases h

/-- What the parser returns within any number of steps has been derived. -/
theorem soundAt (r : Reading) (n : Nat) : SoundAt r n := by
  induction n with
  | zero => constructor <;> intros <;> contradiction
  | succ n ih =>
    exact {
      chain := spells_chain ih
      filters := spells_filters ih
      filterArguments := spells_filterArguments ih
      expression := spells_expression ih
      ternary := spells_ternary ih
      operand := spells_operand ih
      operators := spells_operators ih
      unary := spells_unary ih
      primary := spells_primary ih
      atom := spells_atom ih
      suffixes := spells_suffixes ih
      arguments := spells_arguments ih
      argumentTail := spells_argumentTail ih
      elements := spells_elements ih
      properties := spells_properties ih
      property := spells_property ih
      literalProperty := spells_literalProperty ih }

/-! ## Programs -/

theorem spells_statement {body : Program} (h : statement n ts = .ok (body, rest)) :
    Spells r [] ts rest (.statement body) := by
  rw [statement] at h
  split at h
  · obtain ⟨⟨e, ts₁⟩, h₁, h⟩ := bind_eq_ok_iff.mp h
    cases h
    obtain ⟨us, rfl, hus⟩ := (soundAt r n).chain h₁
    exact ⟨us, rfl, hus.statement⟩
  · cases h
    exact spells_refl .noStatement

theorem spells_statements {body : Program} (h : statements n ts = .ok (body, rest)) :
    Spells r [] ts rest (.program body) := by
  induction n generalizing ts body with
  | zero => cases h
  | succ n ih =>
    rw [statements] at h
    obtain ⟨⟨first, ts₁⟩, h₁, h₂⟩ := bind_eq_ok_iff.mp h
    clear h
    obtain ⟨us, rfl, hus⟩ := spells_statement (r := r) h₁
    dsimp only at h₂
    split at h₂
    · next hsemicolon =>
      obtain ⟨⟨others, ts₂⟩, h₃, h₄⟩ := bind_eq_ok_iff.mp h₂
      cases h₄
      obtain ⟨tx, i, ts, rfl⟩ := nextIs_iff.mp hsemicolon
      obtain ⟨vs, rfl, hvs⟩ := ih h₃
      exact ⟨us ++ ⟨.symbol .semicolon, tx, i⟩ :: vs, by simp, hus.statementMore hvs⟩
    · cases h₂
      exact ⟨us, rfl, hus.lastStatement⟩

/-- The tokens of a program make up the program. -/
theorem derives_of_program {body : Program} (h : program n ts = .ok body) :
    Derives r ts (.program body) := by
  rw [program] at h
  obtain ⟨⟨body', rest⟩, h₁, h₂⟩ := bind_eq_ok_iff.mp h
  cases rest with
  | nil =>
    cases h₂
    obtain ⟨us, rfl, hus⟩ := spells_statements (r := r) h₁
    simpa only [List.append_nil, List.nil_append] using hus
  | cons t rest => cases h₂

end

end MessageExtraction.Expression
