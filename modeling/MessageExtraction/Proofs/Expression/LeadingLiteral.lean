import MessageExtraction.Expression.Filters
import MessageExtraction.Proofs.Expression.Acceptance
import MessageExtraction.Proofs.Expression.Lexing
import MessageExtraction.Proofs.Expression.QuoteEntities
import MessageExtraction.Proofs.Expression.Quoting
import MessageExtraction.Template.Interpolation

/-!
# Texts that begin with a translated literal

A text may begin with a quoted literal that is piped into the filter `translate`. If the literal is
plain, so that it ends where it seems to end, and the name of the filter ends where it seems to end,
then the first three tokens of the text are the literal, the bar and the name. If the text is a
program, whatever else it holds, the literal is one of its messages.

## Main definitions

* `IsPlain` -- nothing in a body ends it early or means something else.
* `BeginsTranslated` -- a text begins with a translated literal.

## Main results

* `mem_messagesIn_of_beginsTranslated` -- the literal that a program begins with is a message.
-/

namespace MessageExtraction.Expression

open Template (literalMarks)

/-- Between marks of any kind a body stands for itself: it holds no mark, no backslash and no
entity. -/
def IsPlain (body : Text) : Prop :=
  ∀ c ∈ body, c.isAny ['\x27', '\x22', '\\', '&'] = false

/-- A name that comes before a text ends there. -/
def EndsName (t : Text) : Prop :=
  ∀ c ∈ t.head?, continuesName c = false

/-- A text begins with a plain literal, a bar and the name `translate`, which ends there. Blanks may
stand before each of them. -/
def BeginsTranslated (body t : Text) : Prop :=
  ∃ lead mark beforeBar beforeName rest : Text,
    lead.isBlank ∧ mark ∈ literalMarks ∧ IsPlain body ∧ beforeBar.isBlank ∧ beforeName.isBlank ∧
      EndsName rest ∧
      t = lead ++ mark ++ body ++ mark ++ beforeBar ++ Text.ofChar '|' ++ beforeName ++
        translateFilter ++ rest

section

variable {mark : CodePoint} {body t u : Text} {ws : List Word}

/-! ## Entities -/

theorem ne_of_isPlain (h : IsPlain body) {c : CodePoint} (hc : c ∈ body) {ch : Char}
    (hch : ch ∈ ['\x27', '\x22', '\\', '&']) : c ≠ CodePoint.ofChar ch := by
  intro heq
  have hany : c.isAny ['\x27', '\x22', '\\', '&'] = true :=
    List.any_eq_true.mpr ⟨ch, hch, CodePoint.is_iff.mpr heq⟩
  rw [h c hc] at hany
  cases hany

theorem restoreQuotes_append_of_blank (h : t.isBlank) (u : Text) :
    restoreQuotes (t ++ u) = t ++ restoreQuotes u := by
  refine restoreQuotes_append (fun hmem => ?_) u
  have hblank : (CodePoint.ofChar '&').isBlank = true := List.all_eq_true.mp h _ hmem
  cases hblank

/-- Every mark is restored to a quotation mark. -/
theorem exists_restoreQuotes_mark {mark : Text} (h : mark ∈ literalMarks) :
    ∃ c : CodePoint, IsMark c ∧ ∀ u, restoreQuotes (mark ++ u) = c :: restoreQuotes u := by
  simp only [literalMarks, List.map_cons, List.map_nil, List.mem_cons, List.not_mem_nil,
    or_false] at h
  rcases h with rfl | rfl | rfl | rfl
  · exact ⟨'\x27', .inl rfl, fun u => restoreQuotes_append (by decide) u⟩
  · exact ⟨'\x22', .inr rfl, fun u => restoreQuotes_append (by decide) u⟩
  · exact ⟨'\x22', .inr rfl, fun u => restoreQuotes_entity List.mem_cons_self u⟩
  · exact ⟨'\x22', .inr rfl, fun u =>
      restoreQuotes_entity (List.mem_cons_of_mem _ List.mem_cons_self) u⟩

/-- A name still ends where it did when entities are restored. -/
theorem EndsName.replaceAll (h : EndsName t) (pattern : Text) :
    EndsName (t.replaceAll pattern ['\x22']) := by
  cases t with
  | nil => exact h
  | cons c t =>
    rw [Text.replaceAll_cons]
    split
    · rintro d hd
      cases hd
      rfl
    · exact h

theorem EndsName.restoreQuotes (h : EndsName t) : EndsName (restoreQuotes t) := by
  simp only [Expression.restoreQuotes, quoteEntities, List.foldl_cons, List.foldl_nil]
  exact (h.replaceAll _).replaceAll _

/-! ## The first tokens -/

theorem quotes_of_isPlain (hmark : IsMark mark) (h : IsPlain body) : Quotes mark body body := by
  induction body with
  | nil => exact .nil
  | cons c body ih =>
    have hne {ch : Char} (hch : ch ∈ ['\x27', '\x22', '\\', '&']) : c ≠ CodePoint.ofChar ch :=
      ne_of_isPlain h (List.mem_cons_self ..) hch
    refine .plain ?_ (hne (by decide)) (ih fun d hd => h d (List.mem_cons_of_mem c hd))
    rcases hmark with rfl | rfl
    · exact hne (by decide)
    · exact hne (by decide)

/-- A quoted literal is read as a string whatever comes after it. -/
theorem lexeme?_quoted (hmark : IsMark mark) (h : IsPlain body) (t : Text) :
    lexeme? (mark :: ((body ++ [mark]) ++ t)) =
      some (.string body, (body ++ [mark]).length + 1) := by
  have hquotes := quotes_of_isPlain hmark h
  simp [lexeme?_of_isMark hmark, (hquotes.isBody hmark).quotedBody_eq hmark, hquotes.unescape_eq]

/-- A bar is a symbol of its own unless another bar follows. -/
theorem lexeme?_bar (h : ∀ c ∈ t.head?, c ≠ '|') :
    lexeme? ('|' :: t) = some (.symbol .pipe, 1) := by
  have hscan : Symbol.scan ('|' :: t) = some .pipe := by
    cases t with
    | nil => rfl
    | cons c t =>
      have hne : CodePoint.ofChar '|' ≠ c := fun heq => h c rfl heq.symm
      have htwo : Text.startsWith ('|' :: c :: t) Symbol.or.text = false := by
        rw [Text.startsWith, Symbol.text, Symbol.spelling, List.map_cons, List.map_cons,
          Text.after?, if_pos rfl, Text.after?, if_neg hne]
        rfl
      simp only [Symbol.scan, Symbol.all, List.find?_cons, htwo]
      rfl
  have hdecimal : Decimal.scan ('|' :: t) = none := rfl
  rw [lexeme?, hdecimal, hscan]
  rfl

/-- The name of the filter is read as that name where a name can end. -/
theorem lexeme?_translate (h : EndsName t) :
    lexeme? (translateFilter ++ t) = some (.name, translateFilter.length) := by
  have htake : (t.takeWhile continuesName) = [] := by
    cases t with
    | nil => rfl
    | cons c t => rw [List.takeWhile_cons, h c rfl]; rfl
  have hall : ∀ c ∈ translateFilter.tail, continuesName c = true := by decide
  have hname : (translateFilter.tail ++ t).takeWhile continuesName = translateFilter.tail := by
    rw [List.takeWhile_append_of_pos hall, htake, List.append_nil]
  have hdecimal : Decimal.scan (translateFilter ++ t) = none := rfl
  have hcons : translateFilter ++ t = CodePoint.ofChar 't' :: (translateFilter.tail ++ t) := rfl
  rw [hcons] at hdecimal ⊢
  rw [lexeme?, hdecimal, hname]
  rfl

/-- If a text has tokens at all, they begin with the given words. -/
def OpensWith (ws : List Word) (t : Text) : Prop :=
  ∀ index tokens, tokenizeFrom index t = .ok tokens → ∃ us, tokens.map Token.word = ws ++ us

theorem opensWith_nil (t : Text) : OpensWith [] t :=
  fun _ tokens _ => ⟨tokens.map Token.word, rfl⟩

theorem OpensWith.blanks (hu : u.isBlank) (h : OpensWith ws t) : OpensWith ws (u ++ t) := by
  induction u with
  | nil => exact h
  | cons c u ih =>
    obtain ⟨hc, hu⟩ := Bool.and_eq_true_iff.mp hu
    intro index tokens htokens
    rw [List.cons_append, tokenizeFrom, if_pos hc] at htokens
    exact ih hu _ tokens htokens

theorem OpensWith.lexeme {c : CodePoint} {l : Lexeme}
    (hl : lexeme? (c :: (u ++ t)) = some (l, u.length + 1)) (h : OpensWith ws t) :
    OpensWith (⟨l, c :: u⟩ :: ws) (c :: (u ++ t)) := by
  intro index tokens htokens
  have hblank : ¬c.isBlank := by
    intro hc
    rw [lexeme?_of_isBlank hc] at hl
    cases hl
  rw [tokenizeFrom, if_neg hblank, hl] at htokens
  simp only [Nat.add_sub_cancel, List.drop_left, List.take_succ_cons, List.take_left] at htokens
  cases hrest : tokenizeFrom (index + (u.length + 1)) t with
  | error stray =>
    rw [hrest] at htokens
    cases htokens
  | ok others =>
    rw [hrest] at htokens
    cases htokens
    obtain ⟨us, hus⟩ := h _ others hrest
    exact ⟨us, congrArg (_ :: ·) hus⟩

/-- The first tokens of a text that begins with a translated literal. -/
theorem opensWith_of_beginsTranslated (h : BeginsTranslated body t) :
    ∃ text : Text, OpensWith [⟨.string body, text⟩, ⟨.symbol .pipe, Symbol.pipe.text⟩,
      ⟨.name, translateFilter⟩] (restoreQuotes t) := by
  obtain ⟨lead, mark, beforeBar, beforeName, rest, hlead, hmark, hbody, hbar, hname, hrest,
    rfl⟩ := h
  obtain ⟨c, hc, hrestore⟩ := exists_restoreQuotes_mark hmark
  have hplain : CodePoint.ofChar '&' ∉ body := fun hmem => ne_of_isPlain hbody hmem (by decide) rfl
  -- no blank is a bar, nor is the first letter of the name
  have hhead : ∀ d ∈ (beforeName ++ (translateFilter ++ restoreQuotes rest)).head?, d ≠ '|' := by
    intro d hd heq
    subst heq
    cases beforeName with
    | nil => exact absurd hd (by simp [translateFilter, CodePoint.ofChar])
    | cons b beforeName =>
      cases hd
      exact absurd (List.all_eq_true.mp hname _ (List.mem_cons_self ..)) (by decide)
  have htext : restoreQuotes (lead ++ mark ++ body ++ mark ++ beforeBar ++ Text.ofChar '|' ++
      beforeName ++ translateFilter ++ rest) =
      lead ++ (c :: ((body ++ [c]) ++ (beforeBar ++ CodePoint.ofChar '|' :: ([] ++
        (beforeName ++ (translateFilter ++ restoreQuotes rest)))))) := by
    simp only [List.append_assoc]
    rw [restoreQuotes_append_of_blank hlead, hrestore, restoreQuotes_append hplain, hrestore,
      restoreQuotes_append_of_blank hbar, restoreQuotes_append (by decide),
      restoreQuotes_append_of_blank hname, restoreQuotes_append (by decide)]
    rfl
  rw [htext]
  refine ⟨_, .blanks hlead (.lexeme (lexeme?_quoted hc hbody _) (.blanks hbar
    (.lexeme (lexeme?_bar hhead) (.blanks hname ?_))))⟩
  exact .lexeme (u := translateFilter.tail) (lexeme?_translate hrest.restoreQuotes)
    (opensWith_nil _)

end

/-! ## Messages -/

section

variable {n : Nat} {left e : Expr} {tokens ts rest : List Token} {tx ty : Text} {i j k : Nat}
  {value : Text} {body : Program}

/-- An atom is an operand of every level. -/
theorem expression_of_atom {r : Reading} (h : Derives r ts (.atom e)) :
    Derives r ts (.expression e) := by
  have hoperand : ∀ m, Derives r ts (.operand (levelCount - m) e) := by
    intro m
    induction m with
    | zero => exact .operand (.primary (.atom h))
    | succ m ih =>
      by_cases hm : m < levelCount
      · refine .tighter (by omega) ?_
        rwa [show levelCount - (m + 1) + 1 = levelCount - m by omega]
      · rwa [show levelCount - (m + 1) = levelCount - m by omega]
  exact .expression (.ternary (Nat.sub_self levelCount ▸ hoperand levelCount))

/-- Further filters keep the findings of what they are applied to. -/
theorem findings_subset_of_filters (h : filters n left tokens = .ok (e, rest)) :
    left.findings ⊆ e.findings := by
  induction n generalizing left tokens with
  | zero => cases h
  | succ n ih =>
    rw [filters] at h
    split at h
    · split at h
      · next name _ others _ =>
        obtain ⟨⟨es, us⟩, -, hfilters⟩ := bind_eq_ok_iff.mp h
        refine List.Subset.trans (fun f hf => ?_) (ih hfilters)
        rw [Expr.findings]
        exact List.mem_append_left _ (List.mem_append_right _ hf)
      · cases h
    · cases h
      exact List.Subset.refl _

/-- The chain at the front of tokens that begin with a translated literal has it among its
findings. -/
theorem message_mem_findings_of_chain (hn : 16 * (ts.length + 3) + 13 ≤ n)
    (h : chain n (⟨.string value, tx, i⟩ :: ⟨.symbol .pipe, ty, j⟩ ::
      ⟨.name, translateFilter, k⟩ :: ts) = .ok (e, rest)) :
    .message value ∈ e.findings := by
  obtain ⟨m, rfl⟩ : ∃ m, n = m + 2 := ⟨n - 2, by omega⟩
  have hstring : Derives .innermost [⟨.string value, tx, i⟩] (.expression (.string value)) :=
    expression_of_atom .string
  have hbar : Settles 3 (⟨.symbol .pipe, ty, j⟩ :: ⟨.name, translateFilter, k⟩ :: ts) :=
    Nat.lt_succ_of_lt (Nat.lt_succ_self 1)
  have hexpression := hstring.completes _ hbar (m + 1) (by simp; omega)
  rw [List.singleton_append] at hexpression
  rw [chain, hexpression, ok_bind] at h
  dsimp only at h
  rw [filters, if_pos nextIs_cons_self] at h
  obtain ⟨⟨es, us⟩, -, hothers⟩ := bind_eq_ok_iff.mp h
  refine findings_subset_of_filters hothers ?_
  simp [Expr.findings, Expr.asFinding]

/-- A program whose tokens begin with a translated literal has it among its findings. -/
theorem message_mem_listFindings_of_program
    (h : tokens = ⟨.string value, tx, i⟩ :: ⟨.symbol .pipe, ty, j⟩ ::
      ⟨.name, translateFilter, k⟩ :: ts) (hp : program (stepsFor tokens) tokens = .ok body) :
    .message value ∈ listFindings body := by
  obtain ⟨⟨found, us⟩, hstatements, hend⟩ := bind_eq_ok_iff.mp hp
  cases us with
  | cons => cases hend
  | nil =>
  cases hend
  have hsteps : stepsFor tokens = 16 * (ts.length + 3) + 15 + 1 := by
    rw [h, stepsFor]
    simp only [List.length_cons]
    omega
  rw [hsteps, statements] at hstatements
  obtain ⟨⟨first, us⟩, hstatement, hrest⟩ := bind_eq_ok_iff.mp hstatements
  rw [statement, h, if_pos (by rfl)] at hstatement
  obtain ⟨⟨e, us'⟩, hchain, heq⟩ := bind_eq_ok_iff.mp hstatement
  cases heq
  have hmem := message_mem_findings_of_chain (by omega) hchain
  dsimp only at hrest
  split at hrest
  · obtain ⟨⟨others, us'⟩, -, heq⟩ := bind_eq_ok_iff.mp hrest
    cases heq
    exact List.mem_append_left _ hmem
  · cases hrest
    exact List.mem_append_left _ hmem

end

/-- If a program begins with a translated literal, the literal is a message. -/
theorem mem_messagesIn_of_beginsTranslated {body source : Text} {statements : Program}
    (h : BeginsTranslated body source) (hp : parse (restoreQuotes source) = .ok statements) :
    body ∈ messagesIn source := by
  rw [messagesIn, findingsIn, hp]
  cases htokens : tokenize (restoreQuotes source) with
  | error stray =>
    rw [parse, htokens] at hp
    cases hp
  | ok tokens =>
    obtain ⟨text, hopens⟩ := opensWith_of_beginsTranslated h
    obtain ⟨us, hwords⟩ := hopens 0 tokens htokens
    simp only [List.cons_append, List.nil_append, List.map_eq_cons_iff] at hwords
    obtain ⟨t₁, ts₁, rfl, ht₁, t₂, ts₂, rfl, ht₂, t₃, ts₃, rfl, ht₃, -⟩ := hwords
    obtain ⟨_, _, _⟩ := t₁
    obtain ⟨_, _, _⟩ := t₂
    obtain ⟨_, _, _⟩ := t₃
    cases ht₁
    cases ht₂
    cases ht₃
    exact List.mem_filterMap.mpr ⟨.message body,
      message_mem_listFindings_of_program rfl (program_of_parse htokens hp), rfl⟩

end MessageExtraction.Expression
