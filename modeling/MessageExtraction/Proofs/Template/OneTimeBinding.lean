import Mathlib.Data.List.Infix
import MessageExtraction.Proofs.Expression.LeadingBlanks
import MessageExtraction.Proofs.Template.AttributeValues
import MessageExtraction.Proofs.Template.Interpolations

/-!
# One-time binding

An expression between double braces may be marked for one-time binding. The mark is no part of the
expression, and a value yields the same messages with the mark and without it. There is one
exception. If the expression itself begins with a brace, the value has three opening braces, and
when no message is found in the expression a translated literal may begin at the second one. With
the mark it cannot.

Outside of braces there is no such mark: two colons before an expression are part of the value,
which is then no program and no translated literal, so that it has no messages.

## Main definitions

* `interpolated` -- an expression between double braces.
* `Bindable` -- a text that can be marked for one-time binding.

## Main results

* `expressionMessages_bound` -- the mark changes no message of the expressions.
* `valueMessages_bound` -- when the mark changes no message of a value.
-/

namespace MessageExtraction.Template

open Expression (messagesIn_append_of_blank messagesIn_colon translateFilter)

/-! ## Parts of texts -/

section

variable {p t u : Text}

/-- What has nothing in common with the end of a text stands before the end. -/
theorem prefix_of_prefix_append (h : ∀ c ∈ p, c ∉ u) (hp : p <+: t ++ u) : p <+: t := by
  induction t generalizing p with
  | nil =>
    cases p with
    | nil => exact List.nil_prefix
    | cons c p => exact absurd (hp.subset (List.mem_cons_self ..)) (h c (List.mem_cons_self ..))
  | cons d t ih =>
    cases p with
    | nil => exact List.nil_prefix
    | cons c p =>
      obtain ⟨rfl, htail⟩ := List.cons_prefix_cons.mp hp
      have hrest : ∀ e ∈ p, e ∉ u := fun e he => h e (List.mem_cons_of_mem c he)
      exact List.cons_prefix_cons.mpr ⟨rfl, ih hrest htail⟩

theorem infix_of_infix_append (h : ∀ c ∈ p, c ∉ u) (hp : p <:+: t ++ u) : p <:+: t := by
  induction t with
  | nil =>
    cases p with
    | nil => exact List.nil_infix
    | cons c p => exact absurd (hp.subset (List.mem_cons_self ..)) (h c (List.mem_cons_self ..))
  | cons d t ih =>
    rcases List.infix_cons_iff.mp hp with hbegins | hwithin
    · exact (prefix_of_prefix_append (t := d :: t) h hbegins).isInfix
    · exact List.infix_cons_iff.mpr (.inr (ih hwithin))

/-- What has nothing in common with the start of a text stands after the start. -/
theorem infix_of_infix_append_left (h : ∀ c ∈ p, c ∉ u) (hp : p <:+: u ++ t) : p <:+: t := by
  induction u with
  | nil => exact hp
  | cons d u ih =>
    rcases List.infix_cons_iff.mp hp with hbegins | hwithin
    · cases p with
      | nil => exact List.nil_infix
      | cons c p =>
        obtain ⟨rfl, -⟩ := List.cons_prefix_cons.mp hbegins
        exact absurd (List.mem_cons_self ..) (h c (List.mem_cons_self ..))
    · exact ih (fun c hc hu => h c hc (List.mem_cons_of_mem d hu)) hwithin

end

/-! ## Expressions that are marked -/

/-- The braces of an interpolation. -/
def braces : Delimiters :=
  doubleBraces.delimiters

/-- An expression between double braces. -/
def interpolated (e : Text) : Text :=
  braces.opening ++ e ++ braces.closing

/-- A text on one line that may stand between double braces and has no mark for one-time binding
yet. -/
structure Bindable (e : Text) : Prop where
  oneLine : CodePoint.ofChar '\n' ∉ e
  noOpening : ¬braces.opening <:+: e
  unmarked : ∀ blanks : Text, blanks.isBlank → ¬blanks ++ bindingMark <+: e

/-- A text that begins with neither a blank nor a colon has no mark. -/
theorem Bindable.of_head {e : Text} (hline : CodePoint.ofChar '\n' ∉ e)
    (hopening : ¬braces.opening <:+: e)
    (hhead : ∀ c ∈ e.head?, c.isBlank = false ∧ c ≠ ':') : Bindable e := by
  refine ⟨hline, hopening, fun blanks hblanks ⟨rest, hrest⟩ => ?_⟩
  cases blanks with
  | nil => exact (hhead ':' (hrest ▸ rfl)).2 rfl
  | cons c blanks =>
    have hc := (hhead c (hrest ▸ rfl)).1
    rw [List.all_eq_true.mp hblanks c (List.mem_cons_self ..)] at hc
    cases hc

theorem braces_opening_ne_nil : braces.opening ≠ [] :=
  List.cons_ne_nil _ _

section

variable {e gap value rest t : Text}

theorem not_mem_closing_of_mem_opening : ∀ c ∈ braces.opening, c ∉ braces.closing := by
  decide

theorem not_mem_mark_of_mem_opening : ∀ c ∈ braces.opening, c ∉ bindingMark := by
  decide

/-- No blank and no colon is a closing brace. -/
theorem not_mem_closing_of_mem {blanks : Text} (h : blanks.isBlank) :
    ∀ c ∈ blanks ++ bindingMark, c ∉ braces.closing := by
  have hblank : ∀ c ∈ braces.closing, c.isBlank = false := by decide
  have hmark : ∀ c ∈ bindingMark, c ∉ braces.closing := by decide
  intro c hc hclosing
  rcases List.mem_append.mp hc with hc | hc
  · have hboth := List.all_eq_true.mp h c hc
    rw [hblank c hclosing] at hboth
    cases hboth
  · exact hmark c hc hclosing

/-- After the opening braces of a bindable text none come. -/
theorem Bindable.not_infix_after (h : Bindable e) : ¬braces.opening <:+: e ++ braces.closing :=
  fun hwithin => h.noOpening (infix_of_infix_append not_mem_closing_of_mem_opening hwithin)

/-- A bindable text with the closing braces is not marked. -/
theorem Bindable.not_marked (h : Bindable e) {blanks : Text} (hblanks : blanks.isBlank) :
    ¬blanks ++ bindingMark <+: e ++ braces.closing := fun hbegins =>
  h.unmarked blanks hblanks (prefix_of_prefix_append (not_mem_closing_of_mem hblanks) hbegins)

/-! ### The expression -/

/-- What stands before the nearest closing braces when a text is closed, and what comes after
them. These are not the braces that close the text if it holds some, or ends with one. -/
structure Nearest (e value rest : Text) : Prop where
  oneLine : CodePoint.ofChar '\n' ∉ value
  text_eq : e ++ braces.closing = value ++ (braces.closing ++ rest)
  nearest : ∀ value' rest', e ++ braces.closing = value' ++ (braces.closing ++ rest') →
    value.length ≤ value'.length

/-- On one line there are nearest closing braces. -/
theorem exists_nearest (h : CodePoint.ofChar '\n' ∉ e) : ∃ value rest, Nearest e value rest := by
  have hsome := isSome_closingOffset? h braces.closing []
  rw [List.append_nil] at hsome
  obtain ⟨n, hn⟩ := Option.isSome_iff_exists.mp hsome
  obtain ⟨⟨rest, hrest⟩, hline, hnearest⟩ := of_closingOffset? hn
  rw [List.append_assoc] at hrest
  refine ⟨_, rest, hline, hrest, fun value' rest' hvalue => ?_⟩
  rw [← List.append_assoc] at hvalue
  exact Nat.le_trans (List.length_take_le _ _) (hnearest value' rest' hvalue)

/-- No closing brace is among blanks. -/
theorem exists_of_blank_append {blanks : Text} (hblanks : blanks.isBlank)
    (h : blanks ++ t = value ++ (braces.closing ++ rest)) :
    ∃ others, value = blanks ++ others ∧ t = others ++ (braces.closing ++ rest) := by
  induction blanks generalizing value with
  | nil => exact ⟨value, rfl, h⟩
  | cons c blanks ih =>
    obtain ⟨hc, hblanks⟩ := Bool.and_eq_true_iff.mp hblanks
    cases value with
    | nil =>
      obtain rfl := (List.cons.inj h).1
      cases hc
    | cons d value =>
      obtain ⟨rfl, htail⟩ := List.cons.inj h
      obtain ⟨others, rfl, ht⟩ := ih hblanks htail
      exact ⟨others, rfl, ht⟩

/-- The closing braces nearest to blanks are those nearest to what comes after the blanks. -/
theorem Nearest.append_of_blank (h : Nearest e value rest) {blanks : Text}
    (hblanks : blanks.isBlank) (hline : CodePoint.ofChar '\n' ∉ blanks) :
    Nearest (blanks ++ e) (blanks ++ value) rest := by
  refine ⟨List.not_mem_append hline h.oneLine, ?_, fun value' rest' hvalue => ?_⟩
  · rw [List.append_assoc, h.text_eq, List.append_assoc]
  · rw [List.append_assoc] at hvalue
    obtain ⟨others, rfl, hothers⟩ := exists_of_blank_append hblanks hvalue
    rw [List.length_append, List.length_append]
    exact Nat.add_le_add_left (h.nearest others rest' hothers) _

/-! ### The two ways to write an expression -/

/-- Every text is made up of blanks and a text that does not begin with one. -/
theorem exists_blanks (e : Text) : ∃ blanks core : Text, e = blanks ++ core ∧ blanks.isBlank ∧
    ∀ c ∈ core.head?, c.isBlank = false := by
  refine ⟨e.takeWhile CodePoint.isBlank, e.dropWhile CodePoint.isBlank,
    List.takeWhile_append_dropWhile.symm, List.all_takeWhile, fun c hc => ?_⟩
  have hhead := List.head?_dropWhile_not CodePoint.isBlank e
  rw [Option.mem_def.mp hc] at hhead
  exact hhead

/-- A way to read the interpolation is a way to part what comes after the opening braces. -/
theorem isInterpolation_interpolated_iff : braces.IsInterpolation gap value rest (interpolated e) ↔
    e ++ braces.closing = gap ++ (value ++ (braces.closing ++ rest)) ∧ IsGap gap ∧
      CodePoint.ofChar '\n' ∉ value := by
  have htext : interpolated e = braces.opening ++ gap ++ value ++ braces.closing ++ rest ↔
      e ++ braces.closing = gap ++ (value ++ (braces.closing ++ rest)) := by
    simp only [interpolated, List.append_assoc, List.append_cancel_left_eq]
  rw [← htext]
  exact ⟨fun h => ⟨h.text_eq, h.isGap, h.oneLine⟩, fun ⟨h, hgap, hline⟩ => ⟨h, hgap, hline⟩⟩

/-- Without a mark the blanks are the gap. -/
theorem reads_interpolated {blanks core : Text} (h : Bindable (blanks ++ core))
    (hblanks : blanks.isBlank) (hcore : ∀ c ∈ core.head?, c.isBlank = false)
    (hnearest : Nearest core value rest) :
    braces.Reads blanks value rest (interpolated (blanks ++ core)) := by
  refine ⟨isInterpolation_interpolated_iff.mpr ⟨?_, ⟨blanks, hblanks, .inl rfl⟩, hnearest.oneLine⟩,
    fun gap' value' rest' h' => ?_, fun value' rest' h' => ?_⟩
  · rw [List.append_assoc, hnearest.text_eq]
  · obtain ⟨htext, ⟨blanks', hblanks', rfl | rfl⟩, -⟩ := isInterpolation_interpolated_iff.mp h'
    · have hle := length_le_blankLength hblanks' (value' ++ (braces.closing ++ rest'))
      have hhead : ∀ c ∈ (core ++ braces.closing).head?, c.isBlank = false := by
        cases core with
        | nil => rintro c ⟨⟩; rfl
        | cons c core => exact hcore
      rwa [← htext, List.append_assoc, blankLength_append hblanks hhead] at hle
    · exact absurd ⟨_, htext.symm⟩ (h.not_marked hblanks')
  · have htext := (isInterpolation_interpolated_iff.mp h').1
    rw [List.append_assoc] at htext
    exact hnearest.nearest value' rest' (List.append_cancel_left htext)

/-- With a mark the gap is the mark. -/
theorem reads_interpolated_bound (hnearest : Nearest e value rest) :
    braces.Reads bindingMark value rest (interpolated (bindingMark ++ e)) := by
  have hnil : Text.isBlank [] := rfl
  refine ⟨isInterpolation_interpolated_iff.mpr ⟨?_, ⟨[], hnil, .inr rfl⟩, hnearest.oneLine⟩,
    fun gap' value' rest' h' => ?_, fun value' rest' h' => ?_⟩
  · rw [List.append_assoc, hnearest.text_eq]
  · have hnone {blanks' u : Text} (hblanks' : blanks'.isBlank)
        (heq : bindingMark ++ e ++ braces.closing = blanks' ++ u) : blanks' = [] := by
      have hle := length_le_blankLength hblanks' u
      rw [← heq] at hle
      exact List.eq_nil_of_length_eq_zero (Nat.le_zero.mp hle)
    obtain ⟨htext, ⟨blanks', hblanks', rfl | rfl⟩, -⟩ := isInterpolation_interpolated_iff.mp h'
    · rw [hnone hblanks' htext]
      exact Nat.zero_le _
    · rw [List.append_assoc blanks'] at htext
      rw [hnone hblanks' htext]
      exact Nat.le_refl _
  · have htext := (isInterpolation_interpolated_iff.mp h').1
    rw [List.append_assoc] at htext
    exact hnearest.nearest value' rest' (List.append_cancel_left htext)

/-- What comes after the closing braces holds no opening ones. -/
theorem Nearest.not_infix (hnearest : Nearest e value rest) (h : Bindable e) :
    ¬braces.opening <:+: rest := fun hwithin => by
  refine h.not_infix_after (hwithin.trans ?_)
  rw [hnearest.text_eq, ← List.append_assoc]
  exact (List.suffix_append _ _).isInfix

/-- Between braces a bindable text is one expression, which with the mark may begin with more
blanks. -/
theorem Bindable.exists_expressions (h : Bindable e) : ∃ blanks value : Text, blanks.isBlank ∧
    braces.expressions (interpolated e) = [value] ∧
    braces.expressions (interpolated (bindingMark ++ e)) = [blanks ++ value] := by
  obtain ⟨blanks, core, rfl, hblanks, hcore⟩ := exists_blanks e
  have hline : CodePoint.ofChar '\n' ∉ blanks ∧ CodePoint.ofChar '\n' ∉ core :=
    not_or.mp (mt List.mem_append.mpr h.oneLine)
  obtain ⟨value, rest, hnearest⟩ := exists_nearest hline.2
  have hnearest' := hnearest.append_of_blank hblanks hline.1
  have hrest := hnearest'.not_infix h
  exact ⟨blanks, value, hblanks,
    (reads_interpolated h hblanks hcore hnearest).expressions_eq braces_opening_ne_nil hrest,
    (reads_interpolated_bound hnearest').expressions_eq braces_opening_ne_nil hrest⟩

/-- The mark changes no message of the expressions. -/
theorem expressionMessages_bound (h : Bindable e) :
    expressionMessages braces (interpolated (bindingMark ++ e)) =
      expressionMessages braces (interpolated e) := by
  obtain ⟨blanks, value, hblanks, hexpressions, hbound⟩ := h.exists_expressions
  rw [expressionMessages, expressionMessages, valueExpressions, valueExpressions, hexpressions,
    hbound, List.flatMap_singleton, List.flatMap_singleton, messagesIn_append_of_blank hblanks]

/-! ### The translated literal -/

theorem not_isBare_braces : ¬braces.IsBare := fun h =>
  braces_opening_ne_nil h.1

/-- What may stand before a quotation mark begins with a blank, or with a colon if there are
delimiters. -/
theorem head_of_isLead {d : Delimiters} {lead : Text} (h : d.IsLead lead) :
    ∀ c ∈ lead.head?, c.isBlank = true ∨ ¬d.IsBare ∧ c = ':' := by
  rcases h with hblank | ⟨hbare, first, last, hfirst, -, rfl⟩
  · exact fun c hc => .inl (List.all_eq_true.mp hblank c (List.mem_of_mem_head? hc))
  · cases first with
    | nil => exact fun c hc => .inr ⟨hbare, (Option.some.inj hc).symm⟩
    | cons b first =>
      rintro c ⟨⟩
      exact .inl (List.all_eq_true.mp hfirst _ (List.mem_cons_self ..))

/-- After the opening delimiter a literal begins with a blank, with a colon if there are
delimiters, or with a quotation mark. -/
theorem head_of_isLiteralAt {d : Delimiters} {body : Text} {c : CodePoint}
    (h : d.IsLiteralAt body (d.opening ++ c :: t)) :
    c.isBlank = true ∨ (¬d.IsBare ∧ c = ':') ∨ ∃ mark ∈ literalMarks, mark.head? = some c := by
  obtain ⟨lead, mark, rest, hlead, hmark, -, -, htext⟩ := h
  simp only [List.append_assoc, List.append_cancel_left_eq] at htext
  cases lead with
  | nil =>
    obtain ⟨m, mark, rfl⟩ := List.exists_cons_of_ne_nil (mark_cases hmark).1
    exact .inr (.inr ⟨_, hmark, congrArg some (List.cons.inj htext).1.symm⟩)
  | cons b lead =>
    obtain ⟨rfl, -⟩ := List.cons.inj htext
    exact (head_of_isLead hlead _ rfl).imp_right .inl

/-- After the opening delimiter a literal does not begin with a brace. -/
theorem not_isLiteralAt_of_brace {d : Delimiters} {body : Text} (t : Text) :
    ¬d.IsLiteralAt body (d.opening ++ CodePoint.ofChar '\x7b' :: t) := fun h => by
  have hbrace : ∀ m ∈ literalMarks, m.head? ≠ some '\x7b' := by decide
  rcases head_of_isLiteralAt h with hblank | ⟨-, hcolon⟩ | ⟨mark, hmark, hhead⟩
  · cases hblank
  · exact absurd hcolon (by decide)
  · exact hbrace mark hmark hhead

/-- Without delimiters a literal does not begin with a colon. -/
theorem not_isLiteralAt_bare_of_colon {body : Text} (t : Text) :
    ¬bareDelimiters.IsLiteralAt body (CodePoint.ofChar ':' :: t) := fun h => by
  rcases head_of_isLiteralAt h with hblank | ⟨hbare, -⟩ | ⟨mark, hmark, hhead⟩
  · cases hblank
  · exact hbare ⟨rfl, rfl⟩
  · exact ((mark_cases hmark).2.1 _ hhead).2 rfl

/-- The mark is passed over before a literal. -/
theorem literalAt?_bound (h : Bindable e) :
    (braces.literalAt? 0 (interpolated (bindingMark ++ e))).map (·.1) =
      (braces.literalAt? 0 (interpolated e)).map (·.1) := by
  have hnone : afterBlanks? bindingMark (e ++ braces.closing) = none := by
    refine Option.eq_none_iff_forall_ne_some.mpr fun n hn => ?_
    obtain ⟨blanks, rest, hblanks, htext, -⟩ := afterBlanks?_binding_eq_some_iff.mp hn
    exact h.not_marked hblanks ⟨rest, htext.symm⟩
  have hsome : afterBlanks? bindingMark (bindingMark ++ (e ++ braces.closing)) =
      some bindingMark.length := by
    have hnil : Text.isBlank [] := rfl
    exact afterBlanks?_binding_eq_some_iff.mpr ⟨[], _, hnil, rfl, rfl⟩
  have hlead : (bindingMark ++ (e ++ braces.closing)).drop
      (braces.leadLength (bindingMark ++ (e ++ braces.closing))) =
      (e ++ braces.closing).drop (braces.leadLength (e ++ braces.closing)) := by
    rw [leadLength_of_some not_isBare_braces hsome, leadLength_of_none not_isBare_braces hnone,
      ← List.drop_drop, List.drop_left]
  have hafter (t : Text) : Text.after? braces.opening (braces.opening ++ t) = some t :=
    Text.after?_eq_some.mpr rfl
  have hbare : ¬(braces.opening.isEmpty && braces.closing.isEmpty) = true := by decide
  simp only [literalAt?_eq, interpolated, List.append_assoc, if_neg hbare, hafter, Option.bind_some,
    hlead, Option.map_bind, Function.comp_def, Option.map_some]

/-- An expression between braces begins with two of them. -/
theorem interpolated_eq_cons (e : Text) : interpolated e = CodePoint.ofChar '\x7b' ::
    (CodePoint.ofChar '\x7b' :: (e ++ braces.closing)) :=
  rfl

/-- Where no opening braces come after the first, a literal is found only at these unless one begins
at the second brace. -/
theorem map_literals_interpolated (h : ¬braces.opening <:+: e ++ braces.closing)
    (hbrace : ∀ body,
      ¬braces.IsLiteralAt body (CodePoint.ofChar '\x7b' :: (e ++ braces.closing))) :
    (braces.literals (interpolated e)).map (·.value) =
      ((braces.literalAt? 0 (interpolated e)).map (·.1)).toList := by
  refine map_literals_of_start braces_opening_ne_nil fun first u htext hfirst body hliteral => ?_
  obtain ⟨c, first, rfl⟩ := List.exists_cons_of_ne_nil hfirst
  have htail := (List.cons.inj ((interpolated_eq_cons _).symm.trans htext)).2
  cases first with
  | nil => exact hbrace body (htail ▸ hliteral)
  | cons d first =>
    have hrest := (List.cons.inj htail).2
    exact h (hliteral.begins.isInfix.trans ⟨first, [], (List.append_nil _).trans hrest.symm⟩)

/-- With a mark a literal is found only at the opening braces. -/
theorem map_literals_bound (h : Bindable e) :
    (braces.literals (interpolated (bindingMark ++ e))).map (·.value) =
      ((braces.literalAt? 0 (interpolated e)).map (·.1)).toList := by
  rw [← literalAt?_bound h]
  refine map_literals_interpolated (fun hwithin => ?_) fun body hliteral => ?_
  · rw [List.append_assoc] at hwithin
    exact h.not_infix_after (infix_of_infix_append_left not_mem_mark_of_mem_opening hwithin)
  · exact absurd (List.cons_prefix_cons.mp (List.cons_prefix_cons.mp hliteral.begins).2).1
      (by decide)

/-- Where a literal begins at the second brace none begins at the first. -/
theorem literals_of_isLiteralAt_brace {body : Text}
    (hbrace : braces.IsLiteralAt body (CodePoint.ofChar '\x7b' :: (e ++ braces.closing))) :
    braces.literals (interpolated e) ≠ [] ∧ braces.literalAt? 0 (interpolated e) = none := by
  refine ⟨fun hnil => ?_, Option.eq_none_iff_forall_ne_some.mpr fun ⟨literal, n⟩ hliteral => ?_⟩
  · refine literals_eq_nil_iff.mp hnil body ⟨[CodePoint.ofChar '\x7b'], _, rfl, ?_, hbrace⟩
    exact fun hbare => absurd hbare not_isBare_braces
  · obtain ⟨rest, hrest⟩ := (List.cons_prefix_cons.mp hbrace.begins).2
    have htext : interpolated e = braces.opening ++ CodePoint.ofChar '\x7b' :: rest := by
      rw [interpolated, List.append_assoc, ← hrest]
      rfl
    have hstart := (of_literalAt? hliteral).1
    rw [htext] at hstart
    exact not_isLiteralAt_of_brace rest hstart

/-! ### The messages of a value -/

/-- Values that have no messages of expressions have those of the literals between their braces. -/
theorem valueMessages_interpolated_of_eq_nil (hnil : expressionMessages braces t = [])
    (hexpressions : braces.expressions t ≠ []) :
    valueMessages braces t = ((braces.literals t).map (·.value)).map (·.body) := by
  have hdelimiters : literalDelimiters braces t = braces := by
    rw [literalDelimiters, if_neg (mt List.isEmpty_iff.mp hexpressions)]
  rw [valueMessages_of_eq_nil hnil, hdelimiters, List.map_map]
  rfl

/-- Two colons without braces are no mark, and a value that begins with them has no messages. -/
theorem valueMessages_binding (h : Bindable e) : valueMessages braces (bindingMark ++ e) = [] := by
  have hwithin : ¬braces.opening <:+: bindingMark ++ e := fun hwithin =>
    h.noOpening (infix_of_infix_append_left not_mem_mark_of_mem_opening hwithin)
  have hexpressions := Delimiters.expressions_eq_nil braces_opening_ne_nil hwithin
  have hnil : expressionMessages braces (bindingMark ++ e) = [] := by
    rw [expressionMessages, valueExpressions, hexpressions, List.flatMap_singleton]
    exact messagesIn_colon _
  have hliterals : bareDelimiters.literals (bindingMark ++ e) = [] := by
    refine literals_eq_nil_iff.mpr fun body hheld => ?_
    obtain ⟨first, rest, htext, hbare, hliteral⟩ := hheld
    rw [hbare ⟨rfl, rfl⟩, List.nil_append] at htext
    exact not_isLiteralAt_bare_of_colon _ (htext ▸ hliteral)
  rw [valueMessages_of_eq_nil hnil, literalDelimiters, hexpressions]
  rw [List.isEmpty_nil, if_pos rfl, hliterals, List.map_nil]

/-- Between double braces a mark for one-time binding changes the messages of a value exactly if
the expression has none and a translated literal begins at the second opening brace. So it changes
nothing if the expression does not begin with a brace. Without braces a mark leaves no messages. -/
theorem valueMessages_bound (h : Bindable e) :
    (valueMessages braces (interpolated (bindingMark ++ e)) =
        valueMessages braces (interpolated e) ↔
      expressionMessages braces (interpolated e) ≠ [] ∨
        ∀ body, ¬braces.IsLiteralAt body (CodePoint.ofChar '\x7b' :: (e ++ braces.closing))) ∧
    (e.head? ≠ some '\x7b' →
      valueMessages braces (interpolated (bindingMark ++ e)) =
        valueMessages braces (interpolated e)) ∧
    valueMessages braces (bindingMark ++ e) = [] := by
  have hmain : valueMessages braces (interpolated (bindingMark ++ e)) =
      valueMessages braces (interpolated e) ↔ expressionMessages braces (interpolated e) ≠ [] ∨
        ∀ body, ¬braces.IsLiteralAt body (CodePoint.ofChar '\x7b' :: (e ++ braces.closing)) := by
    have hsame := expressionMessages_bound h
    by_cases hnil : expressionMessages braces (interpolated e) = []
    · obtain ⟨blanks, value, -, hexpressions, hbound⟩ := h.exists_expressions
      rw [valueMessages_interpolated_of_eq_nil hnil (hexpressions ▸ List.cons_ne_nil _ _),
        valueMessages_interpolated_of_eq_nil (hsame.trans hnil) (hbound ▸ List.cons_ne_nil _ _),
        map_literals_bound h]
      refine ⟨fun heq => .inr fun body hbrace => ?_, fun hor => ?_⟩
      · obtain ⟨hfound, hnone⟩ := literals_of_isLiteralAt_brace hbrace
        rw [hnone] at heq
        exact hfound (List.map_eq_nil_iff.mp (List.map_eq_nil_iff.mp heq.symm))
      · rw [map_literals_interpolated h.not_infix_after (hor.resolve_left (not_not_intro hnil))]
    · rw [valueMessages_of_ne_nil hnil, valueMessages_of_ne_nil (hsame ▸ hnil), hsame]
      exact iff_of_true rfl (.inl hnil)
  refine ⟨hmain, fun hhead => hmain.mpr (.inr fun body hbrace => ?_), valueMessages_binding h⟩
  obtain ⟨rest, hrest⟩ := (List.cons_prefix_cons.mp hbrace.begins).2
  cases e with
  | nil => cases hrest
  | cons c e => exact hhead (congrArg some (List.cons.inj hrest).1.symm)

end

/-- The text `{'a' | translate`, which is no program. -/
def bracedTranslate : Text :=
  CodePoint.ofChar '\x7b' :: filteredBy translateFilter

theorem bindable_filteredByTranslate : Bindable (filteredBy translateFilter) :=
  .of_head (by decide) (by decide) (by decide)

theorem bindable_bracedTranslate : Bindable bracedTranslate :=
  .of_head (by decide) (by decide) (by decide)

/-- Between braces `'a' | translate` has the same message with the mark. -/
theorem valueMessages_bound_filteredByTranslate :
    Bindable (filteredBy translateFilter) ∧ (filteredBy translateFilter).head? ≠ some '\x7b' ∧
    valueMessages braces (interpolated (bindingMark ++ filteredBy translateFilter)) =
      valueMessages braces (interpolated (filteredBy translateFilter)) :=
  have hhead : (filteredBy translateFilter).head? ≠ some '\x7b' := by decide
  ⟨bindable_filteredByTranslate, hhead,
    (valueMessages_bound bindable_filteredByTranslate).2.1 hhead⟩

/-- Two colons take its message from `'a' | translate` without braces, and from `{'a' | translate`
between braces. -/
theorem valueMessages_ne_of_marked :
    (Bindable (filteredBy translateFilter) ∧ ¬braces.closing <:+: filteredBy translateFilter ∧
      valueMessages braces (filteredBy translateFilter) = [['a'].map CodePoint.ofChar] ∧
      valueMessages braces (bindingMark ++ filteredBy translateFilter) = []) ∧
    Bindable bracedTranslate ∧ ¬braces.closing <:+: bracedTranslate ∧
      valueMessages braces (interpolated bracedTranslate) = [['a'].map CodePoint.ofChar] ∧
      valueMessages braces (interpolated (bindingMark ++ bracedTranslate)) = [] := by
  have hexpressions : valueExpressions braces (filteredBy translateFilter) =
      [filteredBy translateFilter] := by decide +kernel
  have hfound : expressionMessages braces (filteredBy translateFilter) =
      [['a'].map CodePoint.ofChar] := by
    rw [expressionMessages, hexpressions, List.flatMap_singleton,
      messagesIn_filteredBy (by decide) (by decide), if_pos rfl]
  have hvalue := valueMessages_of_ne_nil (hfound ▸ List.cons_ne_nil _ _)
  exact ⟨⟨bindable_filteredByTranslate, by decide, hvalue.trans hfound,
    valueMessages_binding bindable_filteredByTranslate⟩, bindable_bracedTranslate, by decide,
    by decide +kernel, by decide +kernel⟩

end MessageExtraction.Template
