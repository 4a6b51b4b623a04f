import Mathlib.Data.List.TakeWhile
import MessageExtraction.Proofs.Template.Literals
import MessageExtraction.Proofs.Template.Nesting

/-!
# Documents of white space

A script or a template that is nothing but white space yields nothing, whatever the delimiters of
interpolations are. So it makes no difference that the tree keeps of such a content no more than one
code point.

## Main results

* `Script.scan_of_space`, `Template.scan_of_space` -- scanning white space yields nothing.
-/

namespace MessageExtraction

open Markup

/-- A text is nothing but the white space of documents. -/
def IsSpace (t : Text) : Prop :=
  ∀ c ∈ t, isDocumentSpace c = true

instance (t : Text) : Decidable (IsSpace t) :=
  inferInstanceAs (Decidable (∀ c ∈ t, isDocumentSpace c = true))

theorem IsSpace.of_subset {t u : Text} (h : IsSpace t) (hsub : u ⊆ t) : IsSpace u :=
  fun c hc => h c (hsub hc)

theorem eq_of_isDocumentSpace {c : CodePoint} (h : isDocumentSpace c = true) :
    c = ' ' ∨ c = '\n' ∨ c = '\t' ∨ c = '\x0c' ∨ c = '\r' := by
  simpa [isDocumentSpace, CodePoint.isAny, CodePoint.is_iff] using h

/-- What holds of the five code points holds of white space. -/
theorem IsSpace.all {t : Text} (h : IsSpace t) {p : CodePoint → Prop}
    (hp : p ' ' ∧ p '\n' ∧ p '\t' ∧ p '\x0c' ∧ p '\r') : ∀ c ∈ t, p c := by
  intro c hc
  obtain ⟨hspace, hfeed, htab, hform, hreturn⟩ := hp
  rcases eq_of_isDocumentSpace (h c hc) with rfl | rfl | rfl | rfl | rfl <;> assumption

/-! ## Scripts -/

namespace Script

theorem passGap_of_space (comments : List Tree) (lineEnds : Bool) (row : Nat) {t : Text}
    (h : IsSpace t) : ∃ lineEnds' row', passGap comments lineEnds row t =
      ⟨comments, lineEnds', ⟨[], row'⟩⟩ := by
  induction t generalizing lineEnds row with
  | nil => exact ⟨lineEnds, row, by rw [passGap]⟩
  | cons c t ih =>
    have hseparator : isSeparator c = true :=
      h.all (p := fun c => isSeparator c = true) (by decide +kernel) c (List.mem_cons_self ..)
    rw [passGap, if_pos hseparator]
    exact ih _ _ (h.of_subset (List.subset_cons_self c t))

/-- White space holds no token. -/
theorem start_of_space {t : Text} (h : IsSpace t) :
    (Cursor.start t).kind = .endOfSource ∧ (Cursor.start t).comments = [] ∧
      (Cursor.start t).before.rest = [] := by
  have hplain : Text.startsWith t ['#', '!'] = false := by
    cases t with
    | nil => rfl
    | cons c t =>
      have hne : CodePoint.ofChar '#' ≠ c :=
        h.all (p := fun c => CodePoint.ofChar '#' ≠ c) (by decide) c (List.mem_cons_self ..)
      rw [Text.startsWith, Text.after?, if_neg hne]
      rfl
  obtain ⟨lineEnds, row, hgap⟩ := passGap_of_space [] false 0 h
  simp only [Cursor.start, hplain, Bool.false_eq_true, if_false, Cursor.ofPlace, hgap]
  exact ⟨rfl, rfl, rfl⟩

theorem parse_of_space {t : Text} (h : IsSpace t) : parse t = .node .program [] := by
  obtain ⟨hkind, hcomments, hrest⟩ := start_of_space h
  have hend : (Cursor.start t).atEnd = true := by simp [Cursor.atEnd, hkind]
  have hmarkup : (Cursor.start t).atMarkupComment = false := by
    rw [Cursor.atMarkupComment, hrest]
    decide
  have hsteps : stepsFor t.length = (64 * (t.length + 2) - 1) + 1 := by
    rw [stepsFor]
    omega
  have hstatements : (statements (stepsFor t.length)).run (Cursor.start t) =
      some ([], Cursor.start t) := by
    rw [hsteps, statements]
    simp [operandStart, hmarkup, hend]
  rw [parse, sourceStatements, hstatements]
  simp only [hend, if_true, hcomments]
  rfl

theorem scan_of_space (markers : List Text) (file : Text) (offset : Int) {t : Text}
    (h : IsSpace t) : scan markers file offset t = [] := by
  have hencodable : t.any CodePoint.isSurrogate = false := by
    rw [List.any_eq_false]
    intro c hc
    rw [Bool.not_eq_true]
    exact h.all (p := fun c => c.isSurrogate = false) (by decide) c hc
  rw [scan, hencodable, if_neg Bool.false_ne_true, scanTree, parse_of_space h]
  rfl

end Script

/-! ## Templates -/

namespace Expression

theorem tokenizeFrom_of_space (index : Nat) {t : Text} (h : IsSpace t) :
    tokenizeFrom index t = .ok [] := by
  induction t generalizing index with
  | nil => rw [tokenizeFrom]
  | cons c t ih =>
    have hblank : c.isBlank = true :=
      h.all (p := fun c => c.isBlank = true) (by decide) c (List.mem_cons_self ..)
    rw [tokenizeFrom, if_pos hblank]
    exact ih _ (h.of_subset (List.subset_cons_self c t))

/-- White space is the program of no expressions. -/
theorem parse_of_space {t : Text} (h : IsSpace t) : parse t = .ok [] := by
  rw [parse, tokenize, tokenizeFrom_of_space 0 h]
  rfl

theorem restoreQuotes_of_space {t : Text} (h : IsSpace t) : restoreQuotes t = t := by
  have hmem : CodePoint.ofChar '&' ∉ t := fun hmem =>
    h.all (p := fun c => CodePoint.ofChar '&' ≠ c) (by decide) _ hmem rfl
  rw [restoreQuotes]
  simp only [quoteEntities, List.map_cons, List.foldl_cons, List.foldl_nil,
    Text.replaceAll_of_not_mem hmem]

theorem messagesIn_of_space {t : Text} (h : IsSpace t) : messagesIn t = [] := by
  rw [messagesIn, findingsIn, restoreQuotes_of_space h, parse_of_space h]
  rfl

theorem noticesIn_of_space {t : Text} (h : IsSpace t) : noticesIn t = [] := by
  rw [noticesIn, restoreQuotes_of_space h, parse_of_space h]
  rfl

end Expression

namespace Template

/-- The expressions of a text are parts of it. -/
theorem subset_of_mem_expressions {d : Delimiters} {t e : Text} (h : e ∈ d.expressions t) :
    e ⊆ t := by
  obtain ⟨found, hfound, rfl⟩ := List.mem_map.mp h
  refine of_mem_findFrom (p := fun e => e ⊆ t) (fun nonEmpty _ first u value n hu _ hvalue => ?_)
    found hfound
  obtain ⟨rest, hrest, hvalue⟩ := Option.bind_eq_some_iff.mp hvalue
  obtain ⟨skip, -, hvalue⟩ := List.exists_of_findSome?_eq_some hvalue
  obtain ⟨length, -, heq⟩ := Option.map_eq_some_iff.mp hvalue
  obtain ⟨rfl, -⟩ := Prod.mk.inj heq
  have hsuffix : rest <:+ u := ⟨d.opening, (Text.after?_eq_some.mp hrest).symm⟩
  exact List.Subset.trans (List.take_subset _ _)
    (List.Subset.trans (List.drop_subset _ _) (hsuffix.trans ⟨first, hu.symm⟩).subset)

theorem textEvents_of_space (d : Delimiters) (file : Text) (line : Int) {t : Text} (h : IsSpace t) :
    textEvents d file line t = [] := by
  have hrestore : restoreEntities t = t := restoreEntities_of_not_mem fun hmem =>
    h.all (p := fun c => c ≠ sentinel) (by decide) _ hmem rfl
  rw [textEvents, hrestore, List.flatMap_eq_nil_iff]
  intro e he
  have hblank := h.of_subset (subset_of_mem_expressions he)
  rw [expressionEvents, Expression.noticesIn_of_space hblank, Expression.messagesIn_of_space hblank]
  rfl

theorem isSpace_shrink {t : Text} (h : IsSpace t) (preserved : Bool) :
    IsSpace (shrink preserved t) := by
  rw [shrink]
  split
  · exact h
  · split <;> exact fun c hc => by
      obtain rfl := List.mem_singleton.mp hc
      decide

/-- What is more than white space does not shrink. -/
theorem shrink_of_not_isSpace {t : Text} (h : ¬ IsSpace t) (preserved : Bool) :
    shrink preserved t = t := by
  have hall : t.all isDocumentSpace = false := by
    rw [← Bool.not_eq_true, List.all_eq_true]
    exact h
  rw [shrink, hall, Bool.not_false, Bool.or_true, if_pos rfl]

theorem isSpace_of_protectEntities {t : Text} (h : IsSpace (protectEntities t)) : IsSpace t := by
  intro c hc
  have hspace := h _ (List.mem_map_of_mem hc)
  split at hspace
  · exact absurd hspace (by decide)
  · exact hspace

/-- White space is a document of one text. -/
theorem parse?_of_space {t : Text} (h : IsSpace t) :
    parse? (protectEntities t) = some (if t.isEmpty then [] else [.text (shrink false t)]) := by
  have hprotect : protectEntities t = t :=
    protectEntities_of_plain (h.all (p := fun c => c.is '&' = false) (by decide))
  rw [hprotect]
  cases t with
  | nil => rw [parse?, read?, readFrom?]; rfl
  | cons c t =>
    have hplain : ∀ d ∈ c :: t, d.is '<' = false :=
      h.all (p := fun c => c.is '<' = false) (by decide)
    have htake : (t.takeWhile fun c => !c.is '<') = t :=
      List.takeWhile_eq_self_iff.mpr fun d hd => by
        rw [hplain d (List.mem_cons_of_mem c hd)]
        rfl
    rw [parse?, read?, readFrom?, readNext_of_ne_lt (hplain c (List.mem_cons_self ..)), htake]
    simp only [Nat.add_sub_cancel, List.drop_length]
    rw [readFrom?]
    rfl

theorem scan_of_space (s : Setting) (file : Text) (offset : Int) {t : Text} (h : IsSpace t) :
    scan s file offset t = [] := by
  rw [scan_eq, parse?_of_space h]
  dsimp only
  split
  · rfl
  · simp only [nodesEvents, textsWithLines, List.flatMap_cons, List.flatMap_nil,
      textEvents_of_space s.delimiters file _ (isSpace_shrink h false), elementsOfNodes,
      elementsOfNode, List.append_nil]

end Template

end MessageExtraction
