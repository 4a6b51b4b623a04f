import MessageExtraction.Proofs.Expression.Lexicon
import MessageExtraction.Proofs.Expression.RoundTrip

/-!
# Cutting a text into words

The tokens of a text follow each other, each is the longest word that begins where it stands, and
what no token covers is blank. Where the text cannot be cut to its end, this holds up to a code
point that is no blank and begins no word. Written out with a space between them the tokens are read
as the same words.

## Main definitions

* `Cuts` -- a stretch of a text is cut into tokens.
* `IsStray` -- where neither a word nor a blank begins.

## Main results

* `cutsFrom_tokenizeFrom` -- how a text is cut from an offset on.
* `tokenize_cuts` -- how a text is cut.
-/

namespace MessageExtraction.Expression

/-- A token covers the offset of every code point of its text. -/
def Token.Covers (token : Token) (i : Nat) : Prop :=
  token.index ≤ i ∧ i < token.index + token.text.length

/-- The stretch of a text between two offsets is cut into tokens. -/
structure Cuts (source : Text) (start stop : Nat) (tokens : List Token) : Prop where
  start_le : start ≤ stop
  stop_le : stop ≤ source.length
  ascending : tokens.Pairwise fun a b => a.index < b.index ∧ a.index + a.text.length ≤ b.index
  within : ∀ token ∈ tokens, start ≤ token.index ∧ token.index + token.text.length ≤ stop
  slice : ∀ token ∈ tokens, (source.drop token.index).take token.text.length = token.text
  longest : ∀ token ∈ tokens, token.word.Heads (source.drop token.index)
  blank : ∀ i c, start ≤ i → i < stop → source[i]? = some c →
    (∀ token ∈ tokens, ¬ token.Covers i) → c.isBlank = true

/-- Neither a blank nor a word begins at the offset of a code point. -/
structure IsStray (source : Text) (stray : StrayCodePoint) : Prop where
  stands : source[stray.index]? = some stray.point
  notBlank : stray.point.isBlank = false
  noWord : ∀ w : Word, w.InLexicon → ¬ w.text <+: source.drop stray.index

/-- A text is cut into tokens from an offset to its end, or to a stray code point. -/
def CutsFrom (source : Text) (start : Nat) : Except StrayCodePoint (List Token) → Prop
  | .ok tokens => Cuts source start source.length tokens
  | .error stray => IsStray source stray ∧ ∃ tokens, Cuts source start stray.index tokens

section

variable {source t : Text} {start stop index : Nat} {c : CodePoint} {token : Token}
  {tokens : List Token} {result : Except StrayCodePoint (List Token)}

theorem cuts_nil (h : start ≤ source.length) : Cuts source start start [] where
  start_le := Nat.le_refl start
  stop_le := h
  ascending := .nil
  within := nofun
  slice := nofun
  longest := nofun
  blank _ _ hle hlt := absurd hlt (Nat.not_lt.mpr hle)

/-- A blank may come before what is cut. -/
theorem Cuts.blankBefore (h : Cuts source (start + 1) stop tokens) (hc : source[start]? = some c)
    (hblank : c.isBlank = true) : Cuts source start stop tokens where
  start_le := Nat.le_of_succ_le h.start_le
  stop_le := h.stop_le
  ascending := h.ascending
  within token htoken := (h.within token htoken).imp_left Nat.le_of_succ_le
  slice := h.slice
  longest := h.longest
  blank i d hle hlt hd hno := by
    rcases Nat.eq_or_lt_of_le hle with rfl | hle
    · rw [hc] at hd
      cases hd
      exact hblank
    · exact h.blank i d hle hlt hd hno

/-- A token may come before what is cut. -/
theorem Cuts.tokenBefore (h : Cuts source (token.index + token.text.length) stop tokens)
    (hheads : token.word.Heads (source.drop token.index)) :
    Cuts source token.index stop (token :: tokens) where
  start_le := Nat.le_of_add_right_le h.start_le
  stop_le := h.stop_le
  ascending := by
    have hpos : 0 < token.text.length := hheads.inLexicon.length_pos
    refine List.pairwise_cons.mpr ⟨fun after hafter => ?_, h.ascending⟩
    have hstart := (h.within after hafter).1
    omega
  within := List.forall_mem_cons.mpr ⟨⟨Nat.le_refl _, h.start_le⟩, fun after hafter =>
    (h.within after hafter).imp_left Nat.le_of_add_right_le⟩
  slice := List.forall_mem_cons.mpr
    ⟨(List.prefix_iff_eq_take.mp hheads.isPrefix).symm, h.slice⟩
  longest := List.forall_mem_cons.mpr ⟨hheads, h.longest⟩
  blank i c hstart hlt hc hno := by
    obtain ⟨hnot, hno⟩ := List.forall_mem_cons.mp hno
    exact h.blank i c (Nat.not_lt.mp fun hlt => hnot ⟨hstart, hlt⟩) hlt hc hno

/-- A blank may come before what is cut to the end or to a stray code point. -/
theorem CutsFrom.blankBefore (h : CutsFrom source (start + 1) result)
    (hc : source[start]? = some c) (hblank : c.isBlank = true) : CutsFrom source start result := by
  cases result with
  | ok tokens => exact Cuts.blankBefore h hc hblank
  | error stray =>
    obtain ⟨hstray, tokens, h⟩ := h
    exact ⟨hstray, tokens, h.blankBefore hc hblank⟩

/-- A token may come before what is cut to the end or to a stray code point. -/
theorem CutsFrom.tokenBefore (token : Token)
    (h : CutsFrom source (token.index + token.text.length) result)
    (hheads : token.word.Heads (source.drop token.index)) :
    CutsFrom source token.index (result.map (token :: ·)) := by
  cases result with
  | ok tokens => exact Cuts.tokenBefore h hheads
  | error stray =>
    obtain ⟨hstray, tokens, h⟩ := h
    exact ⟨hstray, token :: tokens, h.tokenBefore hheads⟩

theorem drop_eq_cons (h : source.drop index = c :: t) :
    source[index]? = some c ∧ index < source.length ∧ source.drop (index + 1) = t := by
  have hlt : index < source.length := by
    refine Nat.lt_of_not_le fun hle => ?_
    rw [List.drop_eq_nil_of_le hle] at h
    cases h
  rw [List.drop_eq_getElem_cons hlt] at h
  cases h
  exact ⟨List.getElem?_eq_getElem hlt, hlt, rfl⟩

/-- A text is cut from any offset on. -/
theorem cutsFrom_tokenizeFrom (source : Text) (index : Nat) (t : Text)
    (h : source.drop index = t) (hle : index ≤ source.length) :
    CutsFrom source index (tokenizeFrom index t) := by
  fun_induction tokenizeFrom index t with
  | case1 index =>
    have hend : index = source.length := Nat.le_antisymm hle (List.drop_eq_nil_iff.mp h)
    rw [hend]
    exact cuts_nil (Nat.le_refl _)
  | case2 index c t hblank ih =>
    obtain ⟨hc, hlt, ht⟩ := drop_eq_cons h
    exact (ih ht hlt).blankBefore hc hblank
  | case3 index c t hblank hnone =>
    obtain ⟨hc, -, -⟩ := drop_eq_cons h
    refine ⟨⟨hc, Bool.eq_false_iff.mpr hblank, ?_⟩, [], cuts_nil hle⟩
    rw [h]
    exact lexeme?_eq_none_iff.mp hnone
  | case4 index c t hblank l n hread ih =>
    -- the word that is read here is cut off, the induction cuts what comes after it
    obtain ⟨text, rest, hw, heq, rfl⟩ := exists_word_of_lexeme? hread
    have hpos : 0 < text.length := hw.length_pos
    have hdrop : source.drop (index + text.length) = t.drop (text.length - 1) := by
      rw [← List.drop_drop, h, List.drop_cons hpos]
    have hlength : text.length ≤ source.length - index := by
      rw [← List.length_drop, h, heq, List.length_append]
      exact Nat.le_add_right ..
    have htake : (c :: t).take text.length = text := by rw [heq, List.take_left]
    have hheads : Word.Heads ⟨l, text⟩ (source.drop index) := by
      rw [h]
      exact Word.heads_iff.mpr ⟨⟨rest, heq.symm⟩, hread⟩
    have hcuts := CutsFrom.tokenBefore ⟨l, text, index⟩ (ih hdrop (by omega)) hheads
    rw [htake]
    cases hrest : tokenizeFrom (index + text.length) (t.drop (text.length - 1)) with
    | ok tokens => rwa [hrest] at hcuts
    | error stray => rwa [hrest] at hcuts

/-- The tokens of a text ascend, each is the longest word where it stands, and all that they leave
out is blank; the text is cut like this to its end, or up to a code point at which no word and no
blank begins. The tokens of a text that is cut to its end are read again, as the same words, from
their texts with a space between them. -/
theorem tokenize_cuts (source : Text) :
    match tokenize source with
    | .ok tokens => Cuts source 0 source.length tokens ∧
        ∃ again, tokenize (spaced (tokens.map Token.word)) = .ok again ∧
          again.map Token.word = tokens.map Token.word
    | .error stray => IsStray source stray ∧ ∃ tokens, Cuts source 0 stray.index tokens := by
  have hcuts := cutsFrom_tokenizeFrom source 0 source rfl (Nat.zero_le _)
  rw [← tokenize] at hcuts
  cases htokens : tokenize source with
  | error stray => rwa [htokens] at hcuts
  | ok tokens =>
    rw [htokens] at hcuts
    have hcuts : Cuts source 0 source.length tokens := hcuts
    have hreads : ∀ w ∈ tokens.map Token.word, w.Reads :=
      List.forall_mem_map.mpr fun token htoken => (hcuts.longest token htoken).inLexicon.reads
    have hagain := TokenizesAs.spaced (t := []) hreads trivial tokenizesAs_nil 0
    rw [List.append_nil, List.append_nil] at hagain
    exact ⟨hcuts, hagain⟩

end

end MessageExtraction.Expression
