import MessageExtraction.Proofs.Template.Nesting

/-!
# The lines of interpolations in texts

The candidates of a text are referenced at a line that is reckoned back from the next start tag or
from the end of the document. Each string up to there counts with the line feeds that the tree keeps
of it. So the line is the one on which the text begins unless a string ahead is nothing but white
space with several line feeds, of which the tree keeps one.

## Main definitions

* `Template.scannedTexts` -- the texts in which interpolations are looked for.
* `Markup.LocatedString.LosesLines` -- the tree keeps fewer line feeds of a string than it has.

## Main results

* `references_of_text` -- when the candidates of a text are referenced at the line of the text.
* `scan_blankLineAhead` -- a document whose only candidate is referenced one line too low.
-/

namespace MessageExtraction

namespace Markup.LocatedString

/-- A string is nothing but white space that shrinks, with several line feeds. -/
def LosesLines (s : LocatedString) : Prop :=
  s.preserved = false ∧ s.source.all isDocumentSpace = true ∧ 1 < Text.lineFeeds s.source

instance (s : LocatedString) : Decidable s.LosesLines :=
  inferInstanceAs (Decidable (_ ∧ _))

theorem lineFeeds_pos_iff {t : Text} : 0 < Text.lineFeeds t ↔ t.any (·.is '\n') = true := by
  rw [Text.lineFeeds, Text.countOf, List.countP_pos_iff, List.any_eq_true]
  refine exists_congr fun c => and_congr_right fun _ => ?_
  rw [CodePoint.is_iff, beq_iff_eq]

/-- The tree keeps no line feed that is not there, and it keeps them all of a string that does not
lose lines. -/
theorem lineFeeds_kept (s : LocatedString) :
    Text.lineFeeds s.kept ≤ Text.lineFeeds s.source ∧
      (Text.lineFeeds s.kept = Text.lineFeeds s.source ↔ ¬ s.LosesLines) := by
  have hfeed : Text.lineFeeds (Text.ofChar '\n') = 1 := by decide
  have hspace : Text.lineFeeds (Text.ofChar ' ') = 0 := by decide
  rw [kept, shrink, LosesLines]
  split
  · next hkeeps =>
    refine ⟨Nat.le_refl _, iff_of_true rfl ?_⟩
    rintro ⟨hpreserved, hall, -⟩
    simp [hpreserved, hall] at hkeeps
  · next hshrinks =>
    have hblank : s.preserved = false ∧ s.source.all isDocumentSpace = true := by
      simpa using hshrinks
    split
    · next hany =>
      have hpos := lineFeeds_pos_iff.mpr hany
      rw [hfeed]
      refine ⟨hpos, ?_⟩
      simp only [hblank.1, hblank.2, true_and]
      omega
    · next hany =>
      have hzero : Text.lineFeeds s.source = 0 :=
        Nat.eq_zero_of_not_pos fun hpos => hany (lineFeeds_pos_iff.mp hpos)
      rw [hspace, hzero]
      exact ⟨Nat.le_refl 0, by simp⟩

end Markup.LocatedString

namespace Template

open Markup

namespace Ahead

/-- The number of line feeds in the strings ahead. -/
def writtenFeeds (a : Ahead) : Nat :=
  Text.lineFeeds (a.strings.flatMap LocatedString.source)

/-- The tree keeps no line feed that is not there, and it keeps them all where no string loses
lines. -/
theorem keptFeeds_eq_writtenFeeds_iff (a : Ahead) :
    a.keptFeeds ≤ a.writtenFeeds ∧
      (a.keptFeeds = a.writtenFeeds ↔ ∀ s ∈ a.strings, ¬ s.LosesLines) := by
  rcases a with ⟨place, strings⟩
  induction strings with
  | nil => simp [keptFeeds, writtenFeeds]
  | cons s strings ih =>
    have hs := s.lineFeeds_kept
    simp only [keptFeeds, writtenFeeds, List.flatMap_cons, lineFeeds_append, List.forall_mem_cons]
      at ih ⊢
    rw [← hs.2, ← ih.2]
    omega

/-- What lies ahead of marks up to the end of a document ends between the marks and there. -/
theorem prefix_place {document place : Text} {marks : List Mark}
    (hmarks : ∀ m ∈ marks, place <+: m.before ∧ m.before <+: document) (h : place <+: document) :
    place <+: ((ofEnd document).before marks).place ∧
      ((ofEnd document).before marks).place <+: document := by
  induction marks with
  | nil => exact ⟨h, List.prefix_rfl⟩
  | cons m marks ih =>
    obtain ⟨hm, hothers⟩ := List.forall_mem_cons.mp hmarks
    cases m with
    | tag before => exact hm
    | string s => exact ih hothers

/-- Strings that span the lines up to what follows them span those up to the end of what lies
ahead. -/
theorem lineFeeds_place {document : Text} {marks : List Mark} {m : Mark}
    (h : SpanLines (m :: marks) document) :
    Text.lineFeeds ((ofEnd document).before (m :: marks)).place =
      Text.lineFeeds m.before + ((ofEnd document).before (m :: marks)).writtenFeeds := by
  induction marks generalizing m with
  | nil =>
    cases m with
    | tag place => simp [before, writtenFeeds, Mark.before]
    | string s =>
      have hspans : Text.lineFeeds document = _ := (List.isChain_cons_cons.mp h).1
      simpa [before, ofEnd, writtenFeeds, Mark.before] using hspans
  | cons next marks ih =>
    obtain ⟨hspans, hothers⟩ := List.isChain_cons_cons.mp h
    cases m with
    | tag place => simp [before, writtenFeeds, Mark.before]
    | string s =>
      have hnext := ih hothers
      have hline : Text.lineFeeds next.before = _ := hspans
      rw [before, writtenFeeds, List.flatMap_cons, lineFeeds_append, hnext, hline]
      exact Nat.add_assoc ..

end Ahead

/-- The texts in which interpolations are looked for: those outside of all elements, and those in
elements that are neither messages nor scanned on their own. -/
def scannedTexts (document : Text) : List TextRun :=
  match locate? (protectEntities document) with
  | none => []
  | some nodes =>
    textRuns (.ofEnd (protectEntities document)) nodes ++
      (elementsIn (.ofEnd (protectEntities document)) nodes).flatMap fun e =>
        if (placed e.1 e.2).role = .plain then textRuns e.2 e.1.children else []

/-- What a text yields, referenced at the line that is reckoned for it. -/
def TextRun.events (r : TextRun) (s : Setting) (file : Text) (offset : Int) : List ScanEvent :=
  textEvents s.delimiters file (r.ahead.line + offset) r.string.kept

/-- What a text yields is part of what the document yields. -/
theorem events_infix_scan {s : Setting} {file : Text} {offset : Int} {document : Text} {r : TextRun}
    (h : r ∈ scannedTexts document) : r.events s file offset <:+: scan s file offset document := by
  rw [scannedTexts] at h
  split at h
  · exact absurd h List.not_mem_nil
  · next nodes hnodes =>
    rw [scan_eq_of_locate? s file offset hnodes]
    rcases List.mem_append.mp h with h | h
    · exact (infix_flatMap_of_mem (f := fun r => r.events s file offset) h).trans
        (List.prefix_append ..).isInfix
    · obtain ⟨e, he, hr⟩ := List.mem_flatMap.mp h
      split at hr
      · next hrole =>
        have hplain : (placed e.1 e.2).events s file offset (scan s file) =
            (placed e.1 e.2).plainEvents s.delimiters file offset := by
          rw [PlacedElement.events, hrole]
        have htexts :
            r.events s file offset <:+: (placed e.1 e.2).plainEvents s.delimiters file offset := by
          rw [PlacedElement.plainEvents, show (placed e.1 e.2).after = e.2.line from rfl,
            show (placed e.1 e.2).children = eraseAll e.1.children from rfl, textsWithLines_eq,
            List.flatMap_map]
          exact (infix_flatMap_of_mem (f := fun r => r.events s file offset) hr).trans
            (List.suffix_append ..).isInfix
        rw [← hplain] at htexts
        rw [← scan_eq_of_locate? s file offset hnodes]
        exact htexts.trans (events_infix_scan_of_mem_elementsIn s file offset hnodes he)
      · exact absurd hr List.not_mem_nil

/-- The candidates of a text are all referenced at the line of the text. -/
theorem reference_of_mem_textEvents {d : Delimiters} {file : Text} {line : Int} {t : Text}
    {c : Candidate} (h : .candidate c ∈ textEvents d file line t) :
    c.reference = ⟨file, some line⟩ := by
  obtain ⟨expression, -, h⟩ := List.mem_flatMap.mp h
  rcases List.mem_append.mp h with h | h
  · obtain ⟨n, -, hn⟩ := List.mem_map.mp h
    cases hn
  · obtain ⟨t, -, ht⟩ := List.mem_map.mp h
    cases ht
    rfl

/-- A text stands in the document with what lies ahead of it. -/
theorem exists_marks_of_mem_scannedTexts {document : Text} {r : TextRun}
    (h : r ∈ scannedTexts document) : ∃ nodes first rest,
      locate? (protectEntities document) = some nodes ∧
      marksOf nodes = first ++ .string r.string :: rest ∧ r.string.kind = none ∧
      r.ahead = (Ahead.ofEnd (protectEntities document)).before (.string r.string :: rest) := by
  rw [scannedTexts] at h
  split at h
  · exact absurd h List.not_mem_nil
  · next nodes hnodes =>
    rcases List.mem_append.mp h with h | h
    · obtain ⟨first, rest, hmarks, hrun⟩ :=
        exists_marks_of_mem_textRuns (show r ∈ textRuns (Ahead.before _ []) nodes from h)
      exact ⟨nodes, first, rest, hnodes, by rwa [List.append_nil] at hmarks, hrun⟩
    · obtain ⟨e, he, hr⟩ := List.mem_flatMap.mp h
      split at hr
      · obtain ⟨outer, others, hmarks, hahead⟩ :=
          exists_marks_of_mem_elementsIn nodes
            (show e ∈ elementsIn (Ahead.before _ []) nodes from he)
        rw [hahead] at hr
        obtain ⟨first, rest, hinner, hrun⟩ := exists_marks_of_mem_textRuns hr
        refine ⟨nodes, outer ++ first, rest, hnodes, ?_, hrun⟩
        rw [List.append_nil] at hmarks
        rw [hmarks, List.append_assoc, hinner, List.append_assoc]
      · exact absurd hr List.not_mem_nil

/-- A text begins in the document at a place of its own, and what is reckoned with lies between that
place and the end of the document. -/
theorem place_of_mem_scannedTexts {document : Text} {r : TextRun} (h : r ∈ scannedTexts document) :
    (∃ start c others source, document = start ++ c :: others ∧
      r.string.before = protectEntities start ∧ r.string.source = protectEntities [c] ++ source) ∧
    r.string.before <+: r.ahead.place ∧ r.ahead.place <+: protectEntities document := by
  obtain ⟨nodes, first, rest, hnodes, hmarks, hkind, hahead⟩ := exists_marks_of_mem_scannedTexts h
  have horder := inOrder_of_locate? hnodes
  have hmem : .string r.string ∈ marksOf nodes := by simp [hmarks]
  obtain ⟨c', source, hsource, tail, htail⟩ := horder.begins r.string hmem hkind
  rw [List.append_assoc] at htail
  obtain ⟨start, others', hdocument, hstart, hothers⟩ := List.map_eq_append_iff.mp htail.symm
  obtain ⟨c, others, rfl, hc, -⟩ := List.map_eq_cons_iff.mp hothers
  refine ⟨⟨start, c, others, source, hdocument, hstart.symm, ?_⟩, ?_⟩
  · rw [hsource, ← hc]
    rfl
  · rw [hahead]
    refine Ahead.prefix_place (fun m hm => ⟨?_, ?_⟩) (horder.bounded _ hmem)
    · have hsorted := (List.pairwise_append.mp (hmarks ▸ horder.sorted)).2.1
      rcases List.mem_cons.mp hm with rfl | hm
      · exact List.prefix_rfl
      · exact List.rel_of_pairwise_cons hsorted hm
    · exact horder.bounded m (hmarks ▸ List.mem_append_right first hm)

/-- Where a document keeps its line feeds, those up to the end of what lies ahead of a text are
those of the strings there. -/
theorem lineFeeds_place_of_mem_scannedTexts {document : Text} {r : TextRun}
    (h : r ∈ scannedTexts document) (hkeeps : KeepsLines (protectEntities document)) :
    Text.lineFeeds r.ahead.place = Text.lineFeeds r.string.before + r.ahead.writtenFeeds := by
  obtain ⟨nodes, first, rest, hnodes, hmarks, -, hahead⟩ := exists_marks_of_mem_scannedTexts h
  have hspan := spanLines_of_locate? hnodes hkeeps
  rw [hmarks, SpanLines, List.append_assoc] at hspan
  rw [hahead]
  exact Ahead.lineFeeds_place (List.isChain_append.mp hspan).2.1

/-- The candidates of a text are among those of the document. They are referenced at the line on
which the text begins just if the line feeds up to the next start tag, or to the end of the
document, are as many as the tree keeps of the strings there. If all of these line feeds are in
strings, this is the case just if no string there loses lines. -/
theorem references_of_text (s : Setting) (file : Text) (offset : Int) {document : Text}
    {r : TextRun} (h : r ∈ scannedTexts document) :
    r.events s file offset <:+: scan s file offset document ∧
    ∃ start c others source, document = start ++ c :: others ∧
      r.string.before = protectEntities start ∧ r.string.source = protectEntities [c] ++ source ∧
      r.string.before <+: r.ahead.place ∧ r.ahead.place <+: protectEntities document ∧
      ((∀ x, .candidate x ∈ r.events s file offset →
          x.reference = ⟨file, some (offset + lineAfter start)⟩) ↔
        (∀ x, .candidate x ∉ r.events s file offset) ∨
          Text.lineFeeds r.ahead.place = Text.lineFeeds start + r.ahead.keptFeeds) ∧
      (KeepsLines (protectEntities document) →
        (Text.lineFeeds r.ahead.place = Text.lineFeeds start + r.ahead.keptFeeds ↔
          ∀ u ∈ r.ahead.strings, ¬ u.LosesLines)) := by
  obtain ⟨⟨start, c, others, source, hdocument, hbefore, hsource⟩, hahead, hplace⟩ :=
    place_of_mem_scannedTexts h
  refine ⟨events_infix_scan h, start, c, others, source, hdocument, hbefore, hsource, hahead,
    hplace, ⟨fun hright => ?_, ?_⟩, fun hkeeps => ?_⟩
  · refine or_iff_not_imp_left.mpr fun hfound => ?_
    obtain ⟨x, hx⟩ := not_forall_not.mp hfound
    have hreference := hright x hx
    rw [reference_of_mem_textEvents hx, Ahead.line] at hreference
    injection hreference with _ hlines
    injection hlines with hlines
    simp only [lineAfter] at hlines
    omega
  · rintro (hnone | hfeeds) x hx
    · exact absurd hx (hnone x)
    · rw [reference_of_mem_textEvents hx, Ahead.line, lineAfter, lineAfter, hfeeds]
      congr 2
      omega
  · rw [← r.ahead.keptFeeds_eq_writtenFeeds_iff.2, lineFeeds_place_of_mem_scannedTexts h hkeeps,
      hbefore, lineFeeds_protectEntities]
    omega

/-- A paragraph with a message, on a line of its own. -/
def paragraphLine : Text :=
  "<p>\x7b\x7b 'a' | translate \x7d\x7d</p>\n"

/-- One line feed ahead of a text is reckoned with. -/
theorem references_of_paragraphLine :
    ∃ r ∈ scannedTexts paragraphLine, KeepsLines (protectEntities paragraphLine) ∧
      ∀ x, .candidate x ∈ r.events doubleBraces "t.html" 0 →
        x.reference = ⟨"t.html", some 1⟩ := by
  let text : LocatedString :=
    ⟨none, "<p>", "\x7b\x7b 'a' | translate \x7d\x7d", false⟩
  let feed : LocatedString :=
    ⟨none, "<p>\x7b\x7b 'a' | translate \x7d\x7d</p>", "\n", false⟩
  have hmem : ⟨text, ⟨paragraphLine, [text, feed]⟩⟩ ∈ scannedTexts paragraphLine := by
    decide +kernel
  have hkeeps : KeepsLines (protectEntities paragraphLine) := by decide +kernel
  obtain ⟨-, start, c, others, source, -, hbefore, -, -, -, hlines, hfeeds⟩ :=
    references_of_text doubleBraces "t.html" 0 hmem
  refine ⟨_, hmem, hkeeps, fun x hx => ?_⟩
  have hstart : lineAfter start = 1 := by
    rw [← lineAfter_protectEntities, ← hbefore]
    decide +kernel
  rw [hlines.mpr (.inr ((hfeeds hkeeps).mpr (by decide +kernel))) x hx, hstart]
  rfl

/-- Of two line feeds at the end of a document one is lost, and the message on the first line is
referenced at the second one. -/
theorem scan_blankLineAhead :
    ∃ r ∈ scannedTexts (paragraphLine ++ Text.ofChar '\n'), r.string.before = Text.ofString "<p>" ∧
      KeepsLines (protectEntities (paragraphLine ++ Text.ofChar '\n')) ∧
      lineAfter r.string.before = 1 ∧
      r.events doubleBraces "t.html" 0 = [plainCandidate "t.html" 2 "a"] ∧
      scan doubleBraces "t.html" 0 (paragraphLine ++ Text.ofChar '\n') =
        [plainCandidate "t.html" 2 "a"] := by
  decide +kernel

end Template

end MessageExtraction
