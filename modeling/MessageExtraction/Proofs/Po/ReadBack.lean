import MessageExtraction.Extraction
import MessageExtraction.Proofs.Po.Reading
import MessageExtraction.Proofs.Text.Splitting

/-!
# The file of a catalog is read back

Comments and references begin with a number sign on every line, and no line feed is left in them:
comments are split at line feeds, and where lines are filled, line feeds become spaces. References
that are short enough are shown as they are, so that no file name may hold a line feed. Quoted texts
hold no line feed either. So the lines of a file are those that were written, and what is read is
the header and then one message for each entry of the catalog.

## Main definitions

* `Po.IsRemark` -- a line that says nothing, whatever stands on it.
* `Po.metadataText` -- the string of the header.
* `Po.Message.ofEntry` -- the message that an entry is.

## Main results

* `Po.read?_render` -- a file is read as its header and its entries.
* `Options.read?_render_after` -- the file of a catalog is read as what the catalog lists.
-/

namespace MessageExtraction

/-! ## Lines without line feeds -/

namespace Wrap

theorem lineStart_subset (trim started : Bool) (cs : List Text) :
    lineStart trim started cs ⊆ cs := by
  rw [lineStart]
  split
  · cases cs with
    | nil => exact List.Subset.refl _
    | cons c cs =>
      rw [dropFirstBlank]
      split
      · exact List.subset_cons_self c cs
      · exact List.Subset.refl _
  · exact List.Subset.refl _

theorem dropLastBlank_subset (cs : List Text) : dropLastBlank cs ⊆ cs := by
  rw [dropLastBlank]
  split
  · split
    · exact (List.dropLast_sublist cs).subset
    · exact List.Subset.refl _
  · exact List.nil_subset _

/-- Filled lines hold nothing that is not in their chunks. -/
theorem flatten_fillFrom_subset (trim : Bool) (width : Nat) (started : Bool) (cs : List Text) :
    (fillFrom trim width started cs).flatten ⊆ cs.flatten := by
  have hflatten {cs ds : List Text} (h : cs ⊆ ds) : cs.flatten ⊆ ds.flatten := fun c hc => by
    obtain ⟨chunk, hchunk, hc⟩ := List.mem_flatten.mp hc
    exact List.mem_flatten_of_mem (h hchunk) hc
  have hnext (started : Bool) (cs : List Text) :
      (nextLine width (lineStart trim started cs)).1 ⊆ cs ∧
        (nextLine width (lineStart trim started cs)).2 ⊆ cs := by
    have hstart := lineStart_subset trim started cs
    rw [← nextLine_append width (lineStart trim started cs)] at hstart
    exact List.append_subset.mp hstart
  fun_induction fillFrom trim width started cs with
  | case1 => exact List.Subset.refl _
  | case2 started cs _ next line _ =>
    rename_i ih
    exact List.Subset.trans ih (hflatten (hnext started cs).2)
  | case3 started cs _ next line _ =>
    rename_i ih
    have hline : (if trim then dropLastBlank next.1 else next.1) ⊆ next.1 := by
      split
      · exact dropLastBlank_subset next.1
      · exact List.Subset.refl _
    rw [List.flatten_cons]
    exact List.append_subset.mpr ⟨hflatten (List.Subset.trans hline (hnext started cs).1),
      List.Subset.trans ih (hflatten (hnext started cs).2)⟩

theorem not_mem_evenSpaces (t : Text) : CodePoint.ofChar '\n' ∉ evenSpaces t := by
  intro h
  obtain ⟨c, -, hc⟩ := List.mem_map.mp h
  split at hc
  · exact absurd hc (by decide)
  · next hspace =>
    subst hc
    exact hspace rfl

/-- Filled lines hold no line feed. -/
theorem not_mem_of_mem_lines {trim : Bool} {width : Nat} {t l : Text} (h : l ∈ lines trim width t) :
    CodePoint.ofChar '\n' ∉ l := by
  intro hfeed
  have hmem := flatten_fillFrom_subset trim width false (chunks t) (List.mem_flatten_of_mem h hfeed)
  rw [chunks, flatten_chunksAfter] at hmem
  exact not_mem_evenSpaces t hmem

end Wrap

namespace Po

/-- A number sign and a text on one line. -/
def IsRemark (l : Text) : Prop :=
  ∃ t, l = CodePoint.ofChar '#' :: t ∧ CodePoint.ofChar '\n' ∉ t

theorem IsRemark.line?_eq {l : Text} (h : IsRemark l) : line? l = some .nothing := by
  obtain ⟨t, rfl, -⟩ := h
  exact line?_comment t

theorem IsRemark.not_mem {l : Text} (h : IsRemark l) : CodePoint.ofChar '\n' ∉ l := by
  obtain ⟨t, rfl, ht⟩ := h
  exact List.not_mem_cons_of_ne_of_not_mem (by decide) ht

theorem isRemark_append {mark : Text} (hmark : IsRemark mark) {t : Text}
    (h : CodePoint.ofChar '\n' ∉ t) : IsRemark (mark ++ t) := by
  obtain ⟨u, rfl, hu⟩ := hmark
  exact ⟨u ++ t, rfl, fun hmem => (List.mem_append.mp hmem).elim hu h⟩

theorem isRemark_of_mem_markedLines {mark : Text} (hmark : IsRemark mark) {width : Nat} {t l : Text}
    (h : l ∈ Wrap.markedLines mark width t) : IsRemark l := by
  obtain ⟨line, hline, rfl⟩ := List.mem_map.mp h
  exact isRemark_append hmark (Wrap.not_mem_of_mem_lines hline)

theorem isRemark_of_mem_commentLines {comments : List Text} {l : Text}
    (h : l ∈ commentLines comments) : IsRemark l := by
  have hmark : IsRemark (Text.ofString "#. ") := ⟨_, rfl, by decide⟩
  rw [commentLines] at h
  split at h
  · cases h
  · obtain ⟨line, hline, hl⟩ := List.mem_flatMap.mp h
    split at hl
    · exact isRemark_of_mem_markedLines hmark hl
    · obtain rfl := List.mem_singleton.mp hl
      exact isRemark_append hmark (Text.not_mem_of_mem_splitOn hline)

/-- A hyphen in place of an asterisk changes nothing about it. -/
theorem IsRemark.substitute {l : Text} (h : IsRemark l) : IsRemark (l.substitute '*' '-') := by
  obtain ⟨t, rfl, ht⟩ := h
  refine ⟨Text.substitute t '*' '-', rfl, fun hmem => ?_⟩
  obtain ⟨c, hc, heq⟩ := List.mem_map.mp hmem
  split at heq
  · exact absurd heq (by decide)
  · exact ht (heq ▸ hc)

theorem not_mem_join {separator : Text} {c : CodePoint} (hseparator : c ∉ separator)
    {ts : List Text} (h : ∀ t ∈ ts, c ∉ t) : c ∉ Text.join separator ts := by
  rw [mem_join_iff hseparator, List.mem_flatten]
  exact fun ⟨t, ht, hc⟩ => h t ht hc

theorem isRemark_of_mem_referenceLines {references : List Text}
    (hreferences : ∀ r ∈ references, CodePoint.ofChar '\n' ∉ r) {l : Text}
    (h : l ∈ referenceLines references) : IsRemark l := by
  have hmark : IsRemark (Text.ofString "#: ") := ⟨_, rfl, by decide⟩
  rw [referenceLines] at h
  simp only [Reference.joinParts_split, List.map_id'] at h
  split at h
  · cases h
  · split at h
    · obtain ⟨line, hline, rfl⟩ := List.mem_map.mp h
      exact (isRemark_of_mem_markedLines hmark hline).substitute
    · obtain rfl := List.mem_singleton.mp h
      exact isRemark_append hmark (not_mem_join (by decide) hreferences)

/-! ## Lines of fields -/

theorem not_mem_quote (t : Text) : CodePoint.ofChar '\n' ∉ quote (escape t) := by
  have hescape : CodePoint.ofChar '\n' ∉ escape t := not_mem_escape rfl (by decide)
  simp only [quote, List.mem_append, not_or]
  exact ⟨⟨by decide, hescape⟩, by decide⟩

theorem not_mem_of_mem_field {keyword : Text} (hkeyword : IsKeyword keyword) {t l : Text}
    (h : l ∈ field keyword t) : CodePoint.ofChar '\n' ∉ l := by
  obtain ⟨first, parts, hpieces, rfl⟩ := exists_parts_of_pieces keyword t
  rw [field, hpieces, List.map_map] at h
  rcases List.mem_cons.mp h with rfl | h
  · simp only [List.mem_append, not_or]
    exact ⟨⟨hkeyword.2.2, by decide⟩, not_mem_quote first⟩
  · obtain ⟨part, -, rfl⟩ := List.mem_map.mp h
    exact not_mem_quote part

theorem not_mem_of_mem_fieldLines {context plural : Option Text} {msgid l : Text}
    {strings : List Text} (h : l ∈ fieldLines context msgid plural strings) :
    CodePoint.ofChar '\n' ∉ l := by
  rw [fieldLines_eq_flatMap] at h
  obtain ⟨f, hf, hl⟩ := List.mem_flatMap.mp h
  exact not_mem_of_mem_field (isKeyword_of_mem_messageFields hf) hl

/-! ## Files -/

/-- The lines of texts one after the other, of which each is written in lines. -/
theorem splitOn_unlines {lines : List Text} (h : ∀ l ∈ lines, CodePoint.ofChar '\n' ∉ l)
    (t : Text) : Text.splitOn '\n' (Text.unlines lines ++ t) = lines ++ Text.splitOn '\n' t := by
  induction lines with
  | nil => rfl
  | cons l lines ih =>
    obtain ⟨hl, hlines⟩ := List.forall_mem_cons.mp h
    have hcons : Text.unlines (l :: lines) ++ t =
        l ++ CodePoint.ofChar '\n' :: (Text.unlines lines ++ t) := by
      simp [Text.unlines, Text.ofChar]
    rw [hcons, Text.splitOn_of_not_mem hl, ih hlines, List.cons_append]

/-- Blocks of lines that a line feed joins are read as lines, an empty one after each block. -/
theorem splitOn_join {blocks : List (List Text)} (hne : blocks ≠ [])
    (h : ∀ lines ∈ blocks, ∀ l ∈ lines, CodePoint.ofChar '\n' ∉ l) :
    Text.splitOn '\n' (Text.join ['\n'] (blocks.map Text.unlines)) =
      blocks.flatMap fun lines => lines ++ [[]] := by
  induction blocks with
  | nil => exact absurd rfl hne
  | cons lines blocks ih =>
    obtain ⟨hlines, hblocks⟩ := List.forall_mem_cons.mp h
    rw [List.map_cons, List.flatMap_cons]
    by_cases hnil : blocks = []
    · have hsplit := splitOn_unlines hlines []
      rw [List.append_nil] at hsplit
      rw [hnil, List.flatMap_nil, List.append_nil]
      exact hsplit
    · rw [Text.join_cons_of_ne_nil _ _ (mt List.map_eq_nil_iff.mp hnil), List.append_assoc,
        splitOn_unlines hlines, List.append_assoc, List.singleton_append, Text.splitOn, if_pos rfl,
        ih hnil hblocks]
      rfl

/-- The string of the header. -/
def metadataText (metadata : Table Text Text) : Text :=
  (orderedMetadata metadata).flatMap fun m =>
    m.1 ++ Text.ofString ": " ++ m.2 ++ Text.ofChar '\n'

/-- The lines of the header. -/
def headerLines (metadata : Table Text Text) : List Text :=
  fieldLines none [] none [metadataText metadata]

/-- The lines of an entry. -/
def entryLines (e : Entry) : List Text :=
  commentLines e.comments ++ referenceLines e.references ++
    fieldLines e.context e.msgid e.plural e.messageStrings

/-- The fields of an entry. -/
def entryFields (e : Entry) : List Field :=
  messageFields e.context e.msgid e.plural e.messageStrings

/-- The message that an entry is. -/
def Message.ofEntry (e : Entry) : Message :=
  ⟨e.context, e.msgid, e.plural, shownStrings e.plural e.messageStrings⟩

section

variable {e : Entry} {entries : List Entry}

/-- No reference of an entry holds a line feed. -/
def OnOneLine (e : Entry) : Prop :=
  ∀ r ∈ e.references, CodePoint.ofChar '\n' ∉ r

theorem not_mem_of_mem_entryLines (h : OnOneLine e) {l : Text} (hl : l ∈ entryLines e) :
    CodePoint.ofChar '\n' ∉ l := by
  rcases List.mem_append.mp hl with hl | hl
  · rcases List.mem_append.mp hl with hl | hl
    · exact (isRemark_of_mem_commentLines hl).not_mem
    · exact (isRemark_of_mem_referenceLines h hl).not_mem
  · exact not_mem_of_mem_fieldLines hl

/-- Comments and references say nothing, so that an entry is read as its fields. -/
theorem reads_entryLines (h : OnOneLine e) : Reads (entryLines e) (entryFields e) := by
  have hremarks : Reads (commentLines e.comments ++ referenceLines e.references) [] := by
    refine reads_of_nothing fun l hl => ?_
    rcases List.mem_append.mp hl with hl | hl
    · exact (isRemark_of_mem_commentLines hl).line?_eq
    · exact (isRemark_of_mem_referenceLines h hl).line?_eq
  exact hremarks.append (reads_fieldLines e.context e.msgid e.plural e.messageStrings)

theorem reads_empty : Reads [[]] [] :=
  reads_of_nothing (List.forall_mem_singleton.mpr line?_nil)

theorem reads_flatMap_entryLines (h : ∀ e ∈ entries, OnOneLine e) :
    Reads (entries.flatMap fun e => entryLines e ++ [[]]) (entries.flatMap entryFields) := by
  induction entries with
  | nil => exact reads_nil
  | cons e entries ih =>
    obtain ⟨he, hentries⟩ := List.forall_mem_cons.mp h
    have hblock := (reads_entryLines he).append reads_empty
    rw [List.append_nil] at hblock
    exact hblock.append (ih hentries)

theorem messages?_flatMap (entries : List Entry) :
    messages? (entries.flatMap entryFields) = some (entries.map Message.ofEntry) ∧
      NotNumbered (entries.flatMap entryFields) := by
  induction entries with
  | nil => exact ⟨by rw [List.flatMap_nil, messages?]; rfl, nofun⟩
  | cons e entries ih =>
    rw [List.flatMap_cons, entryFields, messages?_append _ _ _ _ ih.2, ih.1]
    exact ⟨rfl, notNumbered_messageFields _ _ _ _ _⟩

end

/-- A file is read as its header and its entries, in their order. -/
theorem read?_render (d : Document) (h : ∀ e ∈ d.entries, OnOneLine e) :
    read? d.render =
      some (⟨none, [], none, [metadataText d.metadata]⟩ :: d.entries.map Message.ofEntry) := by
  have htext : d.render = Text.unlines [Text.ofChar '#'] ++
      Text.join ['\n'] ((headerLines d.metadata :: d.entries.map entryLines).map Text.unlines) := by
    rw [Document.render, List.map_cons, List.map_map]
    rfl
  have hblocks : ∀ lines ∈ headerLines d.metadata :: d.entries.map entryLines,
      ∀ l ∈ lines, CodePoint.ofChar '\n' ∉ l := by
    intro lines hlines l hl
    rcases List.mem_cons.mp hlines with rfl | hlines
    · exact not_mem_of_mem_fieldLines hl
    · obtain ⟨e, he, rfl⟩ := List.mem_map.mp hlines
      exact not_mem_of_mem_entryLines (h e he) hl
  have hlines : Text.splitOn '\n' d.render = [Text.ofChar '#'] ++ (headerLines d.metadata ++ [[]] ++
      d.entries.flatMap fun e => entryLines e ++ [[]]) := by
    rw [htext, splitOn_unlines (by decide), splitOn_join (List.cons_ne_nil _ _) hblocks,
      List.flatMap_cons, List.flatMap_map]
  have hmark : Reads [Text.ofChar '#'] [] :=
    reads_of_nothing (List.forall_mem_singleton.mpr (line?_comment []))
  have hheader : Reads (headerLines d.metadata) _ := reads_fieldLines none [] none _
  have hfile := hmark.append ((hheader.append reads_empty).append (reads_flatMap_entryLines h))
  have hfields := hfile [] [] rfl
  obtain ⟨hentries, hnot⟩ := messages?_flatMap d.entries
  rw [read?, hlines]
  rw [List.append_nil, List.append_nil, List.append_nil, List.nil_append] at hfields
  rw [hfields]
  change messages? _ = _
  rw [messages?_append none [] none _ hnot, hentries]
  rfl

-- the string of the header of every new file
example : metadataText defaultMetadata = Text.ofString "Project-Id-Version: \n" ++
    Text.ofString "Content-Type: text/plain; charset=UTF-8\n" ++
    Text.ofString "Content-Transfer-Encoding: 8bit\n" := by
  cbv

end Po

/-- The file of a catalog is read as the header and then, in the order of the listing, the entries
of the catalog: each with its context, its message, its plural form, and empty strings, two of them
if it has a plural form. No entry is mistaken for the header, whose message is empty. -/
theorem Options.read?_render_after (lineNumbers : Bool) {calls : List Candidate} (o : Options)
    (hfinish : o.finish = id)
    (h : ∀ x ∈ calls, x.msgid ≠ [] → CodePoint.ofChar '\n' ∉ x.reference.file) :
    Po.read? (o.render (Catalog.after lineNumbers calls)) =
      some (⟨none, [], none, [Po.metadataText Po.defaultMetadata]⟩ ::
        (Catalog.after lineNumbers calls).entries.map fun e =>
          ⟨e.context, e.msgid, e.plural, if e.plural.isSome then [[], []] else [[]]⟩) ∧
    ∀ e ∈ (Catalog.after lineNumbers calls).entries, e.msgid ≠ [] := by
  have honeLine : ∀ e ∈ (Catalog.after lineNumbers calls).entries, Po.OnOneLine e := by
    intro e he r hr
    obtain ⟨-, hsum⟩ := Catalog.summarizes_of_mem_entries lineNumbers he
    obtain ⟨x, hx, rfl⟩ := (hsum.mem_references r).mp hr
    obtain ⟨hx, hblank, -⟩ := mem_callsFor.mp hx
    exact mt (x.reference.mem_render_iff rfl (by decide) (by decide) lineNumbers).mp (h x hx hblank)
  constructor
  · rw [Options.render, hfinish]
    refine (Po.read?_render _ honeLine).trans (congrArg (fun ms => some (_ :: ms)) ?_)
    refine List.map_congr_left fun e he => ?_
    obtain ⟨-, hsum⟩ := Catalog.summarizes_of_mem_entries lineNumbers he
    rw [Po.Message.ofEntry, hsum.messageStrings]
    cases e.plural <;> rfl
  · intro e he
    obtain ⟨hne, -⟩ := Catalog.summarizes_of_mem_entries lineNumbers he
    obtain ⟨x, hx⟩ := List.exists_mem_of_ne_nil _ hne
    obtain ⟨-, hblank, hkey⟩ := mem_callsFor.mp hx
    rwa [show e.msgid = x.msgid from (congrArg Prod.fst hkey).symm]

/-- A call with quotation marks and a line feed in its texts, and with a comment of which one line
is written like a field. -/
def quotedCall : Candidate where
  reference := ⟨"a.js", some 1⟩
  text := "a\x22b"
  plural := some "c\nd"
  comment := some "x\nmsgid \x22y\x22"
  context := some "m"

/-- The file of the catalog of that call is read as the header and the message of the call. -/
theorem Options.read?_render_quotedCall :
    (∀ x ∈ [quotedCall], x.msgid ≠ [] → CodePoint.ofChar '\n' ∉ x.reference.file) ∧
    Po.read? (Options.render {} (Catalog.after true [quotedCall])) =
      some [⟨none, [], none, [Po.metadataText Po.defaultMetadata]⟩,
        ⟨some "m", "a\x22b", some "c\nd", [[], []]⟩] := by
  have h : ∀ x ∈ [quotedCall], x.msgid ≠ [] → CodePoint.ofChar '\n' ∉ x.reference.file :=
    List.forall_mem_singleton.mpr fun _ => by decide
  have hentries : (Catalog.after true [quotedCall]).entries.map (fun e =>
      (⟨e.context, e.msgid, e.plural, if e.plural.isSome then [[], []] else [[]]⟩ : Po.Message)) =
      [⟨some "m", "a\x22b", some "c\nd", [[], []]⟩] := by decide +kernel
  exact ⟨h, (Options.read?_render_after true {} rfl h).1.trans (by rw [hentries])⟩

end MessageExtraction
