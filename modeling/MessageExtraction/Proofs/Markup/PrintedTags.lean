import Mathlib.Data.List.TakeWhile
import MessageExtraction.Markup.Serialize
import MessageExtraction.Proofs.Markup.Steps

/-!
# Reading tags that are written plainly

A start tag is written plainly with a space before each attribute and its value between double
quotation marks. Such a tag is read back, and so is the end tag of a name.

## Main definitions

* `Markup.IsTagName` -- a name of elements in lower case.
* `Markup.IsPlain` -- an attribute that can be written plainly.
* `Markup.printStartTag` -- a start tag as it is written plainly.

## Main results

* `read_printStartTag` -- a start tag that is written plainly is read back.
* `readEndTag_writeEndTag` -- so is an end tag.
-/

namespace MessageExtraction.Markup

/-- The name of an element in lower case, without white space and ampersands. -/
structure IsTagName (name : Text) : Prop where
  letter : (name.head?.any CodePoint.isAsciiLetter) = true
  continues : ∀ c ∈ name.tail, continuesTagName c = true
  lower_eq : Text.lower name = name
  plain : ∀ c ∈ name, c.isBlank = false ∧ c.is '&' = false

instance (name : Text) : Decidable (IsTagName name) :=
  decidable_of_iff ((name.head?.any CodePoint.isAsciiLetter) = true ∧
      (∀ c ∈ name.tail, continuesTagName c = true) ∧ Text.lower name = name ∧
      ∀ c ∈ name, c.isBlank = false ∧ c.is '&' = false)
    ⟨fun ⟨hletter, hcontinues, hlower, hplain⟩ => ⟨hletter, hcontinues, hlower, hplain⟩,
      fun ⟨hletter, hcontinues, hlower, hplain⟩ => ⟨hletter, hcontinues, hlower, hplain⟩⟩

theorem IsTagName.begins {name : Text} (h : IsTagName name) : ∃ c rest, name = c :: rest ∧
    c.isAsciiLetter = true ∧ ∀ d ∈ rest, continuesTagName d = true := by
  have hletter := h.letter
  cases name with
  | nil => cases hletter
  | cons c rest => exact ⟨c, rest, rfl, hletter, h.continues⟩

/-- An attribute whose name is in lower case, ampersands excluded, and whose value holds no double
quotation mark. -/
structure IsPlain (a : Attribute) : Prop where
  name_ne_nil : a.name ≠ []
  continues : ∀ c ∈ a.name, continuesAttributeName c = true
  lower_eq : Text.lower a.name = a.name
  plain : ∀ c ∈ a.name, c.is '&' = false
  value : ∀ c ∈ a.value, c.is '\x22' = false

instance (a : Attribute) : Decidable (IsPlain a) :=
  decidable_of_iff (a.name ≠ [] ∧ (∀ c ∈ a.name, continuesAttributeName c = true) ∧
      Text.lower a.name = a.name ∧ (∀ c ∈ a.name, c.is '&' = false) ∧
      ∀ c ∈ a.value, c.is '\x22' = false)
    ⟨fun ⟨hname, hcontinues, hlower, hplain, hvalue⟩ => ⟨hname, hcontinues, hlower, hplain, hvalue⟩,
      fun ⟨hname, hcontinues, hlower, hplain, hvalue⟩ =>
        ⟨hname, hcontinues, hlower, hplain, hvalue⟩⟩

/-- An attribute as it is written plainly, with the space before it. -/
def printAttribute (a : Attribute) : Text :=
  Text.ofChar ' ' ++ a.name ++ Text.ofChar '=' ++
    (Text.ofChar '\x22' ++ a.value ++ Text.ofChar '\x22')

/-- A start tag as it is written plainly. -/
def printStartTag (name : Text) (attributes : List Attribute) : Text :=
  Text.ofChar '<' ++ name ++ attributes.flatMap printAttribute ++ Text.ofChar '>'

theorem takeWhile_append_of_all {p : CodePoint → Bool} {t : Text} (h : ∀ c ∈ t, p c = true)
    {d : CodePoint} (hd : p d = false) (rest : Text) :
    (t ++ d :: rest).takeWhile p = t := by
  rw [List.takeWhile_append_of_pos h, List.takeWhile_cons, hd]
  exact List.append_nil t

/-! ## Attributes -/

/-- A value between double quotation marks after an equals sign is assigned. -/
theorem assignedValue?_quoted {value : Text} (h : ∀ c ∈ value, c.is '\x22' = false) (rest : Text) :
    assignedValue?
        (Text.ofChar '=' ++ (Text.ofChar '\x22' ++ value ++ Text.ofChar '\x22') ++ rest) =
      some (value, value.length + 3) := by
  have hbody : (value ++ CodePoint.ofChar '\x22' :: rest).takeWhile
      (fun d => d ≠ CodePoint.ofChar '\x22') = value := by
    refine takeWhile_append_of_all (fun c hc => ?_) (by decide) rest
    have := h c hc
    rw [← Bool.not_eq_true, CodePoint.is_iff] at this
    exact decide_eq_true this
  have hvalue : value? (CodePoint.ofChar '\x22' :: (value ++ CodePoint.ofChar '\x22' :: rest)) =
      some (value, value.length + 2) := by
    rw [value?, if_pos (by decide)]
    dsimp only
    rw [hbody, if_pos (by simp)]
  have htext : Text.ofChar '=' ++ (Text.ofChar '\x22' ++ value ++ Text.ofChar '\x22') ++ rest =
      CodePoint.ofChar '=' :: CodePoint.ofChar '\x22' ::
        (value ++ CodePoint.ofChar '\x22' :: rest) := by
    simp [Text.ofChar]
  have hblanks (t : Text) : Text.blankLength (CodePoint.ofChar '\x22' :: t) = 0 := by
    rw [Text.blankLength, List.takeWhile_cons, if_neg (by decide)]
    rfl
  have hbefore (t : Text) : Text.blankLength (CodePoint.ofChar '=' :: t) = 0 := by
    rw [Text.blankLength, List.takeWhile_cons, if_neg (by decide)]
    rfl
  have hsigns (t : Text) : ((CodePoint.ofChar '=' :: CodePoint.ofChar '\x22' :: t).takeWhile
      fun c => c.is '=').length = 1 := by
    rw [List.takeWhile_cons, if_pos (by decide), List.takeWhile_cons, if_neg (by decide)]
    rfl
  rw [htext, assignedValue?]
  simp only [hbefore, List.drop_zero, hsigns, Nat.zero_add, List.drop_succ_cons, hblanks, hvalue,
    Nat.add_zero]
  simp only [Nat.one_ne_zero, if_false, Option.some.injEq, Prod.mk.injEq, true_and]
  omega

variable {attributes : List Attribute}

/-- The text of attributes that a `>` and more follow. -/
def attributesText (attributes : List Attribute) (rest : Text) : Text :=
  attributes.flatMap printAttribute ++ CodePoint.ofChar '>' :: rest

theorem gapLength_of_blank {c : CodePoint} (hc : c.isBlank = true) (t : Text) :
    gapLength (c :: t) = gapLength t + 1 := by
  rw [gapLength, hc, Bool.true_or, if_pos rfl]

theorem gapLength_of_not_blank {c : CodePoint} (hc : c.isBlank = false) (hslash : c.is '/' = false)
    (t : Text) : gapLength (c :: t) = 0 := by
  rw [gapLength, hc, hslash, Bool.false_and, Bool.or_false, if_neg Bool.false_ne_true]

/-- Before further attributes there is a gap of one space. -/
theorem gapLength_attributesText (h : ∀ a ∈ attributes, IsPlain a) (rest : Text) :
    gapLength (attributesText attributes rest) = if attributes = [] then 0 else 1 := by
  cases attributes with
  | nil => exact gapLength_of_not_blank (by decide) (by decide) rest
  | cons a others =>
    have ha := h a (List.mem_cons_self ..)
    obtain ⟨c, name, hname⟩ := List.exists_cons_of_ne_nil ha.name_ne_nil
    have hc := ha.continues c (by rw [hname]; exact List.mem_cons_self ..)
    simp only [continuesAttributeName, CodePoint.isAny, List.any_cons, Bool.not_eq_true',
      Bool.or_eq_false_iff] at hc
    have htext : attributesText (a :: others) rest = CodePoint.ofChar ' ' :: c :: (name ++
        Text.ofChar '=' ++ (Text.ofChar '\x22' ++ a.value ++ Text.ofChar '\x22') ++
        attributesText others rest) := by
      simp [attributesText, printAttribute, hname, Text.ofChar]
    rw [htext, if_neg (List.cons_ne_nil a others), gapLength_of_blank (by decide),
      gapLength_of_not_blank hc.1 hc.2.1]

/-- An attribute that is written plainly is read with the gap after it. -/
theorem readAttribute?_plain {before : CodePoint} (hbefore : separatesAttributes before = true)
    {a : Attribute} (h : IsPlain a) (rest : Text) :
    readAttribute? before (a.name ++ Text.ofChar '=' ++
        (Text.ofChar '\x22' ++ a.value ++ Text.ofChar '\x22') ++ rest) =
      some (a, a.name.length + a.value.length + 2 + gapLength rest) := by
  obtain ⟨c, name, hname⟩ := List.exists_cons_of_ne_nil h.name_ne_nil
  have hall := h.continues
  rw [hname] at hall
  obtain ⟨hc, hothers⟩ := List.forall_mem_cons.mp hall
  have hbegins : (separatesAttributes before && !(c.isBlank || c.isAny ['/', '>'])) = true := by
    simp only [continuesAttributeName, CodePoint.isAny, List.any_cons, List.any_nil,
      Bool.not_eq_true', Bool.or_eq_false_iff] at hc
    rw [hbefore]
    simp only [CodePoint.isAny, List.any_cons, List.any_nil, hc.1, hc.2.1, hc.2.2.2.1]
    rfl
  have htail : name ++ Text.ofChar '=' ++
      (Text.ofChar '\x22' ++ a.value ++ Text.ofChar '\x22') ++ rest =
      name ++ CodePoint.ofChar '=' ::
        (Text.ofChar '\x22' ++ a.value ++ Text.ofChar '\x22' ++ rest) := by
    simp [Text.ofChar]
  have hvalue := assignedValue?_quoted h.value rest
  have htake : (name ++ CodePoint.ofChar '=' :: (Text.ofChar '\x22' ++ a.value ++
      Text.ofChar '\x22' ++ rest)).takeWhile continuesAttributeName = name :=
    takeWhile_append_of_all hothers (by decide) _
  have hdrop : (c :: (name ++ CodePoint.ofChar '=' :: (Text.ofChar '\x22' ++ a.value ++
      Text.ofChar '\x22' ++ rest))).drop (c :: name).length =
      Text.ofChar '=' ++ (Text.ofChar '\x22' ++ a.value ++ Text.ofChar '\x22') ++ rest := by
    simp [Text.ofChar]
  have hrest :
      (Text.ofChar '=' ++ (Text.ofChar '\x22' ++ a.value ++ Text.ofChar '\x22') ++ rest).drop
        (a.value.length + 3) = rest := by
    rw [List.drop_append_of_le_length (by simp [Text.ofChar]), List.drop_of_length_le
      (by simp [Text.ofChar]), List.nil_append]
  rw [hname, List.cons_append, List.cons_append, List.cons_append, htail, readAttribute?,
    if_pos hbegins]
  simp only [htake, hdrop, hvalue, Option.getD_some, hrest]
  rw [← hname, h.lower_eq]
  congr 2
  omega

/-- Attributes that are written plainly are read up to the `>` after them. -/
theorem readAttributes_plain (h : ∀ a ∈ attributes, IsPlain a) {before : CodePoint}
    (hbefore : attributes ≠ [] → separatesAttributes before = true) (rest : Text) :
    readAttributes before ((attributesText attributes rest).drop
        (gapLength (attributesText attributes rest))) =
      (attributes, CodePoint.ofChar '>' :: rest) := by
  induction attributes generalizing before with
  | nil =>
    rw [gapLength_attributesText h, if_pos rfl, List.drop_zero, attributesText, List.flatMap_nil,
      List.nil_append, readAttributes, readAttribute?,
      if_neg (by rw [Bool.and_eq_true]; exact fun h => absurd h.2 (by decide))]
  | cons a others ih =>
    obtain ⟨ha, hothers⟩ := List.forall_mem_cons.mp h
    obtain ⟨c, name, hname⟩ := List.exists_cons_of_ne_nil ha.name_ne_nil
    let whole := name ++ Text.ofChar '=' ++ (Text.ofChar '\x22' ++ a.value ++ Text.ofChar '\x22')
    have htext : (attributesText (a :: others) rest).drop
        (gapLength (attributesText (a :: others) rest)) =
        c :: (whole ++ attributesText others rest) := by
      rw [gapLength_attributesText h, if_neg (List.cons_ne_nil a others)]
      simp [attributesText, printAttribute, hname, Text.ofChar, whole]
    have hread := readAttribute?_plain (hbefore (List.cons_ne_nil a others)) ha
      (attributesText others rest)
    have hsame : a.name ++ Text.ofChar '=' ++
        (Text.ofChar '\x22' ++ a.value ++ Text.ofChar '\x22') ++
        attributesText others rest = c :: (whole ++ attributesText others rest) := by
      simp [hname, whole]
    have hlength : a.name.length + a.value.length + 2 + gapLength (attributesText others rest) =
        whole.length + gapLength (attributesText others rest) := by
      simp only [hname, whole, Text.ofChar, List.length_append, List.length_cons, List.length_nil]
      omega
    rw [hsame, hlength] at hread
    have hdrop : (whole ++ attributesText others rest).drop
        (whole.length + gapLength (attributesText others rest)) =
        (attributesText others rest).drop (gapLength (attributesText others rest)) :=
      List.drop_length_add_append _
    have hlast : others ≠ [] → separatesAttributes (((whole ++ attributesText others rest).take
        (whole.length + gapLength (attributesText others rest))).getLastD c) = true := by
      intro hne
      obtain ⟨b, bs, rfl⟩ := List.exists_cons_of_ne_nil hne
      rw [gapLength_attributesText hothers, if_neg (List.cons_ne_nil b bs),
        List.take_length_add_append]
      simp only [attributesText, printAttribute, List.flatMap_cons, Text.ofChar, List.cons_append,
        List.take_succ_cons, List.take_zero, List.getLastD_concat]
      decide
    rw [htext, readAttributes, hread]
    dsimp only
    rw [hdrop, ih hothers hlast]

/-! ## Tags -/

theorem tagNameLength?_of_isTagName {name : Text} (h : IsTagName name) {c : CodePoint}
    (hc : continuesTagName c = false) (rest : Text) :
    tagNameLength? (name ++ c :: rest) = some name.length := by
  obtain ⟨d, others, rfl, hletter, hothers⟩ := h.begins
  rw [List.cons_append, tagNameLength?, if_pos hletter, takeWhile_append_of_all hothers hc]
  rfl

/-- A start tag that is written plainly is read back. -/
theorem read_printStartTag {name : Text} (hname : IsTagName name) (h : ∀ a ∈ attributes, IsPlain a)
    (rest : Text) :
    StartTag.read ((printStartTag name attributes).drop 1 ++ rest) =
      .tag ⟨name, attributes, false⟩ rest := by
  have htext : (printStartTag name attributes).drop 1 ++ rest =
      name ++ attributesText attributes rest := by
    simp [printStartTag, attributesText, Text.ofChar]
  have hlength : tagNameLength? (name ++ attributesText attributes rest) = some name.length := by
    cases attributes with
    | nil => exact tagNameLength?_of_isTagName hname (by decide) rest
    | cons a others =>
      have hspace : attributesText (a :: others) rest = CodePoint.ofChar ' ' :: (a.name ++
          Text.ofChar '=' ++ (Text.ofChar '\x22' ++ a.value ++ Text.ofChar '\x22') ++
          attributesText others rest) := by
        simp [attributesText, printAttribute, Text.ofChar]
      rw [hspace]
      exact tagNameLength?_of_isTagName hname (by decide) _
  have hlast : attributes ≠ [] → separatesAttributes (((name ++ attributesText attributes rest).take
      (name.length + gapLength (attributesText attributes rest))).getLastD
        (CodePoint.ofChar '<')) = true := by
    intro hne
    obtain ⟨a, others, rfl⟩ := List.exists_cons_of_ne_nil hne
    rw [gapLength_attributesText h, if_neg hne, List.take_length_add_append]
    simp only [attributesText, printAttribute, List.flatMap_cons, Text.ofChar, List.cons_append,
      List.take_succ_cons, List.take_zero, List.getLastD_concat]
    decide
  have hread := readAttributes_plain h hlast rest
  rw [htext, StartTag.read, hlength]
  simp only [List.drop_left, List.drop_length_add_append, hread, List.take_left, hname.lower_eq]
  rw [if_pos (by decide)]

theorem isAsciiLetter_ne {c : CodePoint} (h : c.isAsciiLetter = true) {d : CodePoint}
    (hd : d.isAsciiLetter = false) : c ≠ d := by
  rintro rfl
  rw [h] at hd
  cases hd

/-- No name holds a `>`. -/
theorem IsTagName.no_closing {name : Text} (h : IsTagName name) : ∀ c ∈ name, c.is '>' = false := by
  obtain ⟨d, others, rfl, hletter, hothers⟩ := h.begins
  intro c hc
  rw [← Bool.not_eq_true, CodePoint.is_iff]
  rcases List.mem_cons.mp hc with rfl | hc
  · exact isAsciiLetter_ne hletter (by decide)
  · rintro rfl
    exact absurd (hothers _ hc) (by decide)

theorem closing?_of_append {t : Text} (h : ∀ c ∈ t, c.is '>' = false) (rest : Text) :
    closing? (t ++ CodePoint.ofChar '>' :: rest) = some t.length := by
  induction t with
  | nil => rfl
  | cons c t ih =>
    have hc : CodePoint.ofChar '>' ≠ c := by
      have := h c (List.mem_cons_self ..)
      rw [← Bool.not_eq_true, CodePoint.is_iff] at this
      exact Ne.symm this
    have hnext := ih fun d hd => h d (List.mem_cons_of_mem c hd)
    rw [closing?, Option.map_eq_some_iff] at hnext ⊢
    obtain ⟨⟨i, n⟩, hsearch, hi⟩ := hnext
    refine ⟨(i + 1, n), ?_, congrArg (· + 1) hi⟩
    rw [List.cons_append, search, Text.startsWith, Text.after?, if_neg hc]
    change Option.map _ (search _ _) = _
    rw [hsearch]
    rfl

theorem blankLength_of_not_blank {c : CodePoint} (h : c.isBlank = false) (t : Text) :
    Text.blankLength (c :: t) = 0 := by
  rw [Text.blankLength, List.takeWhile_cons, h]
  rfl

/-- If a well-formed end tag is found where one of a name is written, it is that of the name. -/
theorem eq_of_endTagName? {name found : Text} (h : IsTagName name) {rest : Text}
    (hfound : endTagName? (name ++ CodePoint.ofChar '>' :: rest) = some found) : found = name := by
  have hstart : (name ++ CodePoint.ofChar '>' :: rest).drop
      (Text.blankLength (name ++ CodePoint.ofChar '>' :: rest)) =
      name ++ CodePoint.ofChar '>' :: rest := by
    obtain ⟨c, others, rfl, -⟩ := h.begins
    rw [List.cons_append, blankLength_of_not_blank (h.plain c (List.mem_cons_self ..)).1,
      List.drop_zero]
  rw [endTagName?, hstart] at hfound
  generalize hpoint : (fun c : CodePoint => c.isAsciiLetter || c.isAsciiDigit ||
    c.isAny ['-', '.', ':', '_']) = isNamePoint at hfound
  have hend : isNamePoint (CodePoint.ofChar '>') = false := by
    rw [← hpoint]
    decide
  -- The name is read up to its first code point that well-formed end tags do not allow.
  cases hstop : name.dropWhile isNamePoint with
  | nil =>
    have hall := List.dropWhile_eq_nil_iff.mp hstop
    rw [takeWhile_append_of_all hall hend, h.lower_eq] at hfound
    exact (Option.some.inj (Option.ite_none_right_eq_some.mp hfound).2).symm
  | cons d others =>
    have hd : isNamePoint d = false := by
      have hne : name.dropWhile isNamePoint ≠ [] := by
        rw [hstop]
        exact List.cons_ne_nil d others
      simpa only [hstop, List.head_cons, Bool.not_eq_true] using
        List.head_dropWhile_not isNamePoint hne
    obtain ⟨first, hname, hfirst⟩ : ∃ first, name = first ++ d :: others ∧
        ∀ c ∈ first, isNamePoint c = true :=
      ⟨name.takeWhile isNamePoint, by rw [← hstop, List.takeWhile_append_dropWhile],
        fun c hc => List.mem_takeWhile_imp hc⟩
    have hmem : d ∈ name := by simp [hname]
    have hne : CodePoint.ofChar '>' ≠ d := by
      have := h.no_closing d hmem
      rw [← Bool.not_eq_true, CodePoint.is_iff] at this
      exact Ne.symm this
    rw [hname, List.append_assoc, List.cons_append, takeWhile_append_of_all hfirst hd,
      List.drop_left,
      blankLength_of_not_blank (h.plain d hmem).1, List.drop_zero, Text.startsWith, Text.after?,
      if_neg hne, Option.isSome_none, Bool.and_false, if_neg Bool.false_ne_true] at hfound
    cases hfound

/-- The end tag of a name is read back outside of raw elements. -/
theorem readEndTag_writeEndTag {name : Text} (h : IsTagName name) (rest : Text) :
    readEndTag none (writeEndTag name ++ rest) =
      .events [.endTag name] (writeEndTag name).length none := by
  have htext : writeEndTag name ++ rest = CodePoint.ofChar '<' :: CodePoint.ofChar '/' ::
      (name ++ CodePoint.ofChar '>' :: rest) := by
    simp [writeEndTag, Text.ofChar, Text.ofString]
  have hlength : (writeEndTag name).length = name.length + 2 + 1 := by
    simp [writeEndTag, Text.ofChar, Text.ofString]
  have hclosing : closing? (CodePoint.ofChar '<' :: CodePoint.ofChar '/' ::
      (name ++ CodePoint.ofChar '>' :: rest)) = some (name.length + 2) := by
    refine closing?_of_append (t := CodePoint.ofChar '<' :: CodePoint.ofChar '/' :: name) ?_ rest
    simp only [List.mem_cons]
    rintro c (rfl | rfl | hc)
    · decide
    · decide
    · exact h.no_closing c hc
  rw [htext, readEndTag, hclosing, hlength]
  simp only [List.drop_succ_cons, List.drop_zero, Option.isSome_none, Bool.false_and,
    Bool.false_eq_true, if_false]
  split
  · next found hfound => rw [eq_of_endTagName? h hfound]
  · have hgap : gapLength (CodePoint.ofChar '>' :: rest) = 0 :=
      gapLength_of_not_blank (by decide) (by decide) rest
    have hclose : closing? (CodePoint.ofChar '>' :: rest) = some 0 :=
      closing?_of_append (t := []) (by simp) rest
    rw [tagNameLength?_of_isTagName h (by decide) rest]
    simp only [List.drop_left, hgap, Nat.add_zero, hclose, List.take_left, h.lower_eq]
    congr 1
    omega

end MessageExtraction.Markup
