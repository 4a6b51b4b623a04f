import MessageExtraction.Proofs.Po.Pieces

/-!
# Reading PO files

A PO file is read line by line. A line without content or with a number sign at its start says
nothing. A keyword with a quoted text begins a field, and quoted texts on lines of their own go on
with it. A message is the field of its context, if it has one, the field of its identifier, and
either the field of its string or that of its plural form with a numbered field for each string.
Everything else is no PO file.

What the writer of fields makes of a text is read as that text.

## Main definitions

* `Po.quoted?` -- the text that is written between quotation marks.
* `Po.line?`, `Po.fields?`, `Po.messages?` -- a line, the fields of lines, the messages of fields.
* `Po.read?` -- the messages of a file.
* `Po.Reads` -- lines are read as fields.

## Main results

* `Po.quoted?_quote` -- a quoted text is read back.
* `Po.reads_field` -- the lines of a field are read as the field.
* `Po.messages?_append` -- the fields of a message are read as the message.
-/

namespace MessageExtraction.Po

/-! ## The reader -/

/-- The letters after a backslash and what they stand for. -/
def letterMeanings : List (Char × Char) :=
  [('\\', '\\'), ('\x22', '\x22'), ('a', '\x07'), ('b', '\x08'), ('f', '\x0c'), ('n', '\n'),
    ('r', '\r'), ('t', '\t'), ('v', '\x0b')]

/-- What a letter after a backslash stands for. -/
def letterMeaning? (c : CodePoint) : Option CodePoint :=
  (letterMeanings.find? fun e => c.is e.1).map fun e => CodePoint.ofChar e.2

/-- The text before a quotation mark that ends a line. No other quotation mark stands before it
without a backslash. -/
def untilMark? : Text → Option Text
  | [] => none
  | [c] => if c.is '\x22' then some [] else none
  | c :: d :: t =>
    if c.is '\\' then (letterMeaning? d).bind fun point => (untilMark? t).map (point :: ·)
    else if c.is '\x22' then none
    else (untilMark? (d :: t)).map (c :: ·)

/-- The text between two quotation marks. -/
def quoted? : Text → Option Text
  | [] => none
  | c :: t => if c.is '\x22' then untilMark? t else none

/-- What a line says. -/
inductive Line
  | nothing
  | more (t : Text)
  | field (keyword t : Text)

/-- What a line says, if it is a line of a PO file. -/
def line? (l : Text) : Option Line :=
  if l.isBlank || l.startsWith (Text.ofChar '#') then some .nothing
  else if l.startsWith (Text.ofChar '\x22') then (quoted? l).map .more
  else
    let keyword := l.takeWhile fun c => !c.is ' '
    (quoted? (l.drop (keyword.length + 1))).map (.field keyword)

/-- A keyword and its text. -/
structure Field where
  keyword : Text
  text : Text
deriving DecidableEq

/-- The fields of lines, and before them what goes on with an earlier field. -/
def fields? : List Text → Option (List Text × List Field)
  | [] => some ([], [])
  | l :: ls => do
    let (more, fields) ← fields? ls
    match ← line? l with
    | .nothing => some (more, fields)
    | .more t => some (t :: more, fields)
    | .field keyword t => some ([], ⟨keyword, (t :: more).flatten⟩ :: fields)

/-- A message of a file. -/
structure Message where
  context : Option Text
  msgid : Text
  plural : Option Text
  strings : List Text
deriving DecidableEq

/-- The keyword of a numbered string. -/
def numberedKeyword (n : Nat) : Text :=
  "msgstr[" ++ Text.ofNat n ++ "]"

/-- The texts of numbered fields, and the fields after them. -/
def numbered (n : Nat) : List Field → List Text × List Field
  | [] => ([], [])
  | f :: fields =>
    if f.keyword = numberedKeyword n then
      let (texts, others) := numbered (n + 1) fields
      (f.text :: texts, others)
    else ([], f :: fields)

/-- The context at the start of fields, and the fields after it. -/
def context? : List Field → Option Text × List Field
  | [] => (none, [])
  | f :: fields => if f.keyword = "msgctxt" then (some f.text, fields) else (none, f :: fields)

/-- The message at the start of fields, and the fields after it. -/
def message? (fields : List Field) : Option (Message × List Field) :=
  let (context, fields) := context? fields
  match fields with
  | msgid :: f :: others =>
    if msgid.keyword ≠ "msgid" then none
    else if f.keyword = "msgid_plural" then
      let (strings, others) := numbered 0 others
      some (⟨context, msgid.text, some f.text, strings⟩, others)
    else if f.keyword = "msgstr" then some (⟨context, msgid.text, none, [f.text]⟩, others)
    else none
  | _ => none

theorem length_numbered_le (n : Nat) (fields : List Field) :
    (numbered n fields).2.length ≤ fields.length := by
  induction fields generalizing n with
  | nil => exact Nat.le_refl _
  | cons f fields ih =>
    rw [numbered]
    split
    · exact Nat.le_succ_of_le (ih (n + 1))
    · exact Nat.le_refl _

theorem length_context?_le (fields : List Field) : (context? fields).2.length ≤ fields.length := by
  cases fields with
  | nil => exact Nat.le_refl _
  | cons f fields =>
    rw [context?]
    split
    · exact Nat.le_succ _
    · exact Nat.le_refl _

theorem length_lt_of_message? {fields others : List Field} {m : Message}
    (h : message? fields = some (m, others)) : others.length < fields.length := by
  refine Nat.lt_of_lt_of_le ?_ (length_context?_le fields)
  rw [message?] at h
  generalize context? fields = rest at h ⊢
  obtain ⟨context, rest⟩ := rest
  match rest, h with
  | msgid :: f :: rest, h =>
    have hnumbered := length_numbered_le 0 rest
    dsimp only [List.length_cons] at h ⊢
    split at h
    · cases h
    · split at h
      · cases h
        omega
      · split at h
        · cases h
          omega
        · cases h

/-- The messages of fields. -/
def messages? (fields : List Field) : Option (List Message) :=
  if fields.isEmpty then some []
  else
    match _h : message? fields with
    | none => none
    | some (m, others) => (messages? others).map (m :: ·)
termination_by fields.length
decreasing_by exact length_lt_of_message? _h

/-- The messages of a file. -/
def read? (t : Text) : Option (List Message) := do
  let (more, fields) ← fields? (t.splitOn '\n')
  if more.isEmpty then messages? fields else none

/-! ## Quoted texts -/

theorem untilMark?_cons {c : CodePoint} (hslash : c ≠ '\\') (hmark : c ≠ '\x22') (t : Text) :
    untilMark? (c :: t) = (untilMark? t).map (c :: ·) := by
  have hslash' : ¬c.is '\\' = true := fun h => hslash (CodePoint.is_iff.mp h)
  have hmark' : ¬c.is '\x22' = true := fun h => hmark (CodePoint.is_iff.mp h)
  cases t with
  | nil => simp [untilMark?, hmark']
  | cons d t => rw [untilMark?, if_neg hslash', if_neg hmark']

theorem untilMark?_escapePoint (c : CodePoint) (t : Text) :
    untilMark? (escapePoint c ++ t) = (untilMark? t).map (c :: ·) := by
  have hletters : ∀ e ∈ escapes,
      letterMeaning? (CodePoint.ofChar e.2) = some (CodePoint.ofChar e.1) := by decide
  rcases escapePoint_cases c with ⟨e, he, rfl, hpoint⟩ | ⟨hpoint, hplain⟩
  · rw [hpoint, List.cons_append, List.cons_append, List.nil_append, untilMark?, if_pos (by rfl),
      hletters e he]
    rfl
  · rw [hpoint, List.cons_append, List.nil_append]
    exact untilMark?_cons (hplain ('\\', '\\') (by decide)) (hplain ('\x22', '\x22') (by decide)) t

theorem untilMark?_escape (t : Text) : untilMark? (escape t ++ Text.ofChar '\x22') = some t := by
  induction t with
  | nil => rfl
  | cons c t ih =>
    have hcons : escape (c :: t) = escapePoint c ++ escape t := rfl
    rw [hcons, List.append_assoc, untilMark?_escapePoint, ih]
    rfl

/-- A quoted text is read back. -/
theorem quoted?_quote (t : Text) : quoted? (quote (escape t)) = some t :=
  untilMark?_escape t

/-! ## Lines -/

/-- A keyword begins with the letter `m`; no space and no line feed is in it. -/
def IsKeyword (keyword : Text) : Prop :=
  keyword.head? = some (CodePoint.ofChar 'm') ∧ CodePoint.ofChar ' ' ∉ keyword ∧
    CodePoint.ofChar '\n' ∉ keyword

section

variable {l t keyword : Text}

theorem line?_nil : line? [] = some .nothing :=
  rfl

theorem line?_comment (t : Text) : line? ('#' :: t) = some .nothing := by
  rw [line?, show Text.startsWith ('#' :: t) (Text.ofChar '#') = true from rfl, Bool.or_true,
    if_pos rfl]

theorem line?_quote (t : Text) : line? (quote (escape t)) = some (.more t) := by
  have hcontent : ((quote (escape t)).isBlank ||
      (quote (escape t)).startsWith (Text.ofChar '#')) = false := rfl
  have hmark : (quote (escape t)).startsWith (Text.ofChar '\x22') = true := rfl
  rw [line?, hcontent, if_neg Bool.false_ne_true, if_pos hmark, quoted?_quote]
  rfl

theorem line?_field (h : IsKeyword keyword) (t : Text) :
    line? (keyword ++ Text.ofChar ' ' ++ quote (escape t)) = some (.field keyword t) := by
  obtain ⟨rest, rfl, hspace⟩ : ∃ rest, keyword = CodePoint.ofChar 'm' :: rest ∧
      CodePoint.ofChar ' ' ∉ keyword := by
    cases keyword with
    | nil => cases h.1
    | cons c rest => exact ⟨rest, by rw [Option.some.inj h.1], h.2.1⟩
  generalize hl : CodePoint.ofChar 'm' :: rest ++ Text.ofChar ' ' ++ quote (escape t) = l
  have htake : l.takeWhile (fun c => !c.is ' ') = CodePoint.ofChar 'm' :: rest := by
    rw [← hl, List.append_assoc, List.takeWhile_append_of_pos]
    · exact List.append_nil _
    · intro c hc
      rw [Bool.not_eq_true', Bool.eq_false_iff]
      exact fun h => hspace (CodePoint.is_iff.mp h ▸ hc)
  have hdrop : l.drop ((CodePoint.ofChar 'm' :: rest).length + 1) = quote (escape t) := by
    rw [← hl]
    exact List.drop_left' List.length_append
  have hcontent : (Text.isBlank l || Text.startsWith l (Text.ofChar '#')) = false := by
    rw [← hl]
    rfl
  have hmark : Text.startsWith l (Text.ofChar '\x22') = false := by
    rw [← hl]
    rfl
  rw [line?, hcontent, hmark, if_neg Bool.false_ne_true, if_neg Bool.false_ne_true]
  dsimp only
  rw [htake, hdrop, quoted?_quote]
  rfl

end

/-! ## Fields -/

/-- Lines are read as fields, whatever fields come after them. -/
def Reads (lines : List Text) (fields : List Field) : Prop :=
  ∀ rest others, fields? rest = some ([], others) →
    fields? (lines ++ rest) = some ([], fields ++ others)

section

variable {lines lines' : List Text} {fields fields' : List Field} {l t keyword : Text}

theorem Reads.append (h : Reads lines fields) (h' : Reads lines' fields') :
    Reads (lines ++ lines') (fields ++ fields') := by
  intro rest others hrest
  rw [List.append_assoc, List.append_assoc]
  exact h _ _ (h' _ _ hrest)

theorem reads_nil : Reads [] [] :=
  fun _ _ h => h

theorem reads_of_nothing (h : ∀ l ∈ lines, line? l = some .nothing) : Reads lines [] := by
  induction lines with
  | nil => exact reads_nil
  | cons l lines ih =>
    obtain ⟨hl, hlines⟩ := List.forall_mem_cons.mp h
    intro rest others hrest
    have hmore := ih hlines rest others hrest
    rw [List.cons_append, fields?, hmore]
    dsimp only [Option.bind_eq_bind, Option.bind_some]
    rw [hl]
    rfl

/-- Quoted texts on lines of their own go on with what comes before them. -/
theorem fields?_quote (parts : List Text) {rest : List Text} {others : List Field}
    (h : fields? rest = some ([], others)) :
    fields? (parts.map (fun t => quote (escape t)) ++ rest) = some (parts, others) := by
  induction parts with
  | nil => exact h
  | cons t parts ih =>
    rw [List.map_cons, List.cons_append, fields?, ih]
    dsimp only [Option.bind_eq_bind, Option.bind_some]
    rw [line?_quote]
    rfl

/-- The lines of a field are read as the field. -/
theorem reads_field (h : IsKeyword keyword) (t : Text) :
    Reads (field keyword t) [⟨keyword, t⟩] := by
  intro rest others hrest
  obtain ⟨first, parts, hpieces, rfl⟩ := exists_parts_of_pieces keyword t
  have hlines : field keyword (first :: parts).flatten =
      (keyword ++ Text.ofChar ' ' ++ quote (escape first)) ::
        parts.map fun t => quote (escape t) := by
    rw [field, hpieces, List.map_map]
    rfl
  rw [hlines, List.cons_append, fields?, fields?_quote parts hrest]
  dsimp only [Option.bind_eq_bind, Option.bind_some]
  rw [line?_field h]
  rfl

theorem reads_flatMap_field (h : ∀ f ∈ fields, IsKeyword f.keyword) :
    Reads (fields.flatMap fun f => field f.keyword f.text) fields := by
  induction fields with
  | nil => exact reads_nil
  | cons f fields ih =>
    obtain ⟨hf, hfields⟩ := List.forall_mem_cons.mp h
    exact (reads_field hf f.text).append (ih hfields)

end

/-! ## Messages -/

/-- The field of a context. -/
def contextFields (context : Option Text) : List Field :=
  context.toList.map fun context => ⟨"msgctxt", context⟩

/-- The fields of the strings of a message, and of its plural form if it has one. -/
def stringFields (plural : Option Text) (strings : List Text) : List Field :=
  match plural with
  | some plural => ⟨"msgid_plural", plural⟩ ::
      strings.zipIdx.map fun t => ⟨numberedKeyword t.2, t.1⟩
  | none => [⟨"msgstr", strings.headD []⟩]

/-- The fields of a message. -/
def messageFields (context : Option Text) (msgid : Text) (plural : Option Text)
    (strings : List Text) : List Field :=
  contextFields context ++ ⟨"msgid", msgid⟩ :: stringFields plural strings

/-- The strings that a file shows of a message: all if it has a plural form, else the first. -/
def shownStrings (plural : Option Text) (strings : List Text) : List Text :=
  match plural with
  | some _ => strings
  | none => [strings.headD []]

theorem isKeyword_numberedKeyword (n : Nat) : IsKeyword (numberedKeyword n) := by
  have hnot {ch : Char} (hdigit : (CodePoint.ofChar ch).isAsciiDigit = false)
      (hfirst : CodePoint.ofChar ch ∉ Text.ofString "msgstr[")
      (hlast : CodePoint.ofChar ch ∉ Text.ofString "]") :
      CodePoint.ofChar ch ∉ numberedKeyword n := by
    simp only [numberedKeyword, List.mem_append, not_or]
    exact ⟨⟨hfirst, Text.not_mem_ofNat hdigit n⟩, hlast⟩
  exact ⟨rfl, hnot rfl (by decide) (by decide), hnot rfl (by decide) (by decide)⟩

/-- The keywords of fields other than numbered strings. -/
def plainKeywords : List Text :=
  ["msgctxt", "msgid", "msgid_plural", "msgstr"]

theorem isKeyword_of_mem_plainKeywords {keyword : Text} (h : keyword ∈ plainKeywords) :
    IsKeyword keyword := by
  have hall : ∀ k ∈ plainKeywords, k.head? = some (CodePoint.ofChar 'm') ∧
      CodePoint.ofChar ' ' ∉ k ∧ CodePoint.ofChar '\n' ∉ k := by decide
  exact hall keyword h

section

variable {context plural : Option Text} {msgid : Text} {strings : List Text} {f : Field}

theorem isKeyword_of_mem_stringFields (h : f ∈ stringFields plural strings) :
    IsKeyword f.keyword := by
  cases plural with
  | none =>
    obtain rfl := List.mem_singleton.mp h
    exact isKeyword_of_mem_plainKeywords (by simp [plainKeywords])
  | some plural =>
    rcases List.mem_cons.mp h with rfl | h
    · exact isKeyword_of_mem_plainKeywords (by simp [plainKeywords])
    · obtain ⟨t, -, rfl⟩ := List.mem_map.mp h
      exact isKeyword_numberedKeyword t.2

theorem isKeyword_of_mem_messageFields (h : f ∈ messageFields context msgid plural strings) :
    IsKeyword f.keyword := by
  rcases List.mem_append.mp h with h | h
  · obtain ⟨context, -, rfl⟩ := List.mem_map.mp h
    exact isKeyword_of_mem_plainKeywords (by simp [plainKeywords])
  · rcases List.mem_cons.mp h with rfl | h
    · exact isKeyword_of_mem_plainKeywords (by simp [plainKeywords])
    · exact isKeyword_of_mem_stringFields h

end

section

variable (context : Option Text) (msgid : Text) (plural : Option Text) (strings : List Text)

/-- The lines of a message are those of its fields. -/
theorem fieldLines_eq_flatMap : fieldLines context msgid plural strings =
    (messageFields context msgid plural strings).flatMap fun f => field f.keyword f.text := by
  have hcontext : (match context with
      | some context => field "msgctxt" context
      | none => []) = (contextFields context).flatMap fun f => field f.keyword f.text := by
    cases context with
    | none => rfl
    | some context => exact (List.flatMap_singleton ..).symm
  have hstrings : (match plural with
      | some plural => field "msgid_plural" plural ++
          (strings.zipIdx.flatMap fun t => field ("msgstr[" ++ Text.ofNat t.2 ++ "]") t.1)
      | none => field "msgstr" (strings.headD [])) =
      (stringFields plural strings).flatMap fun f => field f.keyword f.text := by
    cases plural with
    | none => exact (List.flatMap_singleton ..).symm
    | some plural =>
      rw [stringFields, List.flatMap_cons, List.flatMap_map]
      rfl
  unfold fieldLines
  rw [messageFields, List.flatMap_append, List.flatMap_cons, ← hcontext, ← hstrings]
  exact List.append_assoc ..

/-- The lines of the fields of a message are read as the fields. -/
theorem reads_fieldLines :
    Reads (fieldLines context msgid plural strings)
      (messageFields context msgid plural strings) := by
  rw [fieldLines_eq_flatMap]
  exact reads_flatMap_field fun f => isKeyword_of_mem_messageFields

end

/-- No numbered string is at the start of fields. -/
def NotNumbered (fields : List Field) : Prop :=
  ∀ f ∈ fields.head?, ∀ n, f.keyword ≠ numberedKeyword n

theorem notNumbered_messageFields (context : Option Text) (msgid : Text) (plural : Option Text)
    (strings : List Text) (others : List Field) :
    NotNumbered (messageFields context msgid plural strings ++ others) := by
  intro f hf n heq
  have hstart : f.keyword.take 4 = Text.ofString "msgs" := by
    rw [heq]
    rfl
  have hkeyword : f.keyword = Text.ofString "msgctxt" ∨ f.keyword = Text.ofString "msgid" := by
    cases context with
    | none =>
      cases hf
      exact .inr rfl
    | some context =>
      cases hf
      exact .inl rfl
  rcases hkeyword with h | h <;>
    · rw [h] at hstart
      exact absurd hstart (by decide)

theorem numbered_append (n : Nat) (strings : List Text) {others : List Field}
    (h : NotNumbered others) :
    numbered n ((strings.zipIdx n).map (fun t => ⟨numberedKeyword t.2, t.1⟩) ++ others) =
      (strings, others) := by
  induction strings generalizing n with
  | nil =>
    cases others with
    | nil => rfl
    | cons f others =>
      rw [List.zipIdx_nil, List.map_nil, List.nil_append, numbered, if_neg (h f rfl n)]
  | cons t strings ih =>
    rw [List.zipIdx_cons, List.map_cons, List.cons_append, numbered, if_pos rfl, ih (n + 1)]

theorem message?_append (context : Option Text) (msgid : Text) (plural : Option Text)
    (strings : List Text) {others : List Field} (h : NotNumbered others) :
    message? (messageFields context msgid plural strings ++ others) =
      some (⟨context, msgid, plural, shownStrings plural strings⟩, others) := by
  have hcontext (fields : List Field) : context? (contextFields context ++
      ⟨"msgid", msgid⟩ :: fields) = (context, ⟨"msgid", msgid⟩ :: fields) := by
    have hmsgid : Text.ofString "msgid" ≠ Text.ofString "msgctxt" := by decide
    cases context with
    | none =>
      change context? (_ :: fields) = _
      rw [context?, if_neg hmsgid]
    | some context =>
      change context? (_ :: _ :: fields) = _
      rw [context?, if_pos rfl]
  rw [message?, messageFields, List.append_assoc, List.cons_append, hcontext]
  cases plural with
  | none =>
    have hplural : Text.ofString "msgstr" ≠ Text.ofString "msgid_plural" := by decide
    exact (if_neg (not_not_intro rfl)).trans ((if_neg hplural).trans (if_pos rfl))
  | some plural =>
    dsimp only [stringFields, List.cons_append]
    rw [if_neg (not_not_intro rfl), if_pos rfl, numbered_append 0 strings h]
    rfl

/-- The fields of a message are read as the message. -/
theorem messages?_append (context : Option Text) (msgid : Text) (plural : Option Text)
    (strings : List Text) {others : List Field} (h : NotNumbered others) :
    messages? (messageFields context msgid plural strings ++ others) =
      (messages? others).map (⟨context, msgid, plural, shownStrings plural strings⟩ :: ·) := by
  have hmessage := message?_append context msgid plural strings h
  have hne : ¬(messageFields context msgid plural strings ++ others).isEmpty = true := by
    cases context <;> exact Bool.false_ne_true
  rw [messages?, if_neg hne]
  split
  · next hnone =>
    rw [hmessage] at hnone
    cases hnone
  · next m rest hsome =>
    rw [hmessage] at hsome
    cases hsome
    rfl

end MessageExtraction.Po
