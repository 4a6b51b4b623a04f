import MessageExtraction.Text.Blank
import MessageExtraction.Text.Digit
import MessageExtraction.Text.Word

/-!
# Filling lines

A long text is cut into chunks that no line break may divide: rows of blanks,
words, and rows of hyphens between words. A word may also be divided after a
hyphen between letters. Lines are filled with as many chunks as fit; a chunk
longer than a line has a line of its own. Only ASCII white space divides words.

## Main definitions

* `Wrap.chunks` -- the chunks of a text.
* `Wrap.fill` -- the lines that chunks fill.
* `Wrap.lines` -- the lines of a text.

## Main results

* `Wrap.takeFitting_append` -- filling a line loses no chunk.
-/

namespace MessageExtraction.Wrap

/-- The white space that divides words. -/
def isSpace (c : CodePoint) : Bool :=
  c.isAny ['\t', '\n', '\x0b', '\x0c', '\r', ' ']

/-- The code points after which a row of hyphens is a dash between words. -/
def isWordOrPunctuation (c : CodePoint) : Bool :=
  c.isWord || c.isAny ['!', '\x22', '\x27', '&', '.', ',', '?']

/-- The letters between which a hyphen divides a word. -/
def isLetter (c : CodePoint) : Bool :=
  c.isWord && !c.isDecimalDigit

/-- Whether the nearest code point before a place satisfies `p`. -/
def precededBy (p : CodePoint → Bool) : (before : Text) → Bool
  | [] => false
  | c :: _ => p c

/-- Whether two letters, or letter, hyphen and letter, end what stands before a place. -/
def endsInLetters : (before : Text) → Bool
  | a :: b :: rest =>
    isLetter a && (isLetter b || (b.is '-' && precededBy isLetter rest))
  | _ => false

/-- Whether two letters, perhaps with a hyphen between them, come next. -/
def beginsWithLetters : Text → Bool
  | a :: b :: rest =>
    isLetter a && (isLetter b || (b.is '-' && precededBy isLetter rest))
  | _ => false

/-- The length of the dash at the start of a text: two or more hyphens before a word. -/
def dashLength? (t : Text) : Option Nat :=
  let n := (t.takeWhile fun c => c.is '-').length
  if 2 ≤ n && precededBy CodePoint.isWord (t.drop n) then some n else none

/-- How many more code points belong to a word, given the reverse of the text before them. -/
def wordLength (before : Text) : Text → Nat
  | [] => 0
  | c :: t =>
    if c.is '-' && endsInLetters before && beginsWithLetters t then 1
    else if isSpace c then 0
    else if precededBy isWordOrPunctuation before && (dashLength? (c :: t)).isSome then 0
    else wordLength (c :: before) t + 1

/-- The length of the chunk that begins with `c`, less one. -/
def chunkTail (before : Text) (c : CodePoint) (t : Text) : Nat :=
  if isSpace c then (t.takeWhile isSpace).length
  else
    match if precededBy isWordOrPunctuation before then dashLength? (c :: t) else none with
    | some n => n - 1
    | none => wordLength (c :: before) t

/-- The chunks of a text, given the reverse of what stands before it. -/
def chunksAfter (before : Text) : Text → List Text
  | [] => []
  | c :: t =>
    let n := chunkTail before c t
    let chunk := c :: t.take n
    chunk :: chunksAfter (chunk.reverse ++ before) (t.drop n)
termination_by t => t.length
decreasing_by
  simp only [List.length_drop, List.length_cons]
  omega

/-- A text with every tab filled up with spaces to the next column that is a multiple of eight. -/
def expandTabs (column : Nat) : Text → Text
  | [] => []
  | c :: t =>
    if c.is '\t' then
      let n := 8 - column % 8
      List.replicate n (CodePoint.ofChar ' ') ++ expandTabs (column + n) t
    else if c.isAny ['\n', '\r'] then c :: expandTabs 0 t
    else c :: expandTabs (column + 1) t

/-- A text in which a space stands for every white space. -/
def evenSpaces (t : Text) : Text :=
  (expandTabs 0 t).map fun c => if isSpace c then CodePoint.ofChar ' ' else c

/-- The chunks of a text. -/
def chunks (t : Text) : List Text :=
  chunksAfter [] (evenSpaces t)

/-- The chunks that fit on a line after `used` columns, and the others. -/
def takeFitting (width used : Nat) : List Text → List Text × List Text
  | [] => ([], [])
  | c :: cs =>
    if used + c.length ≤ width then
      let (fitting, others) := takeFitting width (used + c.length) cs
      (c :: fitting, others)
    else ([], c :: cs)

theorem takeFitting_append (width used : Nat) (cs : List Text) :
    (takeFitting width used cs).1 ++ (takeFitting width used cs).2 = cs := by
  induction cs generalizing used with
  | nil => rfl
  | cons c cs ih =>
    simp only [takeFitting]
    split
    · simp [ih]
    · rfl

/-- The chunks of the next line, and the others: those that fit, or one that fits no line. -/
def nextLine (width : Nat) (cs : List Text) : List Text × List Text :=
  match takeFitting width 0 cs with
  | ([], c :: others) => ([c], others)
  | r => r

theorem nextLine_length {width : Nat} {cs : List Text} (h : cs ≠ []) :
    (nextLine width cs).2.length < cs.length := by
  have key := takeFitting_append width 0 cs
  have hl := congrArg List.length key
  unfold nextLine
  split
  · rename_i heq
    rw [heq] at hl
    simp only [List.nil_append, List.length_cons] at hl
    simp only
    omega
  · rename_i r hne
    rcases hr : takeFitting width 0 cs with ⟨fitting, others⟩
    cases fitting with
    | nil =>
      cases others with
      | nil => rw [hr] at key; exact absurd key.symm h
      | cons c others => exact absurd hr (hne c others)
    | cons c fitting =>
      rw [hr] at hl
      simp only [List.length_append, List.length_cons] at hl
      simp only
      omega

/-- Leaves out a blank chunk at the end of a line. -/
def dropLastBlank (cs : List Text) : List Text :=
  match cs.getLast? with
  | some c => if c.isBlank then cs.dropLast else cs
  | none => []

/-- Leaves out a blank chunk at the start of a line. -/
def dropFirstBlank : List Text → List Text
  | [] => []
  | c :: cs => if c.isBlank then cs else c :: cs

theorem dropFirstBlank_length (cs : List Text) : (dropFirstBlank cs).length ≤ cs.length := by
  cases cs with
  | nil => simp [dropFirstBlank]
  | cons c cs => simp only [dropFirstBlank]; split <;> simp

/-- The chunks that a line may begin with: with `trim`, a line after the first begins with no
blank chunk. -/
def lineStart (trim started : Bool) (cs : List Text) : List Text :=
  if trim && started then dropFirstBlank cs else cs

theorem nextLine_lineStart_length {trim started : Bool} {width : Nat} {cs : List Text}
    (h : cs ≠ []) : (nextLine width (lineStart trim started cs)).2.length < cs.length := by
  have hle : (lineStart trim started cs).length ≤ cs.length := by
    unfold lineStart
    split
    · exact dropFirstBlank_length cs
    · exact Nat.le_refl _
  by_cases he : lineStart trim started cs = []
  · rw [he]
    exact List.length_pos_iff.mpr h
  · exact Nat.lt_of_lt_of_le (nextLine_length he) hle

/-- The lines that chunks fill. With `trim`, a blank chunk at the end of a line or at the start of
a later line is left out; `started` says that there are lines before these. -/
def fillFrom (trim : Bool) (width : Nat) (started : Bool) (cs : List Text) : List Text :=
  if _h : cs = [] then []
  else
    let next := nextLine width (lineStart trim started cs)
    let line := if trim then dropLastBlank next.1 else next.1
    if line.isEmpty then fillFrom trim width started next.2
    else line.flatten :: fillFrom trim width true next.2
termination_by cs.length
decreasing_by all_goals exact nextLine_lineStart_length ‹_›

/-- The lines that chunks fill. -/
def fill (trim : Bool) (width : Nat) (cs : List Text) : List Text :=
  fillFrom trim width false cs

/-- The lines of a text, all of one width. -/
def lines (trim : Bool) (width : Nat) (t : Text) : List Text :=
  fill trim width (chunks t)

/-- The lines of a text behind a mark that every line begins with. -/
def markedLines (mark : Text) (width : Nat) (t : Text) : List Text :=
  (lines true (width - mark.length) t).map (mark ++ ·)

end MessageExtraction.Wrap
