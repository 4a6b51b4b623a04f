import MessageExtraction.Text.Quoted

/-!
# Texts as bytes

A text without surrogates has a written form of one to four bytes for each code
point. Reading is strict: a byte that no such form can hold at its place is a
fault, and so is an end in the middle of a form. A fault names the bytes that
were good so far, or the one bad byte, and says what is wrong.

Files end their lines in several ways; `Text.ofFile` reads each of them as one
line feed.

## Main definitions

* `Bytes` -- the content of a file.
* `CodePoint.utf8` -- the bytes of a code point.
* `Utf8.Fault` -- why bytes cannot be read.
* `Utf8.decode` -- the text of bytes.
* `Utf8.encode?` -- the bytes of a text, if it has any.
* `Text.ofFile` -- the text of the content of a file.
-/

namespace MessageExtraction

/-- The content of a file. -/
abbrev Bytes := List UInt8

/-- The bytes of a code point: its bits in groups of six, the highest in the first byte. -/
def CodePoint.utf8 (c : CodePoint) : Bytes :=
  let tail (n : Nat) : UInt8 := UInt8.ofNat (0x80 + n % 64)
  let n := c.val
  if n < 0x80 then [UInt8.ofNat n]
  else if n < 0x800 then [UInt8.ofNat (0xC0 + n / 64), tail n]
  else if n < 0x10000 then [UInt8.ofNat (0xE0 + n / 4096), tail (n / 64), tail n]
  else [UInt8.ofNat (0xF0 + n / 262144), tail (n / 4096), tail (n / 64), tail n]

namespace Utf8

/-- What is wrong with bytes. -/
inductive Defect
  /-- No form begins with this byte. -/
  | start
  /-- The form that was begun cannot go on with the next byte. -/
  | continuation
  /-- The form that was begun is not complete at the end. -/
  | truncation
deriving DecidableEq

/-- Why bytes cannot be read: the first byte of the faulty form, its position, and how many bytes
the fault covers. -/
structure Fault where
  byte : UInt8
  position : Nat
  length : Nat
  defect : Defect
deriving DecidableEq

/-- The words for what is wrong. -/
def Defect.message : Defect → Text
  | start => "invalid start byte"
  | continuation => "invalid continuation byte"
  | truncation => "unexpected end of data"

/-- The words of a fault. -/
def Fault.message (f : Fault) : Text :=
  let covered : Text :=
    if f.length ≤ 1 then
      "byte 0x" ++ Text.hex 2 f.byte.toNat ++ Text.ofString " in position " ++ Text.ofNat f.position
    else
      "bytes in position " ++ Text.ofNat f.position ++ Text.ofChar '-' ++
        Text.ofNat (f.position + f.length - 1)
  "'utf-8' codec can't decode " ++ covered ++ Text.ofString ": " ++ f.defect.message

/-- What the first byte of a form says: the bits that it holds, how many bytes follow, and the
bounds of the byte right after it. -/
structure Lead where
  bits : Nat
  more : Nat
  low : Nat := 0x80
  high : Nat := 0xBF

/-- The lead of a form, if a form begins with this byte. -/
def lead? (b : UInt8) : Option Lead :=
  let n := b.toNat
  if n < 0x80 then some { bits := n, more := 0 }
  else if n < 0xC2 then none
  else if n < 0xE0 then some { bits := n - 0xC0, more := 1 }
  else if n < 0xF0 then
    some { bits := n - 0xE0, more := 2, low := if n = 0xE0 then 0xA0 else 0x80,
           high := if n = 0xED then 0x9F else 0xBF }
  else if n < 0xF5 then
    some { bits := n - 0xF0, more := 3, low := if n = 0xF0 then 0x90 else 0x80,
           high := if n = 0xF4 then 0x8F else 0xBF }
  else none

/-- The number that a form spells with `more` further bytes, the next of them between `low` and
`high`; or what is wrong, and how many good bytes come before that. -/
def continued (bits : Nat) : (more low high : Nat) → Bytes → Except (Defect × Nat) Nat
  | 0, _, _, _ => .ok bits
  | _ + 1, _, _, [] => .error (.truncation, 0)
  | more + 1, low, high, b :: bs =>
    if low ≤ b.toNat && b.toNat ≤ high then
      match continued (64 * bits + (b.toNat - 0x80)) more 0x80 0xBF bs with
      | .ok n => .ok n
      | .error (defect, good) => .error (defect, good + 1)
    else .error (.continuation, 0)

/-- The text of bytes that stand at a position, the first `skip` of which belong to a form that
has been read. -/
def decodeFrom (position skip : Nat) : Bytes → Except Fault Text
  | [] => .ok []
  | b :: bs =>
    match skip with
    | skip + 1 => decodeFrom (position + 1) skip bs
    | 0 =>
      match lead? b with
      | none => .error ⟨b, position, 1, .start⟩
      | some lead =>
        match continued lead.bits lead.more lead.low lead.high bs with
        | .error (defect, good) => .error ⟨b, position, good + 1, defect⟩
        | .ok n =>
          match CodePoint.ofNat? n with
          | none => .error ⟨b, position, 1, .start⟩
          | some c =>
            match decodeFrom (position + 1) lead.more bs with
            | .ok t => .ok (c :: t)
            | .error fault => .error fault

/-- The text of bytes. -/
def decode (bytes : Bytes) : Except Fault Text :=
  decodeFrom 0 0 bytes

/-- The bytes of a text, if it has no surrogates. -/
def encode? (t : Text) : Option Bytes :=
  if t.any CodePoint.isSurrogate then none else some (t.flatMap CodePoint.utf8)

end Utf8

namespace Text

/-- A text whose lines all end in a line feed: a carriage return, with the line feed that may
follow it, is one line feed. -/
def unifyLineEnds : Text → Text
  | [] => []
  | [c] => if c.is '\r' then [CodePoint.ofChar '\n'] else [c]
  | c :: d :: t =>
    if c.is '\r' then
      if d.is '\n' then unifyLineEnds (d :: t) else CodePoint.ofChar '\n' :: unifyLineEnds (d :: t)
    else c :: unifyLineEnds (d :: t)

/-- The text of the content of a file. -/
def ofFile (content : Bytes) : Except Utf8.Fault Text :=
  match Utf8.decode content with
  | .ok t => .ok (unifyLineEnds t)
  | .error fault => .error fault

end Text

end MessageExtraction
