import MessageExtraction.Text.Basic

/-!
# Paths

A path is a list of names, relative to a working directory or, after one or two
slashes, to the root. Writing a path, empty names and single dots vanish, and
names of two dots are kept. A location is the list of names that leads from the
root to a file or a directory; the names of two dots have been resolved in it.
A file system knows names by their bytes. A byte that is no part of a written
code point is half of a surrogate pair in a text, and other halves have no bytes.

## Main definitions

* `Path` -- what stands before the names, and the names.
* `Path.ofText`, `Path.render` -- reading and writing a path.
* `Path.resolve` -- the location of a path.
* `Path.isNameable` -- whether a file system can know a name.
* `Path.suffixOf` -- the extension that a name shows.
* `Path.shownFrom` -- a path as it is shown in a working directory.

## Main results

* `Path.namesBelow?_eq_some` -- names lead to a location if they come after the base in it.
-/

namespace MessageExtraction

/-- The names from the root to a file or a directory. -/
abbrev Location := List Text

/-- What stands before the names of a path. -/
inductive Anchor
  | relative | root | doubleRoot
deriving DecidableEq

/-- What an anchor is written as. -/
def Anchor.text : Anchor → Text
  | relative => ""
  | root => "/"
  | doubleRoot => "//"

/-- A path. -/
structure Path where
  anchor : Anchor
  names : List Text
deriving DecidableEq

namespace Path

/-- The name of the directory above. -/
def above : Text := ".."

/-- The path of a text. Two slashes at its beginning are another anchor than one or many. -/
def ofText (t : Text) : Path where
  anchor :=
    match (t.takeWhile fun c => c.is '/').length with
    | 0 => .relative
    | 2 => .doubleRoot
    | _ => .root
  names := (Text.splitOn '/' t).filter fun name => !name.isEmpty && name ≠ Text.ofString "."

/-- The text of a path. -/
def render (p : Path) : Text :=
  if p.anchor = .relative && p.names.isEmpty then "."
  else p.anchor.text ++ Text.join "/" p.names

/-- The path of a location. -/
def ofLocation (l : Location) : Path :=
  ⟨.root, l⟩

/-- The parts of a path by which paths are ordered: the anchor, if there is one, and the names. -/
def parts (p : Path) : List Text :=
  if p.anchor = .relative then p.names else p.anchor.text :: p.names

/-- Paths are ordered part by part, and parts by their code points. -/
def notAfter (p q : Path) : Bool :=
  p.parts ≤ q.parts

/-- The location after one name. -/
def enter (l : Location) (name : Text) : Location :=
  if name = above then l.dropLast else l ++ [name]

/-- The location from which the names of a path lead. -/
def start (cwd : Location) (p : Path) : Location :=
  if p.anchor = .relative then cwd else []

/-- The location of a path in a working directory. -/
def resolve (cwd : Location) (p : Path) : Location :=
  p.names.foldl enter (start cwd p)

/-- Whether a code point has bytes in the names of a file system. -/
def hasNameBytes (c : CodePoint) : Bool :=
  c.val ≠ 0 && (!c.isSurrogate || (0xDC80 ≤ c.val && c.val ≤ 0xDCFF))

/-- Whether a file system can know a name. -/
def isNameable (name : Text) : Bool :=
  name.all hasNameBytes

/-- The extension of a name: what follows its last dot, if something does and something precedes
it. -/
def suffixOf (name : Text) : Text :=
  let tail := name.reverse.takeWhile fun c => !c.is '.'
  if tail.isEmpty || name.length ≤ tail.length + 1 then [] else tail.reverse

/-- The names that lead from a location to another one below it, if it is below. -/
def namesBelow? : (base l : Location) → Option (List Text)
  | [], l => some l
  | _ :: _, [] => none
  | a :: base, b :: l => if a = b then namesBelow? base l else none

/-- Names lead from one location to another exactly if they come after it in the other. -/
theorem namesBelow?_eq_some {base l : Location} {names : List Text} :
    namesBelow? base l = some names ↔ l = base ++ names := by
  induction base generalizing l with
  | nil => simp [namesBelow?, eq_comm]
  | cons a base ih =>
    cases l with
    | nil => simp [namesBelow?]
    | cons b l =>
      by_cases h : a = b
      · subst h; simp [namesBelow?, ih]
      · simp [namesBelow?, h, Ne.symm h]

/-- A path as it is shown in a working directory: relative to it if it lies below it, and else as
it is. -/
def shownFrom (cwd : Location) (p : Path) : Text :=
  match namesBelow? cwd (p.resolve cwd) with
  | some names => render ⟨.relative, names⟩
  | none => p.render

end Path

end MessageExtraction
