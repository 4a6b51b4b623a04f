import MessageExtraction.Project.FileTree
import MessageExtraction.Text.LowerCase

/-!
# Discovery of files

A file that is named is taken as it is. A directory that is named stands for
the files below it that have an accepted extension, unless they or a directory
on the way to them bear a name that is left out. A file that is reached in
several ways is taken once, as it was first reached, and the files are put in
the order of their paths.

## Main definitions

* `Discovery.isExcluded` -- whether names below a directory are left out.
* `Discovery.candidates?` -- the files that one input stands for.
* `Discovery.collect` -- the files that several inputs stand for.
-/

namespace MessageExtraction.Discovery

/-- The names, in lower case, of what is left out. -/
def excludedNames : List Text :=
  [".git", "node_modules", "bower_components", "dist", "build", "coverage", ".venv", "venv",
    "__pycache__"].map Text.ofString

/-- Whether a name is left out. -/
def isExcludedName (name : Text) : Bool :=
  excludedNames.contains (Text.lower name)

/-- The end, in lower case, of the names of scripts that are left out. -/
def minifiedEnd : Text := ".min.js"

/-- Whether names that lead from a directory to a file are left out. -/
def isExcluded (names : List Text) : Bool :=
  names.any isExcludedName || Text.endsWith (Text.lower (names.getLast?.getD [])) minifiedEnd

/-- Whether names that lead from a directory to a file are taken. -/
def isAccepted (extensions : List Text) (names : List Text) : Bool :=
  extensions.contains (Path.suffixOf (names.getLast?.getD [])) && !isExcluded names

/-- The files that an input stands for, if it leads to a file or a directory. -/
def candidates? (t : FileTree) (cwd : Location) (extensions : List Text) (input : Path) :
    Option (List Path) :=
  (t.locate? cwd input).map fun l =>
    if t.isFile l then [input]
    else ((t.below l).filter (isAccepted extensions)).map fun names =>
      { input with names := input.names ++ names }

/-- The first of the paths that lead to each location, in order, leaving out locations that have
been seen. -/
def firstOfEach (cwd : Location) : (seen : List Location) → List Path → List Path
  | _, [] => []
  | seen, p :: ps =>
    let l := p.resolve cwd
    if seen.contains l then firstOfEach cwd seen ps else p :: firstOfEach cwd (l :: seen) ps

/-- The files that inputs stand for, input after input, or the first input that leads nowhere. -/
def reached (t : FileTree) (cwd : Location) (extensions : List Text) :
    List Path → Except Path (List Path)
  | [] => .ok []
  | input :: inputs =>
    match candidates? t cwd extensions input with
    | none => .error input
    | some found =>
      match reached t cwd extensions inputs with
      | .ok others => .ok (found ++ others)
      | .error missing => .error missing

/-- The files that inputs stand for, in the order of their paths, or the first input that leads
nowhere. -/
def collect (t : FileTree) (cwd : Location) (extensions : List Text) (inputs : List Path) :
    Except Path (List Path) :=
  match reached t cwd extensions inputs with
  | .ok paths => .ok ((firstOfEach cwd [] paths).mergeSort Path.notAfter)
  | .error missing => .error missing

/-- The words for an input that leads nowhere. -/
def missingMessage (input : Path) : Text :=
  "Input not found: " ++ input.render

end MessageExtraction.Discovery
