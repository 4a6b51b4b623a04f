import MessageExtraction.CommandLine.Run

/-!
# The program

The program looks at the part of the file system that its arguments name, lets
`CommandLine.run` say what becomes of it, writes the file of messages, and
prints what is to be printed. It decides nothing itself.
-/

namespace MessageExtraction.CommandLine

/-- The string of a text without surrogates. -/
def stringOf (t : Text) : String :=
  String.ofList (t.map fun c => Char.ofNat c.val)

/-- The name of a location in the file system. -/
def nameOf (l : Location) : String :=
  stringOf (Path.ofLocation l).render

/-- Adds what stands at a location to a tree; the content of a file is read if it is wanted. -/
def lookAt (wanted : Bool) (t : FileTree) (l : Location) : IO FileTree := do
  let p := System.mkFilePath [nameOf l]
  if t.isFile l then return t
  else if ← p.isDir then return { t with directories := l :: t.directories }
  else if ← p.pathExists then
    if wanted then return t.put l (← IO.FS.readBinFile p).toList else return t.put l []
  else return t

/-- Adds what stands on the way of a path to a tree, and the content of the file it leads to. -/
def lookAlong (cwd : Location) (t : FileTree) (p : Path) : IO FileTree := do
  let mut t := t
  let mut l := p.start cwd
  for name in p.names do
    l := Path.enter l name
    t ← lookAt (l = p.resolve cwd) t l
  return t

/-- Adds what stands below a directory to a tree, apart from directories that are left out. The
content of a file is read if its extension is accepted. -/
partial def lookBelow (extensions : List Text) (t : FileTree) (l : Location) : IO FileTree := do
  (← (System.mkFilePath [nameOf l]).readDir).foldlM (fun t entry => do
    let name := Text.ofString entry.fileName
    let below := l ++ [name]
    match (← entry.path.symlinkMetadata).type with
    | .dir => if Discovery.isExcludedName name then return t else lookBelow extensions t below
    | _ => lookAt (extensions.contains (Path.suffixOf name)) t below) t

/-- The part of the file system that a run depends on. -/
def surroundings (cwd : Location) (a : Arguments) : IO FileTree := do
  let start : FileTree := { directories := [cwd] }
  let t ← (a.config.toList ++ a.inputs ++ [Path.ofLocation (a.output.resolve cwd)]).foldlM
    (lookAlong cwd) start
  match optionsOf t cwd a with
  | .error _ => return t
  | .ok o =>
    (a.inputs.filterMap (t.locate? cwd)).foldlM (fun t l => do
      if t.isFile l then return t else lookBelow o.strategies.keys t l) t

/-- Writes the files that a run has changed. -/
def writeChanges (before after : FileTree) : IO Unit := do
  for (l, content) in after.files do
    if before.content? l ≠ some content then
      IO.FS.createDirAll (nameOf l.dropLast)
      IO.FS.writeBinFile (nameOf l) ⟨content.toArray⟩

/-- What is said of a run that failed. -/
def failureText : Failure → Text
  | .options (.undecodable fault) => fault.message
  | .options (.unreadable _) => "The options file is not valid JSON"
  | .options (.options e) => e.message
  | .missingInput p => Discovery.missingMessage p
  | .scan .unreadableMarkup => "A template cannot be read"
  | .scan .invalidEscape => "A script holds an invalid escape"
  | .scan .escapeOverflow => "A script holds an escape that is too large"
  | .inaccessible p => "Cannot open " ++ p.render
  | .unnameable p => "No file can be named " ++ p.render
  | .unencodable => "A message holds half a surrogate pair"
  | .unprintable => "A name cannot be printed"

/-- The description of the options. -/
def helpText : Text :=
  Text.join " " (["usage: ng-gettext-extract", "[-h]", "[--output OUTPUT]", "[--config CONFIG]",
    "[--start-delim START_DELIM]", "[--end-delim END_DELIM]", "[--marker-name MARKER_NAME]",
    "[--line-numbers | --no-line-numbers]", "[--verbose]", "[inputs ...]\n"].map Text.ofString)

/-- Reports the outcome of a run and gives the code with which the program ends. -/
def conclude : Outcome → IO UInt32
  | .success => return 0
  | .help => do
    IO.print (stringOf helpText)
    return 0
  | .usage _ => return 2
  | .conflict e => do
    IO.eprintln (stringOf (conflictMessage e))
    return 1
  | .failure f => do
    IO.eprintln (stringOf (failureText f))
    return 1

end MessageExtraction.CommandLine

open MessageExtraction MessageExtraction.CommandLine in
/-- Runs the program. -/
def main (args : List String) : IO UInt32 := do
  let arguments := args.map Text.ofString
  let cwd := (Path.ofText (Text.ofString (← IO.currentDir).toString)).resolve []
  let before ← match Request.parse arguments with
    | .ok (.run a) => surroundings cwd a
    | _ => pure {}
  let report := run .utf8 before cwd arguments
  writeChanges before report.tree
  IO.print (stringOf report.printed)
  IO.eprint (stringOf report.logged)
  conclude report.outcome
