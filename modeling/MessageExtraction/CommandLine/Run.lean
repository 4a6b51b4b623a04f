import MessageExtraction.CommandLine.Arguments
import MessageExtraction.Extraction
import MessageExtraction.Options.Load
import MessageExtraction.Project.Discovery

/-!
# A run of the command line

A run reads its options, finds the files that its inputs stand for, extracts
their messages into one catalog, writes the file of messages, and prints a
summary. A file whose bytes cannot be read is passed over and reported in the
summary; anything else that fails ends the run. The summary comes last, so a
console that cannot print one of its lines ends a run that has written
everything.

## Main definitions

* `Console` -- what the summary is printed on.
* `Outcome` -- how a run ends.
* `Report` -- the files after a run, what it printed and logged, and its outcome.
* `run` -- the report of a run.
-/

namespace MessageExtraction.CommandLine

/-- What a summary is printed on. A console may have no bytes for a code point, but it has some for
every ASCII character. -/
structure Console where
  /-- Whether a code point can be printed. -/
  prints : CodePoint → Bool
  prints_of_ascii : ∀ c : CodePoint, c.val < 0x80 → prints c = true

namespace Console

/-- A console that has bytes for all characters, and so for all code points that are no halves of
surrogate pairs. -/
def utf8 : Console where
  prints c := !c.isSurrogate
  prints_of_ascii c h := by
    rw [Bool.not_eq_true', CodePoint.isSurrogate, Bool.and_eq_false_iff]
    exact .inl (decide_eq_false (by omega))

/-- Whether a console can print a line. -/
def printsLine (k : Console) (line : Text) : Bool :=
  line.all k.prints

/-- What a console prints of lines that it is given one after the other: those before the first one
that it cannot print. -/
def printed (k : Console) (lines : List Text) : Text :=
  Text.unlines (lines.takeWhile k.printsLine)

end Console

/-- What ends a run, other than its arguments and a plural conflict. -/
inductive Failure
  /-- The file of options cannot be used. -/
  | options (e : LoadError)
  /-- An input leads nowhere. -/
  | missingInput (input : Path)
  /-- A source cannot be scanned. -/
  | scan (e : ScanFailure)
  /-- A file cannot be opened. -/
  | inaccessible (p : Path)
  /-- No file system can know the names of a path. -/
  | unnameable (p : Path)
  /-- The file of messages has no bytes. -/
  | unencodable
  /-- A line of the summary cannot be printed. -/
  | unprintable
deriving DecidableEq

/-- Why no file can be opened at a path. -/
def Failure.opening (p : Path) : Failure :=
  if p.names.all Path.isNameable then .inaccessible p else .unnameable p

/-- How a run ends. -/
inductive Outcome
  | success
  | help
  | usage (e : ArgumentError)
  | conflict (e : PluralConflict)
  | failure (f : Failure)
deriving DecidableEq

/-- The files after a run, what it printed and logged, and its outcome. -/
structure Report where
  tree : FileTree
  printed : Text
  logged : Text
  outcome : Outcome

/-- The words of a run that a plural conflict ended. -/
def conflictMessage (e : PluralConflict) : Text :=
  "Error: " ++ e.message

/-- The words of a run that its arguments ended. -/
def usageMessage (e : ArgumentError) : Text :=
  "ng-gettext-extract: error: " ++ e.message

/-- Which part of the program logs a notice. -/
def loggerOf : Notice → Text
  | .notLiteral _ => "ng_gettext_extract.expression"
  | .unreadableExpression _ => "ng_gettext_extract.expression"
  | .unencodableSource _ => "ng_gettext_extract.script_scanner"

/-- The name of a level in the log. -/
def levelName : NoticeLevel → Text
  | .debug => "DEBUG"
  | .warning => "WARNING"

/-- The log of notices; those that do not matter much are logged only on demand. -/
def logOf (verbose : Bool) (notices : List Notice) : Text :=
  Text.unlines ((notices.filter fun n => verbose || n.level = .warning).map fun n =>
    levelName n.level ++ Text.ofString " " ++ loggerOf n ++ Text.ofString ": " ++ n.message)

/-- The options that the arguments change. -/
def Arguments.override (a : Arguments) (o : Options) : Options :=
  { o with
    delimiters :=
      ⟨a.startDelimiter.getD o.delimiters.opening, a.endDelimiter.getD o.delimiters.closing⟩
    marker := a.markers.headD o.marker
    furtherMarkers := a.markers.drop 1 ++ o.furtherMarkers
    lineNumbers := a.lineNumbers.getD o.lineNumbers }

/-- The options of a run: those of its file of options, changed by the arguments. -/
def optionsOf (t : FileTree) (cwd : Location) (a : Arguments) : Except Failure Options :=
  match a.config with
  | none => .ok (a.override {})
  | some config =>
    match t.read? cwd config with
    | none => .error (.opening config)
    | some content =>
      match Options.load config.render content {} with
      | (_, some e) => .error (.options e)
      | (o, none) => .ok (a.override o)

/-- A file of a run: its name as it is shown, and its text if its bytes can be read. -/
structure FileReading where
  name : Text
  text : Except Utf8.Fault Text

/-- The files at paths. -/
def readingsOf (t : FileTree) (cwd : Location) (paths : List Path) : List FileReading :=
  paths.filterMap fun p =>
    (t.read? cwd p).map fun content => ⟨p.shownFrom cwd, Text.ofFile content⟩

/-- The sources among files. -/
def sourcesOf (readings : List FileReading) : List Source :=
  readings.filterMap fun r =>
    match r.text with
    | .ok content => some ⟨r.name, content⟩
    | .error _ => none

/-- The names of the files whose bytes cannot be read, each with what is wrong with its bytes. -/
def unreadableOf (readings : List FileReading) : List (Text × Utf8.Fault) :=
  readings.filterMap fun r =>
    match r.text with
    | .ok _ => none
    | .error fault => some (r.name, fault)

/-- How many files that cannot be read are named. -/
def shownUnreadable : Nat := 20

/-- What is reported of a file whose bytes cannot be read. -/
def unreadableLine (file : Text × Utf8.Fault) : Text :=
  "- " ++ file.1 ++ Text.ofString ": " ++ file.2.message

/-- The report on files that cannot be read. -/
def unreadableLines (unreadable : List (Text × Utf8.Fault)) : List Text :=
  if unreadable.isEmpty then []
  else
    ("Warnings: " ++ Text.ofNat unreadable.length ++ Text.ofString " file(s) could not be read") ::
      (unreadable.take shownUnreadable).map unreadableLine ++
      if shownUnreadable < unreadable.length then
        ["... and " ++ Text.ofNat (unreadable.length - shownUnreadable) ++ Text.ofString " more"]
      else []

/-- The lines that a run prints once it has written its output. -/
def summaryLines (scanned entries : Nat) (output : Location)
    (unreadable : List (Text × Utf8.Fault)) : List Text :=
  ["Scanned files: " ++ Text.ofNat scanned, "Extracted entries: " ++ Text.ofNat entries,
    "Output: " ++ (Path.ofLocation output).render] ++ unreadableLines unreadable

/-- The files after a text has been written, and why it could not be written if it could not. The
file is emptied before its bytes are known. -/
def writeText (t : FileTree) (output : Location) (content : Text) : FileTree × Option Failure :=
  match t.write? output [] with
  | none => (t, some (.opening (Path.ofLocation output)))
  | some emptied =>
    match Utf8.encode? content with
    | none => (emptied, some .unencodable)
    | some bytes => (t.put output bytes, none)

/-- The report of a run whose options and files are known. -/
def runOn (k : Console) (t : FileTree) (cwd : Location) (a : Arguments) (o : Options)
    (paths : List Path) : Report :=
  let readings := readingsOf t cwd paths
  let extraction := o.extract (sourcesOf readings)
  let log := logOf a.verbose extraction.notices
  match extraction.error with
  | some (.conflict e) => ⟨t, [], log, .conflict e⟩
  | some (.failure e) => ⟨t, [], log, .failure (.scan e)⟩
  | none =>
    let output := a.output.resolve cwd
    match writeText t output (o.render extraction.catalog) with
    | (after, some f) => ⟨after, [], log, .failure f⟩
    | (after, none) =>
      let lines :=
        summaryLines paths.length extraction.catalog.size output (unreadableOf readings)
      ⟨after, k.printed lines, log,
        if lines.all k.printsLine then .success else .failure .unprintable⟩

/-- The report of a run in a working directory. -/
def run (k : Console) (t : FileTree) (cwd : Location) (arguments : List Text) : Report :=
  match Request.parse arguments with
  | .error e => ⟨t, [], usageMessage e ++ Text.ofChar '\n', .usage e⟩
  | .ok .help => ⟨t, [], [], .help⟩
  | .ok (.run a) =>
    match optionsOf t cwd a with
    | .error f => ⟨t, [], [], .failure f⟩
    | .ok o =>
      match Discovery.collect t cwd o.strategies.keys a.inputs with
      | .error input => ⟨t, [], [], .failure (.missingInput input)⟩
      | .ok paths => runOn k t cwd a o paths

end MessageExtraction.CommandLine
