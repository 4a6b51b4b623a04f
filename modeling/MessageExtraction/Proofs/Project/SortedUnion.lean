import MessageExtraction.Proofs.Catalog.RenderedReferences
import MessageExtraction.Proofs.Project.Extensions
import MessageExtraction.Proofs.Project.ShownPaths

/-!
# The files of inputs are a sorted union

The files of several inputs are those of each input, every file once, in the strict order of the
paths by which they are found. Which files they are depends on what inputs there are, and not on how
often or in what order. What is shown for the files tells them apart, so that references into
different files are different.

## Main definitions

* `Discovery.Takes` -- names below a directory that are taken.
* `Discovery.StandsFor` -- the files that an input stands for.
* `Discovery.IsSortedUnion` -- paths to the files of inputs, each once and in order.

## Main results

* `Discovery.isAccepted_iff`, `Discovery.finds_iff` -- which files an input stands for.
* `Discovery.isSortedUnion_of_collect` -- what is collected is a sorted union.
* `Discovery.collect_isSortedUnion` -- inputs that exist have a sorted union, in whatever order they
  are given.
-/

namespace MessageExtraction

theorem Text.endsWith_iff_suffix {t tail : Text} : endsWith t tail = true ↔ tail <:+ t := by
  rw [endsWith, startsWith_iff_prefix, List.reverse_prefix]

namespace Discovery

variable {t : FileTree} {cwd file l : Location} {extensions : List Text} {input p : Path}
  {inputs found paths : List Path} {names : List Text}

/-! ## The files of one input -/

/-- Names that lead down from a directory to a file are taken: the file is found by one of the
extensions, no name is one that is left out, and the file is not minified. -/
structure Takes (extensions : List Text) (names : List Text) : Prop where
  extension : ∃ name ∈ names.getLast?, ∃ extension ∈ extensions, Path.FoundBy name extension
  included : ∀ name ∈ names, Text.lower name ∉ excludedNames
  not_minified : ∀ name ∈ names.getLast?, ¬ minifiedEnd <:+ Text.lower name

/-- The files that an input stands for: the file that it leads to, or those that are taken below the
directory that it leads to. -/
inductive StandsFor (t : FileTree) (cwd : Location) (extensions : List Text) (input : Path)
    (file : Location) : Prop
  | self (h : t.locate? cwd input = some file)
  | below {l : Location} {names : List Text} (h : t.locate? cwd input = some l)
      (hl : t.isDirectory l = true) (hfile : file = l ++ names) (hnames : Takes extensions names)

theorem isAccepted_iff (hne : names ≠ []) :
    isAccepted extensions names = true ↔ Takes extensions names := by
  obtain ⟨before, name, rfl⟩ := (List.eq_nil_or_concat' names).resolve_left hne
  have hlast : (before ++ [name]).getLast? = some name := List.getLast?_concat ..
  have hexcluded : isExcluded (before ++ [name]) = false ↔
      (∀ name' ∈ before ++ [name], Text.lower name' ∉ excludedNames) ∧
        ¬ minifiedEnd <:+ Text.lower name := by
    rw [isExcluded, hlast, Bool.or_eq_false_iff, List.any_eq_false, ← Text.endsWith_iff_suffix,
      Bool.not_eq_true]
    simp only [isExcludedName, List.contains_iff_mem]
    rfl
  rw [isAccepted, Bool.and_eq_true, Bool.not_eq_true', hexcluded, hlast, List.contains_iff_mem]
  constructor
  · rintro ⟨hmem, hincluded, hminified⟩
    refine ⟨⟨name, hlast, _, hmem, Path.foundBy_suffixOf name⟩, hincluded, fun name' hname' => ?_⟩
    obtain rfl := Option.some.inj (hlast.symm.trans hname')
    exact hminified
  · rintro ⟨⟨name', hname', extension, hmem, hfound⟩, hincluded, hminified⟩
    obtain rfl := Option.some.inj (hlast.symm.trans hname')
    exact ⟨Path.suffixOf_eq_iff.mpr hfound ▸ hmem, hincluded, hminified _ hlast⟩

/-- A directory that a path leads to is no file. -/
theorem isDirectory_of_locate? (h : t.locate? cwd p = some l) (hl : t.isFile l = false) :
    t.isDirectory l = true := by
  have hhas := (FileTree.foldl_of_follow? h).2
  rwa [FileTree.has, hl, Bool.false_or] at hhas

/-- An input stands for files only. -/
theorem finds_iff (ht : t.WellFormed) :
    Finds t cwd extensions input file ↔
      t.isFile file = true ∧ StandsFor t cwd extensions input file := by
  have hnil {l : Location} {names : List Text} (hl : t.isFile l = false)
      (hfile : t.isFile (l ++ names) = true) : names ≠ [] := by
    rintro rfl
    rw [List.append_nil, hl] at hfile
    cases hfile
  constructor
  · rintro (⟨h, hfile⟩ | ⟨h, hl, hfile, haccepted⟩)
    · exact ⟨hfile, .self h⟩
    · exact ⟨hfile, .below h (isDirectory_of_locate? h hl) rfl
        ((isAccepted_iff (hnil hl hfile)).mp haccepted)⟩
  · rintro ⟨hfile, h | @⟨l, names, h, hl, rfl, hnames⟩⟩
    · exact .self h hfile
    · have hnot : t.isFile l = false := by
        rw [← Bool.not_eq_true]
        intro hself
        rw [ht.isDirectory_file hself] at hl
        cases hl
      exact .below h hnot hfile ((isAccepted_iff (hnil hnot hfile)).mpr hnames)

/-! ## Paths that are found -/

/-- A path that an input stands for goes on from the input to a file. -/
theorem isWritten_of_mem_candidates? (ht : t.IsNamed) (hinput : input.IsWritten)
    (h : candidates? t cwd extensions input = some found) (hp : p ∈ found) : p.IsWritten := by
  obtain ⟨l, hl, rfl⟩ := Option.map_eq_some_iff.mp h
  split at hp
  · rwa [List.mem_singleton.mp hp]
  · obtain ⟨names, hnames, rfl⟩ := List.mem_map.mp hp
    have hfile := FileTree.mem_below_iff.mp (List.mem_filter.mp hnames).1
    intro name hname
    rcases List.mem_append.mp hname with hname | hname
    · exact hinput name hname
    · exact (ht.of_isFile hfile name (List.mem_append_right l hname)).1

/-- No two of the paths that are kept lead to the same location, and none to one that has been
seen. -/
theorem pairwise_firstOfEach (cwd : Location) (seen : List Location) (paths : List Path) :
    (firstOfEach cwd seen paths).Pairwise (fun p q => p.resolve cwd ≠ q.resolve cwd) ∧
      ∀ p ∈ firstOfEach cwd seen paths, p.resolve cwd ∉ seen := by
  induction paths generalizing seen with
  | nil => exact ⟨.nil, fun p hp => absurd hp List.not_mem_nil⟩
  | cons first paths ih =>
    rw [firstOfEach]
    split
    · exact ih seen
    · next hfirst =>
      obtain ⟨hpairwise, hseen⟩ := ih (first.resolve cwd :: seen)
      have hnew {p : Path} (hp : p ∈ firstOfEach cwd (first.resolve cwd :: seen) paths) :
          p.resolve cwd ≠ first.resolve cwd ∧ p.resolve cwd ∉ seen :=
        not_or.mp (List.mem_cons.not.mp (hseen p hp))
      refine ⟨.cons (fun p hp => Ne.symm (hnew hp).1) hpairwise, fun p hp => ?_⟩
      rcases List.mem_cons.mp hp with rfl | hp
      · exact List.contains_iff_mem.not.mp hfirst
      · exact (hnew hp).2

theorem pairwise_mergeSort_notAfter (paths : List Path) :
    (paths.mergeSort Path.notAfter).Pairwise fun p q => p.parts ≤ q.parts := by
  have hle {p q : Path} : Path.notAfter p q = true ↔ p.parts ≤ q.parts := decide_eq_true_iff
  have htrans (p q r : Path) (hpq : Path.notAfter p q = true) (hqr : Path.notAfter q r = true) :
      Path.notAfter p r = true := hle.mpr (List.le_trans (hle.mp hpq) (hle.mp hqr))
  have htotal (p q : Path) : (Path.notAfter p q || Path.notAfter q p) = true := by
    rw [Bool.or_eq_true, hle, hle]
    exact List.le_total _ _
  exact (List.pairwise_mergeSort htrans htotal paths).imp hle.mp

theorem collect_eq_of_firstOfEach
    (h : (reached t cwd extensions inputs).map (firstOfEach cwd []) = .ok found) :
    collect t cwd extensions inputs = .ok (found.mergeSort Path.notAfter) := by
  rw [collect]
  split
  · next all hall =>
    rw [hall] at h
    rw [Except.ok.inj h]
  · next hmissing =>
    rw [hmissing] at h
    cases h

/-! ## All inputs -/

/-- Paths to the files of inputs: they are in strict order and lead to different files, which are
those that the inputs stand for. What is shown for them is different, and so are references to any
lines of theirs. -/
structure IsSortedUnion (t : FileTree) (cwd : Location) (extensions : List Text)
    (inputs paths : List Path) : Prop where
  ascending : paths.Pairwise fun p q => p.parts < q.parts
  resolve_ne : paths.Pairwise fun p q => p.resolve cwd ≠ q.resolve cwd
  exists_mem_iff : ∀ file, (∃ p ∈ paths, p.resolve cwd = file) ↔
    t.isFile file = true ∧ ∃ input ∈ inputs, StandsFor t cwd extensions input file
  shownFrom_ne : paths.Pairwise fun p q => p.shownFrom cwd ≠ q.shownFrom cwd
  render_ne : paths.Pairwise fun p q => ∀ (lineNumbers : Bool) (m n : Int),
    Reference.render lineNumbers ⟨p.shownFrom cwd, some m⟩ ≠
      Reference.render lineNumbers ⟨q.shownFrom cwd, some n⟩

/-- What inputs stand for is a sorted union. -/
theorem isSortedUnion_of_collect (ht : t.IsNamed) (hwritten : ∀ input ∈ inputs, input.IsWritten)
    (h : collect t cwd extensions inputs = .ok paths) :
    IsSortedUnion t cwd extensions inputs paths := by
  have hfile {p : Path} (hp : p ∈ paths) : t.isFile (p.resolve cwd) = true := by
    obtain ⟨file, hlocate, hfile, -⟩ := finds_of_mem_collect ht.toWellFormed h hp
    rwa [FileTree.resolve_of_locate? hlocate]
  obtain ⟨all, hall, hmem⟩ := exists_reached_of_collect h
  have hpath {p : Path} (hp : p ∈ paths) : p.IsWritten := by
    obtain ⟨input, hinput, found, hfound, hpfound⟩ :=
      (mem_reached_iff hall).mp (mem_of_mem_firstOfEach ((hmem p).mp hp))
    exact isWritten_of_mem_candidates? ht (hwritten input hinput) hfound hpfound
  have hsorted : paths = (firstOfEach cwd [] all).mergeSort Path.notAfter := by
    rw [collect, hall] at h
    exact (Except.ok.inj h).symm
  have hresolve : paths.Pairwise fun p q => p.resolve cwd ≠ q.resolve cwd := by
    rw [hsorted, (List.mergeSort_perm _ _).pairwise_iff fun h => Ne.symm h]
    exact (pairwise_firstOfEach cwd [] all).1
  have hparts : paths.Pairwise fun p q => p.parts ≤ q.parts :=
    hsorted ▸ pairwise_mergeSort_notAfter _
  have hshown : paths.Pairwise fun p q => p.shownFrom cwd ≠ q.shownFrom cwd :=
    hresolve.imp_of_mem fun hp hq hne heq =>
      hne (ht.resolve_eq_of_shownFrom_eq (hpath hp) (hpath hq) (hfile hp) (hfile hq) heq)
  refine ⟨?_, hresolve, fun file => ?_, hshown, ?_⟩
  · refine (hparts.and hresolve).imp_of_mem fun hp hq hboth => ?_
    refine (List.le_iff_lt_or_eq.mp hboth.1).resolve_right fun heq => hboth.2 ?_
    rw [Path.eq_of_parts_eq (hpath hp) (hpath hq) heq]
  · rw [exists_mem_collect_iff ht.toWellFormed h]
    simp only [finds_iff ht.toWellFormed]
    constructor
    · rintro ⟨input, hinput, hfile, h⟩
      exact ⟨hfile, input, hinput, h⟩
    · rintro ⟨hfile, input, hinput, h⟩
      exact ⟨input, hinput, hfile, h⟩
  · exact hshown.imp fun hne _ _ _ heq => hne (Reference.file_eq_of_render_eq heq)

/-- Inputs that exist have a sorted union. Other inputs that are the same but for their order and for
repeats have a sorted union of the same files. -/
theorem collect_isSortedUnion (ht : t.IsNamed) (hwritten : ∀ input ∈ inputs, input.IsWritten)
    (hinputs : ∀ input ∈ inputs, (t.locate? cwd input).isSome = true) :
    ∃ paths, collect t cwd extensions inputs = .ok paths ∧
      IsSortedUnion t cwd extensions inputs paths ∧
      ∀ others, (∀ input, input ∈ others ↔ input ∈ inputs) →
        ∃ paths', collect t cwd extensions others = .ok paths' ∧
          IsSortedUnion t cwd extensions others paths' ∧
          ∀ file, (∃ p ∈ paths', p.resolve cwd = file) ↔ ∃ p ∈ paths, p.resolve cwd = file := by
  obtain ⟨paths, hpaths⟩ := @exists_collect t cwd extensions inputs hinputs
  have hunion := isSortedUnion_of_collect ht hwritten hpaths
  refine ⟨paths, hpaths, hunion, fun others hsame => ?_⟩
  obtain ⟨paths', hpaths'⟩ := @exists_collect t cwd extensions others fun input hinput =>
    hinputs input ((hsame input).mp hinput)
  have hunion' := isSortedUnion_of_collect ht
    (fun input hinput => hwritten input ((hsame input).mp hinput)) hpaths'
  refine ⟨paths', hpaths', hunion', fun file => ?_⟩
  simp only [hunion'.exists_mem_iff, hunion.exists_mem_iff, hsame]

/-- A tree with a file in a directory that is left out, a minified one and one above the working
directory `home`. -/
def homeTree : FileTree where
  files := ["home/src/a.js", "home/src/node_modules/b.js", "home/src/c.min.js", "home/src/notes.txt",
    "lib/d.js"].map fun f => (Text.splitOn '/' (Text.ofString f), [])

/-- Inputs that overlap, one of them the directory that is left out. -/
def overlappingInputs : List Path :=
  ["../lib", ".", "src/node_modules", "src/../src/a.js", "/home/src"].map fun t =>
    Path.ofText (Text.ofString t)

/-- Paths by which the files of the inputs are found. -/
def foundPaths : List Path :=
  ["../lib/d.js", "src/a.js", "src/node_modules/b.js"].map fun t => Path.ofText (Text.ofString t)

/-- Every file is found once, by the input that reached it first. -/
theorem collect_overlappingInputs :
    homeTree.IsNamed ∧ (∀ input ∈ overlappingInputs, input.IsWritten) ∧
    (∀ input ∈ overlappingInputs, (homeTree.locate? ["home"] input).isSome = true) ∧
    IsSortedUnion homeTree ["home"] ["js"] overlappingInputs foundPaths := by
  have ht : homeTree.IsNamed := ⟨⟨by decide +kernel, by decide +kernel⟩, by decide +kernel⟩
  have hwritten : ∀ input ∈ overlappingInputs, input.IsWritten := by
    intro input hinput
    obtain ⟨s, -, rfl⟩ := List.mem_map.mp hinput
    exact Path.isWritten_ofText _
  have hinputs : ∀ input ∈ overlappingInputs,
      (homeTree.locate? ["home"] input).isSome = true := by decide +kernel
  obtain ⟨paths, hpaths, hunion, -⟩ :=
    @collect_isSortedUnion homeTree ["home"] ["js"] overlappingInputs ht hwritten hinputs
  have hfirst : (reached homeTree ["home"] ["js"] overlappingInputs).map (firstOfEach ["home"] []) =
      .ok foundPaths := by decide +kernel
  rw [collect_eq_of_firstOfEach hfirst, List.mergeSort_of_pairwise (by decide +kernel)] at hpaths
  exact ⟨ht, hwritten, hinputs, Except.ok.inj hpaths ▸ hunion⟩

end Discovery

end MessageExtraction
