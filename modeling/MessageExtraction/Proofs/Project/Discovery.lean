import MessageExtraction.Project.Discovery
import MessageExtraction.Proofs.Project.Following

/-!
# The files that inputs stand for

All inputs that exist stand for files together. A file is found when an input leads to it, or to a
directory above it and the names below the directory are taken. It is found once, by the path that
reached it first, and every path that finds a file leads to it.

## Main definitions

* `Discovery.Finds` -- an input stands for a file.

## Main results

* `Discovery.exists_collect` -- inputs that exist stand for files.
* `Discovery.locate?_of_mem_collect` -- a path that is found leads to a file.
* `Discovery.exists_mem_collect_iff` -- which files are found.
-/

namespace MessageExtraction.Discovery

variable {t : FileTree} {cwd file : Location} {extensions : List Text} {input p : Path}
  {inputs found paths : List Path}

/-- An input stands for a file: it leads to it, or to a directory above it from which the names of
the file are taken. -/
inductive Finds (t : FileTree) (cwd : Location) (extensions : List Text) (input : Path) :
    Location → Prop
  | self {file : Location} (h : t.locate? cwd input = some file) (hfile : t.isFile file = true) :
      Finds t cwd extensions input file
  | below {l : Location} {names : List Text} (h : t.locate? cwd input = some l)
      (hl : t.isFile l = false) (hfile : t.isFile (l ++ names) = true)
      (haccepted : isAccepted extensions names = true) : Finds t cwd extensions input (l ++ names)

/-! ## One input -/

/-- A path that an input stands for leads to a file that it stands for. -/
theorem finds_of_mem_candidates? (ht : t.WellFormed)
    (h : candidates? t cwd extensions input = some found) (hp : p ∈ found) :
    ∃ file, t.locate? cwd p = some file ∧ t.isFile file = true ∧
      Finds t cwd extensions input file := by
  obtain ⟨l, hl, rfl⟩ := Option.map_eq_some_iff.mp h
  split at hp
  · next hfile =>
    rw [List.mem_singleton.mp hp]
    exact ⟨l, hl, hfile, .self hl hfile⟩
  · next hdirectory =>
    obtain ⟨names, hnames, rfl⟩ := List.mem_map.mp hp
    obtain ⟨hbelow, haccepted⟩ := List.mem_filter.mp hnames
    have hfile := FileTree.mem_below_iff.mp hbelow
    exact ⟨l ++ names, ht.locate?_below hl hfile, hfile,
      .below hl (Bool.eq_false_iff.mpr hdirectory) hfile haccepted⟩

/-- An input stands for paths to all the files that it stands for. -/
theorem exists_mem_candidates? (ht : t.WellFormed) (h : Finds t cwd extensions input file) :
    ∃ found, candidates? t cwd extensions input = some found ∧
      ∃ p ∈ found, t.locate? cwd p = some file := by
  cases h with
  | self h hfile => exact ⟨[input], by simp [candidates?, h, hfile], input, by simp, h⟩
  | @below l names h hl hfile haccepted =>
    refine ⟨_, by rw [candidates?, h]; rfl, { input with names := input.names ++ names }, ?_,
      ht.locate?_below h hfile⟩
    dsimp only
    rw [hl, if_neg Bool.false_ne_true]
    refine List.mem_map_of_mem (List.mem_filter.mpr ⟨?_, haccepted⟩)
    exact FileTree.mem_below_iff.mpr hfile

/-! ## All inputs -/

/-- Inputs stand for files when all of them exist. -/
theorem exists_reached (h : ∀ input ∈ inputs, (t.locate? cwd input).isSome = true) :
    ∃ paths, reached t cwd extensions inputs = .ok paths := by
  induction inputs with
  | nil => exact ⟨[], rfl⟩
  | cons input inputs ih =>
    obtain ⟨hinput, hinputs⟩ := List.forall_mem_cons.mp h
    obtain ⟨others, hothers⟩ := ih hinputs
    obtain ⟨l, hl⟩ := Option.isSome_iff_exists.mp hinput
    obtain ⟨found, hfound⟩ : ∃ found, candidates? t cwd extensions input = some found :=
      ⟨_, congrArg _ hl⟩
    refine ⟨found ++ others, ?_⟩
    rw [reached, hfound]
    simp only [hothers]

theorem mem_reached_iff (h : reached t cwd extensions inputs = .ok paths) :
    p ∈ paths ↔ ∃ input ∈ inputs, ∃ found,
      candidates? t cwd extensions input = some found ∧ p ∈ found := by
  induction inputs generalizing paths with
  | nil =>
    cases h
    simp
  | cons input inputs ih =>
    rw [reached] at h
    split at h
    · cases h
    · next found hfound =>
      split at h
      · next others hothers =>
        cases h
        simp [ih hothers, hfound]
      · cases h

theorem mem_of_mem_firstOfEach {seen : List Location} (h : p ∈ firstOfEach cwd seen paths) :
    p ∈ paths := by
  induction paths generalizing seen with
  | nil => exact h
  | cons first paths ih =>
    rw [firstOfEach] at h
    split at h
    · exact List.mem_cons_of_mem _ (ih h)
    · rcases List.mem_cons.mp h with rfl | h
      · exact List.mem_cons_self
      · exact List.mem_cons_of_mem _ (ih h)

/-- A location that some path leads to is kept, unless it has been seen. -/
theorem exists_mem_firstOfEach {seen : List Location} (hp : p ∈ paths)
    (hseen : p.resolve cwd ∉ seen) :
    ∃ q ∈ firstOfEach cwd seen paths, q.resolve cwd = p.resolve cwd := by
  induction paths generalizing seen with
  | nil => cases hp
  | cons first paths ih =>
    rw [firstOfEach]
    split
    · next hfirst =>
      rcases List.mem_cons.mp hp with rfl | hp
      · exact absurd (List.contains_iff_mem.mp hfirst) hseen
      · exact ih hp hseen
    · by_cases hsame : first.resolve cwd = p.resolve cwd
      · exact ⟨first, List.mem_cons_self, hsame⟩
      · rcases List.mem_cons.mp hp with rfl | hp
        · exact absurd rfl hsame
        · have hseen : p.resolve cwd ∉ first.resolve cwd :: seen :=
            List.mem_cons.not.mpr (not_or.mpr ⟨Ne.symm hsame, hseen⟩)
          obtain ⟨q, hq, hresolve⟩ := ih hp hseen
          exact ⟨q, List.mem_cons_of_mem _ hq, hresolve⟩

/-- Inputs stand for files when all of them exist. -/
theorem exists_collect (h : ∀ input ∈ inputs, (t.locate? cwd input).isSome = true) :
    ∃ paths, collect t cwd extensions inputs = .ok paths := by
  obtain ⟨paths, hpaths⟩ := @exists_reached t cwd extensions inputs h
  exact ⟨_, by rw [collect, hpaths]⟩

theorem exists_reached_of_collect (h : collect t cwd extensions inputs = .ok paths) :
    ∃ all, reached t cwd extensions inputs = .ok all ∧
      ∀ p, p ∈ paths ↔ p ∈ firstOfEach cwd [] all := by
  rw [collect] at h
  split at h
  · next all hall =>
    cases h
    exact ⟨all, hall, fun p => List.mem_mergeSort⟩
  · cases h

/-- A path that is found leads to a file that an input stands for. -/
theorem finds_of_mem_collect (ht : t.WellFormed) (h : collect t cwd extensions inputs = .ok paths)
    (hp : p ∈ paths) :
    ∃ file, t.locate? cwd p = some file ∧ t.isFile file = true ∧
      ∃ input ∈ inputs, Finds t cwd extensions input file := by
  obtain ⟨all, hall, hmem⟩ := exists_reached_of_collect h
  obtain ⟨input, hinput, found, hfound, hpfound⟩ :=
    (mem_reached_iff hall).mp (mem_of_mem_firstOfEach ((hmem p).mp hp))
  obtain ⟨file, hlocate, hfile, hfinds⟩ := finds_of_mem_candidates? ht hfound hpfound
  exact ⟨file, hlocate, hfile, input, hinput, hfinds⟩

/-- The files that are found are those that an input stands for. -/
theorem exists_mem_collect_iff (ht : t.WellFormed)
    (h : collect t cwd extensions inputs = .ok paths) :
    (∃ p ∈ paths, p.resolve cwd = file) ↔ ∃ input ∈ inputs, Finds t cwd extensions input file := by
  constructor
  · rintro ⟨p, hp, rfl⟩
    obtain ⟨file, hlocate, -, input, hinput, hfinds⟩ := finds_of_mem_collect ht h hp
    rw [FileTree.resolve_of_locate? hlocate]
    exact ⟨input, hinput, hfinds⟩
  · rintro ⟨input, hinput, hfinds⟩
    obtain ⟨found, hfound, p, hp, hlocate⟩ := exists_mem_candidates? ht hfinds
    obtain ⟨all, hall, hmem⟩ := exists_reached_of_collect h
    have hpall : p ∈ all := (mem_reached_iff hall).mpr ⟨input, hinput, found, hfound, hp⟩
    obtain ⟨q, hq, hresolve⟩ := exists_mem_firstOfEach hpall List.not_mem_nil
    refine ⟨q, (hmem q).mpr hq, ?_⟩
    rw [hresolve, FileTree.resolve_of_locate? hlocate]

end MessageExtraction.Discovery
