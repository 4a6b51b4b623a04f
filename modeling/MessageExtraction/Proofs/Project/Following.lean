import Mathlib.Data.List.Basic
import MessageExtraction.Project.FileTree

/-!
# Following paths through a file tree

In a file tree no file has a directory's place or the name of the directory above. So a path that
leads to a file ends in the name of the file, and the names below a directory lead to each of the
files below it.

## Main definitions

* `FileTree.WellFormed` -- every file of a tree is where a file can be.

## Main results

* `FileTree.resolve_of_locate?` -- a path leads to its location.
* `FileTree.WellFormed.locate?_below` -- names below a directory lead to a file below it.
* `FileTree.WellFormed.exists_names_eq` -- a path to a file ends in the name of the file.
-/

namespace MessageExtraction

namespace Path

theorem enter_of_ne {l : Location} {name : Text} (h : name ≠ above) : enter l name = l ++ [name] :=
  if_neg h

end Path

namespace FileTree

variable {t : FileTree} {cwd l file : Location} {names : List Text} {p : Path}

/-- Every file is where a file can be: it bears no name of a directory above, and its place is not
that of a directory. -/
structure WellFormed (t : FileTree) : Prop where
  above_not_mem : ∀ f ∈ t.files, Path.above ∉ f.1
  not_isDirectory : ∀ f ∈ t.files, t.isDirectory f.1 = false

theorem isFile_iff : t.isFile l = true ↔ ∃ content, (l, content) ∈ t.files := by
  rw [isFile, content?, Option.isSome_iff_exists, Table.exists_get?_iff]
  simp [Table.keys]

theorem mem_below_iff : names ∈ t.below l ↔ t.isFile (l ++ names) = true := by
  rw [mem_below, isFile_iff]

theorem WellFormed.above_not_mem_file (ht : t.WellFormed) (h : t.isFile file = true) :
    Path.above ∉ file := by
  obtain ⟨content, hfile⟩ := isFile_iff.mp h
  exact ht.above_not_mem _ hfile

theorem WellFormed.isDirectory_file (ht : t.WellFormed) (h : t.isFile file = true) :
    t.isDirectory file = false := by
  obtain ⟨content, hfile⟩ := isFile_iff.mp h
  exact ht.not_isDirectory _ hfile

/-! ## Directories -/

/-- What is above a directory is one. -/
theorem isDirectory_of_append (h : t.isDirectory (l ++ names) = true) : t.isDirectory l = true := by
  rw [isDirectory, Bool.or_eq_true, Bool.or_eq_true] at h ⊢
  rcases h with (h | h) | h
  · rw [List.isEmpty_iff] at h
    exact .inl (.inl (List.isEmpty_iff.mpr (List.append_eq_nil_iff.mp h).1))
  · obtain ⟨d, hd, hbegins⟩ := List.any_eq_true.mp h
    refine .inl (.inr (List.any_eq_true.mpr ⟨d, hd, ?_⟩))
    rw [List.isPrefixOf_iff_prefix] at hbegins ⊢
    exact (List.prefix_append l names).trans hbegins
  · obtain ⟨f, hf, hbelow⟩ := List.any_eq_true.mp h
    refine .inr (List.any_eq_true.mpr ⟨f, hf, ?_⟩)
    simp only [Bool.and_eq_true, List.isPrefixOf_iff_prefix, decide_eq_true_eq] at hbelow ⊢
    obtain ⟨hbegins, hne⟩ := hbelow
    have hl : l <+: f.1 := (List.prefix_append l names).trans hbegins
    refine ⟨hl, fun heq => hne ?_⟩
    rw [← heq] at hbegins ⊢
    exact hbegins.eq_of_length_le (by simp)

/-- What is above a file is a directory. -/
theorem isDirectory_of_isFile_append (h : t.isFile (l ++ names) = true) (hne : names ≠ []) :
    t.isDirectory l = true := by
  obtain ⟨content, hfile⟩ := isFile_iff.mp h
  rw [isDirectory, Bool.or_eq_true]
  refine .inr (List.any_eq_true.mpr ⟨_, hfile, ?_⟩)
  simpa [List.isPrefixOf_iff_prefix] using hne

theorem isDirectory_nil : t.isDirectory [] = true :=
  rfl

/-! ## Following names -/

theorem follow?_cons {name : Text} :
    t.follow? l (name :: names) =
      if t.isDirectory l then t.follow? (Path.enter l name) names else none :=
  rfl

theorem foldl_of_follow? (h : t.follow? l names = some file) :
    names.foldl Path.enter l = file ∧ t.has file = true := by
  induction names generalizing l with
  | nil =>
    rw [follow?] at h
    split at h
    · next hhas =>
      cases h
      exact ⟨rfl, hhas⟩
    · cases h
  | cons name names ih =>
    rw [follow?_cons] at h
    split at h
    · exact ih h
    · cases h

/-- A path leads to its location. -/
theorem resolve_of_locate? (h : t.locate? cwd p = some l) : p.resolve cwd = l :=
  (foldl_of_follow? h).1

/-- Further names are followed from where the first ones lead. -/
theorem follow?_append {more : List Text} {d : Location} (h : t.follow? l names = some d) :
    t.follow? l (names ++ more) = t.follow? d more := by
  induction names generalizing l with
  | nil =>
    rw [follow?] at h
    split at h
    · cases h
      rfl
    · cases h
  | cons name names ih =>
    rw [follow?_cons] at h
    rw [List.cons_append, follow?_cons]
    split at h
    · next hl => rw [if_pos hl, ih h]
    · cases h

/-- The names below a directory lead to each of the files below it. -/
theorem follow?_below (hfile : t.isFile (l ++ names) = true) (habove : Path.above ∉ names) :
    t.follow? l names = some (l ++ names) := by
  induction names generalizing l with
  | nil =>
    rw [List.append_nil] at hfile ⊢
    rw [follow?, has, hfile]
    rfl
  | cons name names ih =>
    obtain ⟨hname, hnames⟩ := not_or.mp (List.mem_cons.not.mp habove)
    have hassoc : l ++ name :: names = l ++ [name] ++ names := by simp
    rw [follow?_cons, if_pos (isDirectory_of_isFile_append hfile (List.cons_ne_nil _ _)),
      Path.enter_of_ne (Ne.symm hname), hassoc]
    exact ih (hassoc ▸ hfile) hnames

/-- Names lead to the last one of them from a directory. -/
theorem exists_isDirectory_of_follow? {name : Text} (h : t.follow? l (names ++ [name]) = some file) :
    ∃ d, t.isDirectory d = true ∧ Path.enter d name = file := by
  induction names generalizing l with
  | nil =>
    rw [List.nil_append, follow?_cons] at h
    split at h
    · next hl => exact ⟨l, hl, (foldl_of_follow? h).1⟩
    · cases h
  | cons first names ih =>
    rw [List.cons_append, follow?_cons] at h
    split at h
    · exact ih h
    · cases h

/-! ## Paths to files -/

/-- A path to a directory, and names below the directory, lead to a file below it. -/
theorem WellFormed.locate?_below (ht : t.WellFormed) (h : t.locate? cwd p = some l)
    (hfile : t.isFile (l ++ names) = true) :
    t.locate? cwd { p with names := p.names ++ names } = some (l ++ names) := by
  have habove : Path.above ∉ names := fun hmem =>
    ht.above_not_mem_file hfile (List.mem_append_right l hmem)
  exact (follow?_append h).trans (follow?_below hfile habove)

/-- A path to a file ends in the name of the file, unless it begins there. -/
theorem WellFormed.exists_names_eq (ht : t.WellFormed) (hcwd : t.isFile cwd = false)
    (h : t.locate? cwd p = some file) (hfile : t.isFile file = true) :
    ∃ before d name, p.names = before ++ [name] ∧ file = d ++ [name] := by
  have hdirectory := ht.isDirectory_file hfile
  rcases List.eq_nil_or_concat p.names with hnil | ⟨before, name, hnames⟩
  · rw [locate?, hnil] at h
    have hstart : p.start cwd = file := (foldl_of_follow? h).1
    rw [Path.start] at hstart
    split at hstart
    · rw [hstart, hfile] at hcwd
      cases hcwd
    · rw [← hstart, isDirectory_nil] at hdirectory
      cases hdirectory
  · rw [List.concat_eq_append] at hnames
    rw [locate?, hnames] at h
    obtain ⟨d, hd, henter⟩ := exists_isDirectory_of_follow? h
    refine ⟨before, d, name, hnames, ?_⟩
    rw [← henter, Path.enter, if_neg]
    -- Above a directory there are only directories.
    intro hname
    rw [Path.enter, if_pos hname] at henter
    rcases List.eq_nil_or_concat d with hnil | ⟨init, last, hlast⟩
    · rw [hnil] at henter
      rw [← henter, List.dropLast_nil, isDirectory_nil] at hdirectory
      cases hdirectory
    · rw [hlast, List.concat_eq_append, List.dropLast_concat] at henter
      rw [hlast, List.concat_eq_append] at hd
      rw [← henter, isDirectory_of_append hd] at hdirectory
      cases hdirectory

end FileTree

end MessageExtraction
