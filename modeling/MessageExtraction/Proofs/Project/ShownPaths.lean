import MessageExtraction.Proofs.Project.Following
import MessageExtraction.Proofs.Text.Splitting

/-!
# What is shown for a path leads back to its file

A path can be written if its names are names that a path can have, and reading what is written gives
back the path. A path below the working directory is shown relative to it, and any other path as it
is. Either way what is shown is the text of a path to the same file. So the files of two paths for
which the same is shown are one.

## Main definitions

* `Path.IsName`, `Path.IsWritten` -- names that a path can have, and paths of such names.
* `FileTree.IsNamed` -- a file tree whose files have such names.

## Main results

* `Path.ofText_render` -- a path that is written is read back.
* `Path.resolve_ofText_shownFrom` -- what is shown for a path leads where the path leads.
* `FileTree.IsNamed.resolve_eq_of_shownFrom_eq` -- what is shown tells files apart.
* `Path.eq_of_parts_eq` -- the order of paths tells paths apart.
-/

namespace MessageExtraction

namespace Path

variable {p q : Path} {name : Text} {names : List Text} {cwd l : Location}

/-- A name that a path can have: one that is written, is no single dot and holds no slash. -/
def IsName (name : Text) : Prop :=
  name ≠ [] ∧ name ≠ Text.ofString "." ∧ CodePoint.ofChar '/' ∉ name

instance : DecidablePred IsName :=
  fun _ => inferInstanceAs (Decidable (_ ∧ _ ∧ _))

/-- A path whose names are names that a path can have. -/
def IsWritten (p : Path) : Prop :=
  ∀ name ∈ p.names, IsName name

/-! ## Reading what is written -/

/-- The path of a text has names that a path can have. -/
theorem isWritten_ofText (t : Text) : (ofText t).IsWritten := by
  intro name hname
  obtain ⟨hpiece, hkept⟩ := List.mem_filter.mp hname
  simp only [Bool.and_eq_true, Bool.not_eq_true', List.isEmpty_eq_false_iff,
    decide_eq_true_eq] at hkept
  exact ⟨hkept.1, hkept.2, Text.not_mem_of_mem_splitOn hpiece⟩

/-- Names that a path can have are written without a slash before them. -/
theorem takeWhile_slash_join (h : ∀ name ∈ names, IsName name) :
    ((Text.join "/" names).takeWhile fun c => c.is '/') = [] := by
  cases names with
  | nil => rfl
  | cons name names =>
    obtain ⟨hne, -, hslash⟩ := h name List.mem_cons_self
    obtain ⟨c, rest, rfl⟩ := List.exists_cons_of_ne_nil hne
    have hc : c.is '/' = false := by
      rw [← Bool.not_eq_true, CodePoint.is_iff]
      rintro rfl
      exact hslash List.mem_cons_self
    cases names with
    | nil => simp [Text.join, hc]
    | cons second names => simp [Text.join, hc]

theorem filter_names (h : ∀ name ∈ names, IsName name) :
    (names.filter fun name => !name.isEmpty && name ≠ Text.ofString ".") = names := by
  refine List.filter_eq_self.mpr fun name hname => ?_
  obtain ⟨hne, hdot, -⟩ := h name hname
  simp [hne, hdot]

theorem takeWhile_slash_cons (t : Text) :
    ((CodePoint.ofChar '/' :: t).takeWhile fun c => c.is '/') =
      CodePoint.ofChar '/' :: t.takeWhile fun c => c.is '/' :=
  rfl

/-- A slash at the beginning of a text adds no name to its path. -/
theorem names_ofText_slash_cons (t : Text) :
    (ofText (CodePoint.ofChar '/' :: t)).names = (ofText t).names := by
  have hsplit : Text.splitOn '/' (CodePoint.ofChar '/' :: t) = [] :: Text.splitOn '/' t :=
    Text.splitOn_of_not_mem List.not_mem_nil t
  rw [ofText, hsplit, List.filter_cons_of_neg (by simp), ofText]

theorem names_ofText_join (hne : names ≠ []) (h : ∀ name ∈ names, IsName name) :
    (ofText (Text.join "/" names)).names = names := by
  have hsplit : Text.splitOn '/' (Text.join "/" names) = names :=
    Text.splitOn_join hne fun name hname => (h name hname).2.2
  rw [ofText, hsplit, filter_names h]

/-- Names after an anchor are read as the path of the two. -/
theorem ofText_append_join (anchor : Anchor) (hne : names ≠ []) (h : ∀ name ∈ names, IsName name) :
    ofText (anchor.text ++ Text.join "/" names) = ⟨anchor, names⟩ := by
  have hslashes := takeWhile_slash_join h
  have hnames := names_ofText_join hne h
  have hanchor {t : Text} (ht : (ofText t).names = names) : ofText t = ⟨(ofText t).anchor, names⟩ := by
    rw [← ht]
  cases anchor with
  | relative =>
    change ofText (Text.join "/" names) = _
    rw [hanchor hnames, ofText, hslashes]
    rfl
  | root =>
    change ofText (CodePoint.ofChar '/' :: Text.join "/" names) = _
    rw [hanchor ((names_ofText_slash_cons _).trans hnames), ofText, takeWhile_slash_cons, hslashes]
    rfl
  | doubleRoot =>
    change ofText (CodePoint.ofChar '/' :: CodePoint.ofChar '/' :: Text.join "/" names) = _
    rw [hanchor (((names_ofText_slash_cons _).trans (names_ofText_slash_cons _)).trans hnames),
      ofText, takeWhile_slash_cons, takeWhile_slash_cons, hslashes]
    rfl

/-- A path that is written is read back. -/
theorem ofText_render (h : p.IsWritten) : ofText p.render = p := by
  obtain ⟨anchor, names⟩ := p
  by_cases hnil : names = []
  · subst hnil
    cases anchor <;> rfl
  · rw [render, if_neg (by simp [hnil])]
    exact ofText_append_join anchor hnil h

/-! ## The order of paths -/

/-- The text of an anchor is no name. -/
theorem not_isName_text (anchor : Anchor) : ¬ IsName anchor.text := by
  cases anchor <;> decide

/-- Paths that no order of their parts tells apart are the same. -/
theorem eq_of_parts_eq (hp : p.IsWritten) (hq : q.IsWritten) (h : p.parts = q.parts) : p = q := by
  obtain ⟨anchor, names⟩ := p
  obtain ⟨anchor', names'⟩ := q
  simp only [parts] at h
  split at h <;> split at h
  · simp_all
  · exact absurd (hp anchor'.text (h ▸ List.mem_cons_self)) (not_isName_text anchor')
  · exact absurd (hq anchor.text (h ▸ List.mem_cons_self)) (not_isName_text anchor)
  · obtain ⟨htext, rfl⟩ := List.cons.inj h
    have hanchor : ∀ a b : Anchor, a.text = b.text → a = b := by
      rintro (_ | _ | _) (_ | _ | _) <;> decide
    rw [hanchor anchor anchor' htext]

/-! ## Shown paths -/

/-- Names that lead nowhere above lead below. -/
theorem foldl_enter (h : above ∉ names) : names.foldl enter l = l ++ names := by
  induction names generalizing l with
  | nil => exact (List.append_nil l).symm
  | cons name names ih =>
    obtain ⟨hname, hnames⟩ := not_or.mp (List.mem_cons.not.mp h)
    rw [List.foldl_cons, enter_of_ne (Ne.symm hname), ih hnames, List.append_assoc]
    rfl

/-- What is shown for a path leads where the path leads, if there are names on the way that a path
can have. -/
theorem resolve_ofText_shownFrom (hp : p.IsWritten)
    (hnames : ∀ name ∈ p.resolve cwd, IsName name ∧ name ≠ above) :
    (ofText (p.shownFrom cwd)).resolve cwd = p.resolve cwd := by
  rw [shownFrom]
  split
  · next names hbelow =>
    have hresolve : p.resolve cwd = cwd ++ names := namesBelow?_eq_some.mp hbelow
    rw [hresolve] at hnames ⊢
    rw [ofText_render fun name hname => (hnames name (List.mem_append_right cwd hname)).1]
    exact foldl_enter fun habove => (hnames above (List.mem_append_right cwd habove)).2 rfl
  · rw [ofText_render hp]

end Path

namespace FileTree

variable {t : FileTree} {cwd l file : Location} {p q : Path}

/-- Every file of a tree is where a file can be and has names that a path can have. -/
structure IsNamed (t : FileTree) : Prop extends WellFormed t where
  isName : ∀ f ∈ t.files, ∀ name ∈ f.1, Path.IsName name

theorem IsNamed.of_isFile (ht : t.IsNamed) (h : t.isFile file = true) :
    ∀ name ∈ file, Path.IsName name ∧ name ≠ Path.above := by
  intro name hname
  obtain ⟨content, hfile⟩ := isFile_iff.mp h
  refine ⟨ht.isName _ hfile name hname, ?_⟩
  rintro rfl
  exact ht.above_not_mem _ hfile hname

/-- Two paths to files for which the same is shown lead to the same file. -/
theorem IsNamed.resolve_eq_of_shownFrom_eq (ht : t.IsNamed) (hp : p.IsWritten) (hq : q.IsWritten)
    (hpfile : t.isFile (p.resolve cwd) = true) (hqfile : t.isFile (q.resolve cwd) = true)
    (h : p.shownFrom cwd = q.shownFrom cwd) : p.resolve cwd = q.resolve cwd := by
  rw [← Path.resolve_ofText_shownFrom hp (ht.of_isFile hpfile), h,
    Path.resolve_ofText_shownFrom hq (ht.of_isFile hqfile)]

end FileTree

end MessageExtraction
