import Mathlib.Data.List.Permutation
import MessageExtraction.Extraction
import MessageExtraction.Proofs.Options.Loading
import MessageExtraction.Proofs.Project.Discovery
import MessageExtraction.Proofs.Text.LowerCase

/-!
# Extensions from the options to the scanners

A file of options writes an extension with blanks around it and dots before it, or without. The files
below a directory are found by what follows the last dot of their names, and they are scanned by what
follows the last dot of the path that is shown for them. The three agree on every extension that is
not empty and that lower case does not change, whatever dots stand in the path. They disagree on the
others. An extension that lower case changes is kept in lower case only, so that no file that bears it
is scanned. The empty one finds the names without a dot, but what is looked up for these is never
empty.

## Main definitions

* `Options.coreOf` -- the extension that a file of options writes.
* `Path.FoundBy` -- the extension by which a file is found.
* `Options.eventsBy` -- what scanning a source in one way yields.

## Main results

* `FileTree.WellFormed.exists_shownFrom_eq` -- what is shown for a file ends in its name.
* `Path.suffixOf_eq_iff` -- by which extension a file is found.
* `Source.extension_of_foundBy` -- by which extension a source is scanned.
* `Options.Maps.strategy?_eq`, `Options.Maps.not_mem_keys` -- which extensions have a way of scanning.
* `collect_events_of_maps` -- which files of an extension are found and how they are scanned.
* `collect_capitalExtension` -- an extension by which no file is found.
-/

namespace MessageExtraction

/-- The dot before an extension. -/
def dot : CodePoint :=
  CodePoint.ofChar '.'

/-- The extension that a file of options writes: blanks around it and dots before it are left out. -/
def Options.coreOf (key : Text) : Text :=
  (Text.strip key).dropWhile fun c => c.is '.'

/-- The extension by which a file is found: what follows the last dot of its name if something stands
on both sides of that dot, and else the empty one. -/
inductive Path.FoundBy (name : Text) : (extension : Text) → Prop
  | dotted {stem extension : Text} (hname : name = stem ++ dot :: extension) (hstem : stem ≠ [])
      (hextension : extension ≠ []) (hdot : dot ∉ extension) : FoundBy name extension
  | bare (h : ∀ stem extension, name = stem ++ dot :: extension → dot ∉ extension →
      stem = [] ∨ extension = []) : FoundBy name []

/-- What scanning a source in one way yields. -/
def Options.eventsBy (o : Options) (s : Strategy) (source : Source) : List ScanEvent :=
  match s with
  | .template => o.templateEvents source
  | .script => o.scriptEvents source 0

/-! ## Shown paths -/

theorem Text.exists_join_concat (sep : Text) (before : List Text) (last : Text) :
    ∃ front, Text.join sep (before ++ [last]) = front ++ last := by
  induction before with
  | nil => exact ⟨[], rfl⟩
  | cons first before ih =>
    obtain ⟨front, hfront⟩ := ih
    refine ⟨first ++ sep ++ front, ?_⟩
    rw [List.cons_append, Text.join_cons_of_ne_nil _ _ (by simp), hfront]
    simp only [List.append_assoc]

/-- A path is written with its last name at the end. -/
theorem Path.exists_render_eq {p : Path} {before : List Text} {last : Text}
    (h : p.names = before ++ [last]) : ∃ front, p.render = front ++ last := by
  obtain ⟨front, hfront⟩ := Text.exists_join_concat "/" before last
  refine ⟨p.anchor.text ++ front, ?_⟩
  rw [Path.render, h, if_neg (by simp), hfront, List.append_assoc]

/-- What is shown for a file ends in its name, whether it lies below the working directory or not. -/
theorem FileTree.WellFormed.exists_shownFrom_eq {t : FileTree} {cwd d : Location} {p : Path}
    {name : Text} (ht : t.WellFormed) (hcwd : t.isFile cwd = false)
    (hlocate : t.locate? cwd p = some (d ++ [name])) (hfile : t.isFile (d ++ [name]) = true) :
    ∃ front, p.shownFrom cwd = front ++ name := by
  rw [Path.shownFrom, FileTree.resolve_of_locate? hlocate]
  split
  · next names hnames =>
    have heq : d ++ [name] = cwd ++ names := Path.namesBelow?_eq_some.mp hnames
    rcases List.eq_nil_or_concat names with rfl | ⟨before, last, rfl⟩
    · rw [heq, List.append_nil, hcwd] at hfile
      cases hfile
    · rw [List.concat_eq_append, ← List.append_assoc] at heq
      obtain ⟨-, hlast⟩ := List.append_inj' heq rfl
      rw [List.concat_eq_append, ← hlast]
      exact Path.exists_render_eq rfl
  · obtain ⟨before, d', name', hnames, heq⟩ := ht.exists_names_eq hcwd hlocate hfile
    obtain ⟨-, hlast⟩ := List.append_inj' heq rfl
    obtain ⟨front, hfront⟩ := Path.exists_render_eq hnames
    exact ⟨front, by rw [hfront, ← List.singleton_inj.mp hlast]⟩

/-! ## Extensions of names -/

theorem takeWhile_reverse_append {core : Text} (h : dot ∉ core) (front : Text) :
    ((front ++ core).reverse.takeWhile fun c => !c.is '.') =
      core.reverse ++ front.reverse.takeWhile fun c => !c.is '.' := by
  rw [List.reverse_append, List.takeWhile_append_of_pos]
  intro c hc
  rw [Bool.not_eq_true', Bool.eq_false_iff, ne_eq, CodePoint.is_iff]
  rintro rfl
  exact h (List.mem_reverse.mp hc)

theorem takeWhile_reverse_append_dot {core : Text} (h : dot ∉ core) (front : Text) :
    ((front ++ dot :: core).reverse.takeWhile fun c => !c.is '.') = core.reverse := by
  have hsplit : front ++ dot :: core = (front ++ [dot]) ++ core := by simp
  rw [hsplit, takeWhile_reverse_append h, List.reverse_append]
  exact List.append_nil _

/-- A source is scanned by the extension of the name at the end of its path. -/
theorem Source.extension_shown {core : Text} (h : dot ∉ core) (front stem text : Text) :
    (⟨front ++ (stem ++ dot :: core), text⟩ : Source).extension = core := by
  rw [Source.extension, ← List.append_assoc, takeWhile_reverse_append_dot h, List.reverse_reverse]

/-- A source whose path ends in a name without a dot is scanned by an extension that ends in the
whole name. -/
theorem Source.extension_shown_of_not_mem {name : Text} (h : dot ∉ name) (front text : Text) :
    ∃ before, (⟨front ++ name, text⟩ : Source).extension = before ++ name := by
  refine ⟨(front.reverse.takeWhile fun c => !c.is '.').reverse, ?_⟩
  rw [Source.extension, takeWhile_reverse_append h, List.reverse_append, List.reverse_reverse]

namespace Path

variable {name stem extension : Text}

theorem suffixOf_dotted (hdot : dot ∉ extension) :
    suffixOf (stem ++ dot :: extension) = if stem = [] then [] else extension := by
  rw [suffixOf, takeWhile_reverse_append_dot hdot]
  cases stem with
  | nil => simp
  | cons c stem =>
    by_cases hnil : extension = []
    · simp [hnil]
    · simp [hnil]
      omega

theorem suffixOf_eq_nil (h : dot ∉ name) : suffixOf name = [] := by
  have htail := takeWhile_reverse_append h []
  rw [List.nil_append, List.reverse_nil, List.takeWhile_nil, List.append_nil] at htail
  simp [suffixOf, htail]

theorem foundBy_suffixOf (name : Text) : FoundBy name (suffixOf name) := by
  by_cases hmem : dot ∈ name
  · obtain ⟨after, before, hreverse, hafter⟩ :=
      List.eq_append_cons_of_mem (List.mem_reverse.mpr hmem)
    obtain ⟨stem, core, rfl, hdot⟩ : ∃ stem core, name = stem ++ dot :: core ∧ dot ∉ core :=
      ⟨before.reverse, after.reverse, by simpa using congrArg List.reverse hreverse, by simpa⟩
    by_cases hempty : stem = [] ∨ core = []
    · have hsuffix : suffixOf (stem ++ dot :: core) = [] := by
        rw [suffixOf_dotted hdot, ite_eq_left_iff]
        exact hempty.resolve_left
      rw [hsuffix]
      refine .bare fun stem' core' heq hdot' => ?_
      have hcore : core = core' := by
        have htails := takeWhile_reverse_append_dot hdot stem
        rw [heq, takeWhile_reverse_append_dot hdot' stem'] at htails
        exact (List.reverse_injective htails).symm
      subst hcore
      exact List.append_cancel_right heq ▸ hempty
    · obtain ⟨hstem, hcore⟩ := not_or.mp hempty
      rw [suffixOf_dotted hdot, if_neg hstem]
      exact .dotted rfl hstem hcore hdot
  · rw [suffixOf_eq_nil hmem]
    exact .bare fun stem core heq _ => absurd (heq ▸ by simp) hmem

/-- Files are found by the extensions of their names. -/
theorem suffixOf_eq_iff : suffixOf name = extension ↔ FoundBy name extension := by
  refine ⟨fun h => h ▸ foundBy_suffixOf name, fun h => ?_⟩
  cases h with
  | dotted hname hstem hextension hdot => rw [hname, suffixOf_dotted hdot, if_neg hstem]
  | bare h =>
    have hfound := foundBy_suffixOf name
    generalize suffixOf name = extension at hfound
    cases hfound with
    | dotted hname hstem hextension hdot =>
      exact absurd (h _ _ hname hdot) (not_or.mpr ⟨hstem, hextension⟩)
    | bare => rfl

end Path

/-! ## Ways of scanning -/

namespace Options

variable {source : Text} {content : Bytes} {base o : Options} {key core : Text} {s : Strategy}

theorem normalizeExtension_eq (key : Text) : normalizeExtension key = Text.lower (coreOf key) :=
  rfl

/-- An extension that lower case does not change is scanned in the way that a file gives it. -/
theorem Maps.strategy?_eq (hmaps : Maps content key s)
    (hload : load source content base = (o, none)) (hlower : Text.lower (coreOf key) = coreOf key) :
    o.strategy? (coreOf key) = some s := by
  have hget := hmaps.get?_strategies hload
  rw [normalizeExtension_eq, hlower] at hget
  rw [strategy?, hget]
  cases s <;> rfl

/-- Options from a file have no way of scanning for an extension that lower case changes. -/
theorem Maps.not_mem_keys (hmaps : Maps content key s)
    (hload : load source content base = (o, none)) (hlower : Text.lower core ≠ core) :
    core ∉ o.strategies.keys := by
  intro hmem
  obtain ⟨raw, rfl⟩ := hmaps.exists_of_mem_keys hload hmem
  rw [normalizeExtension_eq, Text.lower_lower] at hlower
  exact hlower rfl

theorem events_of_strategy? {x : Source} (h : o.strategy? x.extension = some s) :
    o.events x = o.eventsBy s x := by
  rw [events, h]
  cases s <;> rfl

theorem events_of_not_mem_keys {x : Source} (h : x.extension ∉ o.strategies.keys) :
    o.events x = [] := by
  have hnone : o.strategies.get? x.extension = none := by
    rw [Option.eq_none_iff_forall_ne_some]
    exact fun value hget => h (Table.exists_get?_iff.mp ⟨value, hget⟩)
  rw [events, strategy?, hnone]
  rfl

end Options

/-! ## Files of an extension -/

section Files

variable {t : FileTree} {cwd l file : Location} {extensions : List Text} {inputs paths : List Path}
  {input p : Path} {names : List Text} {name source key : Text} {content : Bytes}
  {base o : Options} {s : Strategy}

/-- A file below an input is found by the extension of its name. -/
theorem Discovery.finds_of_mem_extensions (ht : t.WellFormed) (hl : t.locate? cwd input = some l)
    (hfile : t.isFile (l ++ names) = true) (hname : names.getLast? = some name)
    (hexcluded : isExcluded names = false) (hmem : Path.suffixOf name ∈ extensions) :
    Finds t cwd extensions input (l ++ names) := by
  have hnames : names ≠ [] := by
    rintro rfl
    cases hname
  have hdirectory : t.isDirectory l = true := FileTree.isDirectory_of_isFile_append hfile hnames
  refine .below hl ?_ hfile ?_
  · rw [Bool.eq_false_iff]
    intro hself
    rw [ht.isDirectory_file hself] at hdirectory
    cases hdirectory
  · rw [isAccepted, hname, hexcluded]
    simpa using hmem

/-- A file that no input leads to is found by the extension of its name only. -/
theorem Discovery.mem_extensions_of_finds (h : Finds t cwd extensions input file)
    (hname : file.getLast? = some name) (hne : t.locate? cwd input ≠ some file) :
    Path.suffixOf name ∈ extensions := by
  cases h with
  | self h => exact absurd h hne
  | @below l names h hl hfile haccepted =>
    have hnames : names ≠ [] := by
      rintro rfl
      rw [List.append_nil, hl] at hfile
      cases hfile
    rw [List.getLast?_append_of_ne_nil _ hnames] at hname
    rw [isAccepted, hname, Bool.and_eq_true, List.contains_iff_mem] at haccepted
    exact haccepted.1

/-- What is shown for a file that is found ends in its name. -/
theorem Discovery.exists_shown_of_mem_collect (ht : t.WellFormed) (hcwd : t.isFile cwd = false)
    (h : collect t cwd extensions inputs = .ok paths) (hp : p ∈ paths)
    (hname : (p.resolve cwd).getLast? = some name) : ∃ front, p.shownFrom cwd = front ++ name := by
  obtain ⟨file, hlocate, hfile, -⟩ := finds_of_mem_collect ht h hp
  rw [FileTree.resolve_of_locate? hlocate] at hname
  obtain ⟨d, rfl⟩ := List.getLast?_eq_some_iff.mp hname
  exact ht.exists_shownFrom_eq hcwd hlocate hfile

/-- A source is scanned by the extension of the name at the end of its path, or, when the name has
no dot, by one that is not empty. -/
theorem Source.extension_of_foundBy {core front text : Text} (h : Path.FoundBy name core)
    (hempty : core = [] → dot ∉ name) :
    if core = [] then ∃ before, (⟨front ++ name, text⟩ : Source).extension = before ++ name
    else (⟨front ++ name, text⟩ : Source).extension = core := by
  cases h with
  | bare =>
    rw [if_pos rfl]
    exact extension_shown_of_not_mem (hempty rfl) front text
  | dotted hname _ hcore hdot =>
    rw [if_neg hcore, hname]
    exact extension_shown hdot front _ text

/-- Every file below an input, unless it is left out, is found and scanned in the way that a file of
options gives its extension, as long as the extension is not empty and lower case does not change it.
An extension that lower case changes is not scanned at all, and files are not even found by it. The
empty extension finds the files without a dot in their names, but what is looked up for them is not
empty: it ends in their whole name. -/
theorem collect_events_of_maps (ht : t.WellFormed) (hcwd : t.isFile cwd = false)
    (hload : Options.load source content base = (o, none)) (hmaps : Options.Maps content key s)
    (hinputs : ∀ input ∈ inputs, (t.locate? cwd input).isSome = true)
    (hinput : input ∈ inputs) (hl : t.locate? cwd input = some l)
    (hfile : t.isFile (l ++ names) = true) (hname : names.getLast? = some name)
    (hexcluded : Discovery.isExcluded names = false)
    (hextension : Path.FoundBy name (Options.coreOf key))
    (hempty : Options.coreOf key = [] → dot ∉ name) :
    ∃ paths, Discovery.collect t cwd o.strategies.keys inputs = .ok paths ∧
      (Text.lower (Options.coreOf key) = Options.coreOf key →
        (∃ p ∈ paths, p.resolve cwd = l ++ names) ∧
        ∀ p ∈ paths, p.resolve cwd = l ++ names → ∀ text,
          if Options.coreOf key = [] then
            ∃ before, (⟨p.shownFrom cwd, text⟩ : Source).extension = before ++ name
          else o.events ⟨p.shownFrom cwd, text⟩ = o.eventsBy s ⟨p.shownFrom cwd, text⟩) ∧
      (Text.lower (Options.coreOf key) ≠ Options.coreOf key →
        ((∀ other ∈ inputs, t.locate? cwd other ≠ some (l ++ names)) →
          ∀ p ∈ paths, p.resolve cwd ≠ l ++ names) ∧
        ∀ p ∈ paths, p.resolve cwd = l ++ names → ∀ text,
          o.events ⟨p.shownFrom cwd, text⟩ = []) := by
  obtain ⟨paths, hpaths⟩ := @Discovery.exists_collect t cwd o.strategies.keys inputs hinputs
  have hsuffix : Path.suffixOf name = Options.coreOf key := Path.suffixOf_eq_iff.mpr hextension
  have hlast : (l ++ names).getLast? = some name := by
    rw [List.getLast?_append, hname]
    rfl
  have hshown {p : Path} (hp : p ∈ paths) (hresolve : p.resolve cwd = l ++ names) :
      ∃ front, p.shownFrom cwd = front ++ name :=
    Discovery.exists_shown_of_mem_collect ht hcwd hpaths hp (hresolve ▸ hlast)
  refine ⟨paths, hpaths, fun hlower => ⟨?_, fun p hp hresolve text => ?_⟩,
    fun hlower => ⟨fun hothers p hp hresolve => ?_, fun p hp hresolve text => ?_⟩⟩
  · have hmem : Path.suffixOf name ∈ o.strategies.keys := by
      rw [hsuffix, ← hlower]
      exact Table.exists_get?_iff.mp ⟨_, hmaps.get?_strategies hload⟩
    exact (Discovery.exists_mem_collect_iff ht hpaths).mpr
      ⟨input, hinput, Discovery.finds_of_mem_extensions ht hl hfile hname hexcluded hmem⟩
  · obtain ⟨front, hfront⟩ := hshown hp hresolve
    have hsource := @Source.extension_of_foundBy _ _ front text hextension hempty
    rw [hfront]
    split at hsource
    · next hnil =>
      rw [if_pos hnil]
      exact hsource
    · next hne =>
      rw [if_neg hne]
      refine Options.events_of_strategy? ?_
      rw [hsource]
      exact hmaps.strategy?_eq hload hlower
  · obtain ⟨other, hother, hfinds⟩ :=
      (Discovery.exists_mem_collect_iff ht hpaths).mp ⟨p, hp, hresolve⟩
    refine hmaps.not_mem_keys hload hlower ?_
    rw [← hsuffix]
    exact Discovery.mem_extensions_of_finds hfinds hlast (hothers other hother)
  · obtain ⟨front, hfront⟩ := hshown hp hresolve
    have hsource := @Source.extension_of_foundBy _ _ front text hextension hempty
    have hne : Options.coreOf key ≠ [] := fun hnil => hlower (by rw [hnil]; rfl)
    rw [if_neg hne] at hsource
    rw [hfront]
    refine Options.events_of_not_mem_keys ?_
    rw [hsource]
    exact hmaps.not_mem_keys hload hlower

end Files

/-- A file of options that has the files of an extension scanned as templates. -/
def templateDocument (key : Text) : Text :=
  Text.ofString "\x7b\"extensions\": \x7b\"" ++ key ++ Text.ofString "\": \"html\"\x7d\x7d"

/-- The bytes of a file of options that has the files of an extension scanned as templates. -/
def templateOptions (key : Text) : Bytes :=
  (templateDocument key).flatMap CodePoint.utf8

/-- A template in a directory whose name holds a dot. -/
def templateTree (name : Text) : FileTree :=
  { files := [([Text.ofString "src", Text.ofString "v1.2", name],
      (Text.ofString "<p translate>Hi</p>").flatMap CodePoint.utf8)] }

theorem maps_templateOptions {key : Text}
    (hfile : Text.ofFile (templateOptions key) = .ok (templateDocument key))
    (hread : Json.read (templateDocument key) = .ok
      (.object [(OptionName.strategies.text, .object [(key, .string Strategy.template.name)])])) :
    Options.Maps (templateOptions key) key .template :=
  ⟨_, _, _, [], [], hfile, hread, List.mem_singleton_self _, rfl, List.forall_mem_nil _⟩

/-- A file named `page.tpl` is found and scanned as a template when the file of options writes the
extension ` .tpl`. -/
theorem collect_events_tpl :
    ∃ paths, Discovery.collect (templateTree "page.tpl") []
        (Options.load "options.json" (templateOptions " .tpl") {}).1.strategies.keys
        [Path.ofText "src"] = .ok paths ∧
      (∃ p ∈ paths,
        p.resolve [] = [Text.ofString "src"] ++ [Text.ofString "v1.2", Text.ofString "page.tpl"]) ∧
      ∀ p ∈ paths,
        p.resolve [] = [Text.ofString "src"] ++ [Text.ofString "v1.2", Text.ofString "page.tpl"] →
        ∀ text, (Options.load "options.json" (templateOptions " .tpl") {}).1.events
            ⟨p.shownFrom [], text⟩ =
          (Options.load "options.json" (templateOptions " .tpl") {}).1.templateEvents
            ⟨p.shownFrom [], text⟩ := by
  have hload : Options.load "options.json" (templateOptions " .tpl") {} =
      ((Options.load "options.json" (templateOptions " .tpl") {}).1, none) :=
    Options.load_eq_of_snd (by decide +kernel)
  have hmaps : Options.Maps (templateOptions " .tpl") " .tpl" .template :=
    maps_templateOptions (by decide +kernel) (by cbv)
  have hextension : Path.FoundBy "page.tpl" (Options.coreOf " .tpl") :=
    Path.suffixOf_eq_iff.mp (by decide +kernel)
  have hne : Options.coreOf " .tpl" ≠ [] := by decide +kernel
  have hinputs : ∀ input ∈ [Path.ofText "src"],
      ((templateTree "page.tpl").locate? [] input).isSome = true := by decide +kernel
  have hl : (templateTree "page.tpl").locate? [] (Path.ofText "src") = some [Text.ofString "src"] := by
    decide +kernel
  have hfile : (templateTree "page.tpl").isFile
      ([Text.ofString "src"] ++ [Text.ofString "v1.2", Text.ofString "page.tpl"]) = true := by
    decide +kernel
  have hexcluded : Discovery.isExcluded [Text.ofString "v1.2", Text.ofString "page.tpl"] = false := by
    decide +kernel
  have hlower : Text.lower (Options.coreOf " .tpl") = Options.coreOf " .tpl" := by decide +kernel
  obtain ⟨paths, hpaths, hfound, -⟩ := collect_events_of_maps
    ⟨by decide +kernel, by decide +kernel⟩ (by decide +kernel) hload hmaps hinputs
    (List.mem_singleton_self _) hl hfile rfl hexcluded hextension fun h => absurd h hne
  obtain ⟨hcollected, hrouted⟩ := hfound hlower
  refine ⟨paths, hpaths, hcollected, fun p hp hresolve text => ?_⟩
  have hevents := hrouted p hp hresolve text
  rwa [if_neg hne] at hevents

/-- A file named `page.TPL` is not found when the file of options writes the extension `TPL`. -/
theorem collect_capitalExtension :
    Options.Maps (templateOptions "TPL") "TPL" .template ∧
    (Options.load "options.json" (templateOptions "TPL") {}).2 = none ∧
    (templateTree "page.TPL").isFile [Text.ofString "src", Text.ofString "v1.2", "page.TPL"] = true ∧
    Discovery.isExcluded [Text.ofString "v1.2", "page.TPL"] = false ∧
    Path.FoundBy "page.TPL" (Options.coreOf "TPL") ∧
    Discovery.collect (templateTree "page.TPL") []
      (Options.load "options.json" (templateOptions "TPL") {}).1.strategies.keys
      [Path.ofText "src"] = .ok [] := by
  exact ⟨maps_templateOptions (by decide +kernel) (by cbv), by decide +kernel, by decide +kernel,
    by decide +kernel, Path.suffixOf_eq_iff.mp (by decide +kernel), by decide +kernel⟩

end MessageExtraction
