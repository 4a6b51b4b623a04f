import MessageExtraction.Proofs.Options.Loading
import Mathlib.Data.List.Induction
import Mathlib.Data.List.Permutation

/-!
# Options laid over options

A file of options is laid over other options member by member. What results does not depend on the
order of the members: an option that a member names has the value that the member gives it, and
every other option keeps its value. So a file of options can be used just if each of its members
names an option and gives it a value of its type, and every way of scanning in the result is known.

## Main definitions

* `OptionValue`, `Options.value` -- the value of an option.
* `NormalizesTo` -- the ways of scanning that texts give, with extensions normalised.
* `Gives` -- what the value of a member gives to an option.
* `Options.Overlays` -- options are other options with the members of an object laid over them.

## Main results

* `Options.assign?_eq_some_iff` -- what setting one option does.
* `Options.setAll_eq_ok_iff` -- what setting members one after another does.
* `Options.Overlays.unique`, `Options.Overlays.perm` -- the result is fixed by the members in any
  order.
* `Options.load_object` -- when a file of options can be used, what it leads to, and that the order
  of its members does not matter.
-/

namespace MessageExtraction

/-! ### Tables made from pairs -/

namespace Table

variable {κ α : Type} [DecidableEq κ]

theorem ofList_append (pairs : List (κ × α)) (pair : κ × α) :
    ofList (pairs ++ [pair]) = set pair.1 pair.2 (ofList pairs) := by
  rw [ofList, setAll, List.foldl_append]
  rfl

/-- The keys of a table made from pairs stand where they first come. -/
theorem keys_ofList [BEq κ] [LawfulBEq κ] (pairs : List (κ × α)) :
    keys (ofList pairs) = (pairs.map Prod.fst).eraseDups := by
  induction pairs using List.reverseRecOn with
  | nil => rfl
  | append_singleton pairs pair ih =>
    rw [ofList_append, keys_set, ih, List.map_append, List.eraseDups_append]
    by_cases hmem : pair.1 ∈ pairs.map Prod.fst
    · simp [List.removeAll, hmem]
    · simp [List.removeAll, hmem, List.eraseDups_cons]

/-- In a table made from pairs, a key has the value of its last pair. -/
theorem get?_ofList_eq_some_iff {pairs : List (κ × α)} {key : κ} {value : α} :
    get? key (ofList pairs) = some value ↔
      ∃ before later, pairs = before ++ (key, value) :: later ∧ ∀ pair ∈ later, pair.1 ≠ key := by
  constructor
  · induction pairs using List.reverseRecOn with
    | nil => exact fun h => nomatch h
    | append_singleton pairs pair ih =>
      rw [ofList_append, get?_set]
      by_cases hkey : pair.1 = key
      · rw [if_pos hkey]
        intro h
        obtain rfl : pair.2 = value := Option.some.inj h
        exact ⟨pairs, [], by rw [← hkey], List.forall_mem_nil _⟩
      · rw [if_neg hkey]
        intro h
        obtain ⟨before, later, rfl, hlater⟩ := ih h
        refine ⟨before, later ++ [pair], by simp, fun other hother => ?_⟩
        rcases List.mem_append.mp hother with hother | hother
        · exact hlater other hother
        · rwa [List.mem_singleton.mp hother]
  · rintro ⟨before, later, rfl, hlater⟩
    exact get?_ofList_append_cons before fun pair hpair hkey => absurd hkey (hlater pair hpair)

/-- Tables with the same keys, none of them repeated, and the same values are the same. -/
theorem eq_of_get?_eq {s t : Table κ α} (hkeys : keys s = keys t) (hnodup : (keys s).Nodup)
    (hvalues : ∀ key, get? key s = get? key t) : s = t := by
  induction s generalizing t with
  | nil => exact (List.map_eq_nil_iff.mp hkeys.symm).symm
  | cons first s ih =>
    obtain ⟨first', t, rfl, hfirst, hrest⟩ := List.map_eq_cons_iff.mp hkeys.symm
    have htail : keys t = keys s := hrest
    obtain ⟨k, v⟩ := first
    obtain ⟨k', v'⟩ := first'
    obtain rfl : k' = k := hfirst
    obtain ⟨hk, hnodup⟩ := List.nodup_cons.mp hnodup
    have hv := hvalues k'
    rw [get?, get?, if_pos rfl, if_pos rfl] at hv
    obtain rfl : v = v' := Option.some.inj hv
    refine congrArg _ (ih htail.symm hnodup fun key => ?_)
    by_cases hkey : k' = key
    · subst hkey
      have hnone : ∀ u : Table κ α, k' ∉ keys u → get? k' u = none := fun u hu =>
        Option.eq_none_iff_forall_ne_some.mpr fun value h => hu (exists_get?_iff.mp ⟨value, h⟩)
      rw [hnone s hk, hnone t (htail ▸ hk)]
    · have hother := hvalues key
      rwa [get?, get?, if_neg hkey, if_neg hkey] at hother

end Table

/-! ### Values of members -/

namespace Json.Value

/-- What a function reads from each member of a list is what the members are written from. -/
theorem mapM_eq_some_iff {α β : Type} {read : α → Option β} {write : β → α}
    (h : ∀ a b, read a = some b ↔ a = write b) {items : List α} {parts : List β} :
    items.mapM read = some parts ↔ items = parts.map write := by
  induction items generalizing parts with
  | nil => cases parts <;> simp
  | cons item items ih =>
    simp only [List.mapM_cons, Option.bind_eq_bind, Option.bind_eq_some_iff, Option.pure_def,
      Option.some.injEq]
    constructor
    · rintro ⟨part, hpart, others, hothers, rfl⟩
      rw [List.map_cons, ← (h _ _).mp hpart, ← ih.mp hothers]
    · intro hitems
      obtain ⟨part, others, rfl, hpart, hothers⟩ := List.map_eq_cons_iff.mp hitems.symm
      exact ⟨part, (h _ _).mpr hpart.symm, others, ih.mpr hothers.symm, rfl⟩

theorem text?_eq_some_iff {v : Value} {t : Text} : v.text? = some t ↔ v = .string t := by
  cases v <;> simp [text?]

theorem bool?_eq_some_iff {v : Value} {b : Bool} : v.bool? = some b ↔ v = .bool b := by
  cases v <;> simp [bool?]

theorem texts?_eq_some_iff {v : Value} {ts : List Text} :
    v.texts? = some ts ↔ v = .array (ts.map .string) := by
  cases v <;> simp [texts?, mapM_eq_some_iff fun _ _ => text?_eq_some_iff]

theorem textTable?_eq_some_iff {v : Value} {table : Table Text Text} :
    v.textTable? = some table ↔ v = .object (table.map fun e => (e.1, .string e.2)) := by
  have hmember : ∀ (m : Text × Value) (e : Text × Text),
      ((m.2.text?).map fun t => (m.1, t)) = some e ↔ m = (e.1, .string e.2) := by
    rintro ⟨name, value⟩ ⟨key, t⟩
    simp only [Option.map_eq_some_iff, text?_eq_some_iff, Prod.mk.injEq]
    constructor
    · rintro ⟨_, rfl, rfl, rfl⟩
      exact ⟨rfl, rfl⟩
    · rintro ⟨rfl, rfl⟩
      exact ⟨t, rfl, rfl, rfl⟩
  cases v <;> simp [textTable?, mapM_eq_some_iff hmember]

end Json.Value

/-! ### Values of options -/

/-- The value of an option. -/
inductive OptionValue
  | text (t : Text)
  | texts (ts : List Text)
  | truth (b : Bool)
  | table (t : Table Text Text)
deriving DecidableEq

/-- The value of an option among options. -/
def Options.value (o : Options) : OptionName → OptionValue
  | .startDelimiter => .text o.delimiters.opening
  | .endDelimiter => .text o.delimiters.closing
  | .marker => .text o.marker
  | .furtherMarkers => .texts o.furtherMarkers
  | .lineNumbers => .truth o.lineNumbers
  | .strategies => .table o.strategies

/-- Options with the same values, and the same done to the file of messages, are the same. -/
theorem Options.ext_of_value {a b : Options} (h : ∀ option, a.value option = b.value option)
    (hfinish : a.finish = b.finish) : a = b := by
  obtain ⟨⟨opening, closing⟩, marker, furtherMarkers, lineNumbers, strategies, finish⟩ := a
  obtain ⟨⟨opening', closing'⟩, marker', furtherMarkers', lineNumbers', strategies', finish'⟩ := b
  obtain rfl : opening = opening' := OptionValue.text.inj (h .startDelimiter)
  obtain rfl : closing = closing' := OptionValue.text.inj (h .endDelimiter)
  obtain rfl : marker = marker' := OptionValue.text.inj (h .marker)
  obtain rfl : furtherMarkers = furtherMarkers' := OptionValue.texts.inj (h .furtherMarkers)
  obtain rfl : lineNumbers = lineNumbers' := OptionValue.truth.inj (h .lineNumbers)
  obtain rfl : strategies = strategies' := OptionValue.table.inj (h .strategies)
  obtain rfl : finish = finish' := hfinish
  rfl

/-- The ways of scanning that texts give: an extension is normalised and stands where it first
comes, and of several that are normalised to the same the last one gives the way of scanning. -/
structure NormalizesTo (given strategies : Table Text Text) : Prop where
  keys_eq : strategies.keys = (given.map fun e => normalizeExtension e.1).eraseDups
  get?_eq_some_iff : ∀ extension name, strategies.get? extension = some name ↔
    ∃ before raw later, given = before ++ (raw, name) :: later ∧
      normalizeExtension raw = extension ∧ ∀ e ∈ later, normalizeExtension e.1 ≠ extension

theorem normalizesTo_strategiesOf (given : Table Text Text) :
    NormalizesTo given (Options.strategiesOf given) where
  keys_eq := by
    rw [Options.strategiesOf, Table.keys_ofList, List.map_map]
    rfl
  get?_eq_some_iff extension name := by
    rw [Options.strategiesOf, Table.get?_ofList_eq_some_iff]
    constructor
    · rintro ⟨before, later, hgiven, hlater⟩
      obtain ⟨before', rest, rfl, rfl, hrest⟩ := List.map_eq_append_iff.mp hgiven
      obtain ⟨⟨raw, name'⟩, later', rfl, hfirst, rfl⟩ := List.map_eq_cons_iff.mp hrest
      obtain ⟨hraw, rfl⟩ := Prod.mk.inj hfirst
      exact ⟨before', raw, later', rfl, hraw, fun e he => hlater _ (List.mem_map_of_mem he)⟩
    · rintro ⟨before, raw, later, rfl, rfl, hlater⟩
      refine ⟨_, _, by rw [List.map_append, List.map_cons], fun e he => ?_⟩
      obtain ⟨other, hother, rfl⟩ := List.mem_map.mp he
      exact hlater other hother

/-- Texts give their ways of scanning in one way. -/
theorem NormalizesTo.unique {given strategies strategies' : Table Text Text}
    (h : NormalizesTo given strategies) (h' : NormalizesTo given strategies') :
    strategies = strategies' := by
  have hnodup : strategies.keys.Nodup := by
    rw [h.keys_eq, ← (normalizesTo_strategiesOf given).keys_eq]
    exact Table.nodup_keys_ofList _
  refine Table.eq_of_get?_eq (h.keys_eq.trans h'.keys_eq.symm) hnodup fun key => ?_
  ext name
  rw [h.get?_eq_some_iff, h'.get?_eq_some_iff]

/-- What the value of a member gives to an option. A value that is not of the type of the option
gives nothing. -/
inductive Gives : OptionName → Json.Value → OptionValue → Prop
  | startDelimiter (t : Text) : Gives .startDelimiter (.string t) (.text t)
  | endDelimiter (t : Text) : Gives .endDelimiter (.string t) (.text t)
  | marker (t : Text) : Gives .marker (.string t) (.text t)
  | furtherMarkers (ts : List Text) : Gives .furtherMarkers (.array (ts.map .string)) (.texts ts)
  | lineNumbers (b : Bool) : Gives .lineNumbers (.bool b) (.truth b)
  | strategies {given strategies : Table Text Text} (h : NormalizesTo given strategies) :
    Gives .strategies (.object (given.map fun e => (e.1, .string e.2))) (.table strategies)

theorem OptionName.ofText?_eq_some_iff {key : Text} {option : OptionName} :
    ofText? key = some option ↔ option.text = key := by
  constructor
  · intro h
    simpa using List.find?_some h
  · rintro rfl
    cases option <;> decide

theorem OptionName.ofText?_eq_none_iff {key : Text} :
    ofText? key = none ↔ ∀ option : OptionName, option.text ≠ key := by
  simp only [Option.eq_none_iff_forall_ne_some, ne_eq, ofText?_eq_some_iff]

theorem OptionName.text_injective {option option' : OptionName} (h : option.text = option'.text) :
    option = option' :=
  Option.some.inj ((ofText?_eq_some_iff.mpr h).symm.trans (ofText?_eq_some_iff.mpr rfl))

/-- No way of scanning is found under a name that none of them has. -/
theorem Strategy.isNone_ofName?_iff {name : Text} :
    (ofName? name).isNone ↔ ∀ s : Strategy, s.name ≠ name := by
  have hall : ∀ s : Strategy, s ∈ all := fun s => by cases s <;> decide
  rw [Option.isNone_iff_eq_none, ofName?, List.find?_eq_none]
  simp [hall]

namespace Options

variable {source : Text} {o base after after' : Options} {option : OptionName}
  {value : Json.Value} {given : OptionValue} {members members' : List (Text × Json.Value)}

/-! ### Setting one option -/

/-- Options are other options with the value of one of them set. -/
structure Sets (option : OptionName) (given : OptionValue) (o after : Options) : Prop where
  value_eq : after.value option = given
  value_other : ∀ other, other ≠ option → after.value other = o.value other
  finish_eq : after.finish = o.finish

theorem Sets.unique (h : Sets option given o after) (h' : Sets option given o after') :
    after = after' := by
  refine ext_of_value (fun other => ?_) (h.finish_eq.trans h'.finish_eq.symm)
  by_cases hother : other = option
  · rw [hother, h.value_eq, h'.value_eq]
  · rw [h.value_other other hother, h'.value_other other hother]

/-- A value that is given to an option can be set. -/
theorem exists_assign?_of_gives (h : Gives option value given) (o : Options) :
    ∃ after, o.assign? option value = some after ∧ Sets option given o after := by
  cases h with
  | startDelimiter t => exact ⟨_, rfl, rfl, fun other hother => by cases other <;> trivial, rfl⟩
  | endDelimiter t => exact ⟨_, rfl, rfl, fun other hother => by cases other <;> trivial, rfl⟩
  | marker t => exact ⟨_, rfl, rfl, fun other hother => by cases other <;> trivial, rfl⟩
  | furtherMarkers ts =>
    have htexts := Json.Value.texts?_eq_some_iff.mpr (rfl : Json.Value.array (ts.map .string) = _)
    refine ⟨{ o with furtherMarkers := ts }, by rw [assign?, htexts]; rfl, rfl, ?_, rfl⟩
    exact fun other hother => by cases other <;> trivial
  | lineNumbers b => exact ⟨_, rfl, rfl, fun other hother => by cases other <;> trivial, rfl⟩
  | @strategies table strategies h =>
    have htable := Json.Value.textTable?_eq_some_iff.mpr
      (rfl : Json.Value.object (table.map fun e => (e.1, .string e.2)) = _)
    obtain rfl := h.unique (normalizesTo_strategiesOf table)
    refine ⟨{ o with strategies := strategiesOf table }, by rw [assign?, htable]; rfl, rfl, ?_, rfl⟩
    exact fun other hother => by cases other <;> trivial

/-- A value that can be set is given to the option. -/
theorem gives_of_assign? (h : o.assign? option value = some after) :
    Gives option value (after.value option) := by
  cases option with
  | startDelimiter =>
    obtain ⟨t, ht, rfl⟩ := Option.map_eq_some_iff.mp h
    exact Json.Value.text?_eq_some_iff.mp ht ▸ .startDelimiter t
  | endDelimiter =>
    obtain ⟨t, ht, rfl⟩ := Option.map_eq_some_iff.mp h
    exact Json.Value.text?_eq_some_iff.mp ht ▸ .endDelimiter t
  | marker =>
    obtain ⟨t, ht, rfl⟩ := Option.map_eq_some_iff.mp h
    exact Json.Value.text?_eq_some_iff.mp ht ▸ .marker t
  | furtherMarkers =>
    obtain ⟨ts, hts, rfl⟩ := Option.map_eq_some_iff.mp h
    exact Json.Value.texts?_eq_some_iff.mp hts ▸ .furtherMarkers ts
  | lineNumbers =>
    obtain ⟨b, hb, rfl⟩ := Option.map_eq_some_iff.mp h
    exact Json.Value.bool?_eq_some_iff.mp hb ▸ .lineNumbers b
  | strategies =>
    obtain ⟨table, htable, rfl⟩ := Option.map_eq_some_iff.mp h
    have hgives := Gives.strategies (normalizesTo_strategiesOf table)
    exact Json.Value.textTable?_eq_some_iff.mp htable ▸ hgives

/-- The value of a member gives one value to an option. -/
theorem unique_of_gives {given' : OptionValue} (h : Gives option value given)
    (h' : Gives option value given') : given = given' := by
  obtain ⟨after, hafter, hsets⟩ := exists_assign?_of_gives h {}
  obtain ⟨after', hafter', hsets'⟩ := exists_assign?_of_gives h' {}
  obtain rfl : after = after' := Option.some.inj (hafter.symm.trans hafter')
  exact hsets.value_eq.symm.trans hsets'.value_eq

/-- Setting an option gives it the value and leaves the others as they are. -/
theorem assign?_eq_some_iff :
    o.assign? option value = some after ↔
      ∃ given, Gives option value given ∧ Sets option given o after := by
  constructor
  · intro h
    have hgives := gives_of_assign? h
    obtain ⟨after', hafter', hsets⟩ := exists_assign?_of_gives hgives o
    obtain rfl : after = after' := Option.some.inj (h.symm.trans hafter')
    exact ⟨_, hgives, hsets⟩
  · rintro ⟨given, hgives, hsets⟩
    obtain ⟨after', hafter', hsets'⟩ := exists_assign?_of_gives hgives o
    rw [hafter', hsets.unique hsets']

/-- A member sets the option that it names. -/
theorem set_eq_ok_iff_sets {key : Text} :
    o.set source key value = .ok after ↔
      ∃ option given, OptionName.text option = key ∧ Gives option value given ∧
        Sets option given o after := by
  simp only [set_eq_ok_iff, assign?_eq_some_iff, OptionName.ofText?_eq_some_iff,
    exists_and_left]

/-! ### Setting members one after another -/

/-- The options after members have been set one after another, if each of them can be set. -/
def setAll (source : Text) (o : Options) (members : List (Text × Json.Value)) :
    Except OptionsError Options :=
  members.foldlM (fun o m => o.set source m.1 m.2) o

theorem setAll_cons_eq_ok_iff {member : Text × Json.Value} :
    o.setAll source (member :: members) = .ok after ↔
      ∃ first, o.set source member.1 member.2 = .ok first ∧
        first.setAll source members = .ok after := by
  rw [setAll, List.foldlM_cons, bind_eq_ok_iff]
  rfl

/-- Options are other options with the members of an object laid over them: an option that a member
names has the value that the member gives it, and every other option keeps its value. -/
structure Overlays (members : List (Text × Json.Value)) (o after : Options) : Prop where
  given : ∀ m ∈ members, ∃ option, OptionName.text option = m.1 ∧
    Gives option m.2 (after.value option)
  kept : ∀ option, OptionName.text option ∉ Table.keys members →
    after.value option = o.value option
  finish_eq : after.finish = o.finish

/-- Members that are set one after another are laid over the options, if none of them is named
twice. -/
theorem overlays_of_setAll (h : o.setAll source members = .ok after)
    (hnodup : (Table.keys members).Nodup) : Overlays members o after := by
  induction members generalizing o with
  | nil =>
    obtain rfl : o = after := Except.ok.inj h
    exact ⟨List.forall_mem_nil _, fun _ _ => rfl, rfl⟩
  | cons member members ih =>
    obtain ⟨hmember, hnodup⟩ := List.nodup_cons.mp hnodup
    obtain ⟨first, hset, hrest⟩ := setAll_cons_eq_ok_iff.mp h
    obtain ⟨option, given, hoption, hgives, hsets⟩ := set_eq_ok_iff_sets.mp hset
    have hrest := ih hrest hnodup
    refine ⟨List.forall_mem_cons.mpr ⟨⟨option, hoption, ?_⟩, hrest.given⟩,
      fun other hother => ?_, ?_⟩
    · rw [hrest.kept option (hoption ▸ hmember), hsets.value_eq]
      exact hgives
    · obtain ⟨hne, hother⟩ := not_or.mp (List.mem_cons.not.mp hother)
      rw [hrest.kept other hother, hsets.value_other other fun heq => hne (heq ▸ hoption)]
    · rw [hrest.finish_eq, hsets.finish_eq]

/-- What is laid over options is fixed by the members, in whichever order they stand. -/
theorem Overlays.unique (h : Overlays members o after) (h' : Overlays members o after') :
    after = after' := by
  refine ext_of_value (fun option => ?_) (h.finish_eq.trans h'.finish_eq.symm)
  by_cases hnamed : option.text ∈ Table.keys members
  · obtain ⟨m, hm, hkey⟩ := List.mem_map.mp hnamed
    obtain ⟨named, htext, hgives⟩ := h.given m hm
    obtain ⟨named', htext', hgives'⟩ := h'.given m hm
    obtain rfl : named = option := OptionName.text_injective (htext.trans hkey)
    obtain rfl : named' = named := OptionName.text_injective (htext'.trans htext.symm)
    exact unique_of_gives hgives hgives'
  · rw [h.kept option hnamed, h'.kept option hnamed]

/-- The order of members does not matter. -/
theorem Overlays.perm (h : Overlays members o after) (hperm : members.Perm members') :
    Overlays members' o after where
  given m hm := h.given m (hperm.mem_iff.mpr hm)
  kept option hoption := h.kept option fun hmem =>
    hoption ((hperm.map Prod.fst).mem_iff.mp hmem)
  finish_eq := h.finish_eq

/-- Members that name options and give them values can be set. -/
theorem exists_setAll_eq_ok (source : Text) (o : Options)
    (h : ∀ m ∈ members, ∃ option given, OptionName.text option = m.1 ∧ Gives option m.2 given) :
    ∃ after, o.setAll source members = .ok after := by
  induction members generalizing o with
  | nil => exact ⟨o, rfl⟩
  | cons member members ih =>
    obtain ⟨⟨option, given, hoption, hgives⟩, h⟩ := List.forall_mem_cons.mp h
    obtain ⟨first, hassign, hsets⟩ := exists_assign?_of_gives hgives o
    obtain ⟨after, hrest⟩ := ih first h
    have hset : o.set source member.1 member.2 = .ok first :=
      set_eq_ok_iff_sets.mpr ⟨option, given, hoption, hgives, hsets⟩
    exact ⟨after, setAll_cons_eq_ok_iff.mpr ⟨first, hset, hrest⟩⟩

/-- Setting members one after another lays them over the options. -/
theorem setAll_eq_ok_iff (hnodup : (Table.keys members).Nodup) :
    o.setAll source members = .ok after ↔ Overlays members o after := by
  refine ⟨fun h => overlays_of_setAll h hnodup, fun h => ?_⟩
  have hgiven : ∀ m ∈ members, ∃ option given,
      OptionName.text option = m.1 ∧ Gives option m.2 given := by
    intro m hm
    obtain ⟨option, hoption, hgives⟩ := h.given m hm
    exact ⟨option, _, hoption, hgives⟩
  obtain ⟨after', hafter'⟩ := exists_setAll_eq_ok source o hgiven
  rw [hafter', (overlays_of_setAll hafter' hnodup).unique h]

/-! ### Valid options -/

/-- Options are valid if every way of scanning in them is known. -/
theorem validate_eq_none_iff :
    o.validate = none ↔ ∀ e ∈ o.strategies, ∃ s : Strategy, s.name = e.2 := by
  rw [validate, Option.map_eq_none_iff, List.find?_eq_none]
  refine forall₂_congr fun e _ => ?_
  rw [Strategy.isNone_ofName?_iff, Classical.not_forall_not]

/-- The ways of scanning after a document: those that it gives, or else the ones before. -/
def ResultingStrategies (members : List (Text × Json.Value)) (o : Options)
    (strategies : Table Text Text) : Prop :=
  (∃ value, (OptionName.strategies.text, value) ∈ members ∧
    Gives .strategies value (.table strategies)) ∨
  (OptionName.strategies.text ∉ Table.keys members ∧ strategies = o.strategies)

/-- The ways of scanning in the result are those that the members give, or else the ones before. -/
theorem Overlays.resultingStrategies_iff (h : Overlays members o after)
    {strategies : Table Text Text} :
    ResultingStrategies members o strategies ↔ strategies = after.strategies := by
  constructor
  · rintro (⟨value, hmem, hgives⟩ | ⟨hkey, rfl⟩)
    · obtain ⟨option, htext, hgives'⟩ := h.given _ hmem
      obtain rfl : option = .strategies := OptionName.text_injective htext
      exact OptionValue.table.inj (unique_of_gives hgives hgives')
    · exact (OptionValue.table.inj (h.kept .strategies hkey)).symm
  · rintro rfl
    by_cases hkey : OptionName.strategies.text ∈ Table.keys members
    · obtain ⟨⟨key, value⟩, hmem, rfl⟩ := List.mem_map.mp hkey
      obtain ⟨option, htext, hgives⟩ := h.given _ hmem
      obtain rfl : option = .strategies := OptionName.text_injective htext
      exact .inl ⟨value, hmem, hgives⟩
    · exact .inr ⟨hkey, OptionValue.table.inj (h.kept .strategies hkey)⟩

/-! ### Files of options -/

/-- Members are laid over options without an error if all of them can be set and the result is
valid. -/
theorem overlay_eq_none_iff :
    o.overlay source members = (after, none) ↔
      o.setAll source members = .ok after ∧ after.validate = none := by
  induction members generalizing o with
  | nil =>
    rw [overlay_nil_eq_iff, show o.setAll source [] = .ok o from rfl, Except.ok.injEq]
    constructor
    · rintro ⟨rfl, h⟩
      exact ⟨rfl, h⟩
    · rintro ⟨rfl, h⟩
      exact ⟨rfl, h⟩
  | cons member members ih =>
    rw [overlay_cons_eq_iff, setAll_cons_eq_ok_iff, ← exists_and_right]
    exact exists_congr fun first => by rw [ih, and_assoc]

section

variable {content content' : Bytes} {document document' : Text}

/-- A file that holds an object leads to options if these are the object laid over the base, and
valid. -/
theorem load_eq_none_iff (hfile : Text.ofFile content = .ok document)
    (hread : Json.read document = .ok (.object members)) :
    load source content base = (after, none) ↔
      Overlays members base after ∧ after.validate = none := by
  have hset : base.setAll source members = .ok after ↔ Overlays members base after :=
    setAll_eq_ok_iff (Json.nodup_keys_of_read hread)
  rw [← hset, ← overlay_eq_none_iff, load_eq_iff]
  simp [hfile, hread]

/-- **A file of options is laid over options in no particular order.** A file that holds an object
can be used just if every member names an option and has a value of its type, and every way of
scanning that results is known. The result has the value that the file gives to each option it
names, and the value of the base for every other option. Another file with the same members in
another order can be used just if this one can, and leads to the same. -/
theorem load_object (source : Text) (base : Options) (hfile : Text.ofFile content = .ok document)
    (hread : Json.read document = .ok (.object members)) :
    ((load source content base).2 = none ↔
      (∀ m ∈ members, ∃ option given, OptionName.text option = m.1 ∧ Gives option m.2 given) ∧
      ∀ strategies, ResultingStrategies members base strategies →
        ∀ e ∈ strategies, ∃ s : Strategy, s.name = e.2) ∧
    (∀ after, load source content base = (after, none) → Overlays members base after) ∧
    ∀ source' content' document' members', Text.ofFile content' = .ok document' →
      Json.read document' = .ok (.object members') → members'.Perm members →
      ((load source' content' base).2 = none ↔ (load source content base).2 = none) ∧
      ∀ after, load source content base = (after, none) →
        load source' content' base = (after, none) := by
  have hnodup := Json.nodup_keys_of_read hread
  refine ⟨⟨fun h => ?_, fun ⟨hgiven, hknown⟩ => ?_⟩, fun after h => ?_, ?_⟩
  · obtain ⟨hoverlays, hvalid⟩ := (load_eq_none_iff hfile hread).mp (load_eq_of_snd h)
    refine ⟨fun m hm => ?_, fun strategies hstrategies => ?_⟩
    · obtain ⟨option, htext, hgives⟩ := hoverlays.given m hm
      exact ⟨option, _, htext, hgives⟩
    · rw [hoverlays.resultingStrategies_iff.mp hstrategies]
      exact validate_eq_none_iff.mp hvalid
  · obtain ⟨after, hset⟩ := exists_setAll_eq_ok source base hgiven
    have hoverlays := overlays_of_setAll hset hnodup
    have hvalid := validate_eq_none_iff.mpr
      (hknown _ (hoverlays.resultingStrategies_iff.mpr rfl))
    exact congrArg Prod.snd ((load_eq_none_iff hfile hread).mpr ⟨hoverlays, hvalid⟩)
  · exact ((load_eq_none_iff hfile hread).mp h).1
  · intro source' content' document' members' hfile' hread' hperm
    -- What can be used is said of the members alone, in words that do not see their order.
    have hsame : ∀ after, load source' content' base = (after, none) ↔
        load source content base = (after, none) := by
      intro after
      rw [load_eq_none_iff hfile' hread', load_eq_none_iff hfile hread]
      exact and_congr_left fun _ => ⟨fun h => h.perm hperm, fun h => h.perm hperm.symm⟩
    refine ⟨⟨fun h => ?_, fun h => ?_⟩, fun after h => (hsame after).mpr h⟩
    · exact congrArg Prod.snd ((hsame _).mp (load_eq_of_snd h))
    · exact congrArg Prod.snd ((hsame _).mpr (load_eq_of_snd h))

end

/-- The member of a document that names extensions; two of them are normalised to the same. -/
def extensionsMember : Text :=
  "\"extensions\": \x7b\".TPL\": \"style\", \" tpl\": \"html\"\x7d"

/-- A document with two members, in either order. -/
def twoMembers (first second : Text) : Text :=
  Text.ofChar '\x7b' ++ first ++ Text.ofString ", " ++ second ++ Text.ofChar '\x7d'

/-- The value of the member that names extensions. -/
def extensionsValue : Json.Value :=
  .object [(".TPL", .string "style"), (" tpl", .string "html")]

/-- The extension that is written last counts, and a file with the members in the other order leads
to the same options. -/
theorem load_twoMembers :
    let document := twoMembers extensionsMember "\"marker_name\": \"_\""
    let document' := twoMembers "\"marker_name\": \"_\"" extensionsMember
    Text.ofFile (document.flatMap CodePoint.utf8) = .ok document ∧
    Json.read document =
      .ok (.object [("extensions", extensionsValue), ("marker_name", .string "_")]) ∧
    Text.ofFile (document'.flatMap CodePoint.utf8) = .ok document' ∧
    Json.read document' =
      .ok (.object [("marker_name", .string "_"), ("extensions", extensionsValue)]) ∧
    ∃ after, load "options.json" (document.flatMap CodePoint.utf8) {} = (after, none) ∧
      load "options.json" (document'.flatMap CodePoint.utf8) {} = (after, none) ∧
      after.strategies = [(Text.ofString "tpl", Strategy.template.name)] := by
  intro document document'
  have hfile : Text.ofFile (document.flatMap CodePoint.utf8) = .ok document := by decide +kernel
  have hread : Json.read document =
      .ok (.object [("extensions", extensionsValue), ("marker_name", .string "_")]) := by cbv
  have hfile' : Text.ofFile (document'.flatMap CodePoint.utf8) = .ok document' := by decide +kernel
  have hread' : Json.read document' =
      .ok (.object [("marker_name", .string "_"), ("extensions", extensionsValue)]) := by cbv
  have hok : (load "options.json" (document.flatMap CodePoint.utf8) {}).2 = none := by
    decide +kernel
  have hobject := load_object "options.json" {} hfile hread
  obtain ⟨-, hsame⟩ := hobject.2.2 "options.json" _ _ _ hfile' hread' (.swap ..)
  refine ⟨hfile, hread, hfile', hread', _, load_eq_of_snd hok, hsame _ (load_eq_of_snd hok), ?_⟩
  decide +kernel

end Options

end MessageExtraction
