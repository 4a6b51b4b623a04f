import MessageExtraction.Options.Load
import MessageExtraction.Proofs.Failing

/-!
# What a file of options sets

A file of options is read member by member, and an option keeps its value unless a member sets it.
No file says what is done to the file of messages. The member `extensions` says which way of scanning
each extension has: extensions are normalised, and of several that become the same the last one
counts.

## Main definitions

* `Options.strategiesOf` -- the ways of scanning that a member gives.
* `Options.Maps` -- a file of options gives an extension its way of scanning.

## Main results

* `Json.nodup_keys_of_read` -- no name is repeated in an object that has been read.
* `Options.load_eq_iff` -- when a file of options can be used, and what it leads to.
* `Options.strategies_overlay` -- the ways of scanning are those of the member `extensions`.
* `Options.Maps.get?_strategies` -- an extension has the way of scanning that the file gives it.
-/

namespace MessageExtraction

namespace Json

/-- No word is an object. -/
theorem word?_ne_object {t rest : Text} {members : List (Text × Value)} :
    word? t ≠ some (.object members, rest) := by
  intro h
  obtain ⟨w, hw, h⟩ := List.exists_of_findSome?_eq_some h
  obtain ⟨_, -, h⟩ := Option.map_eq_some_iff.mp h
  have hobject : w.2 = .object members := congrArg Prod.fst h
  simp only [words, List.mem_cons, List.not_mem_nil, or_false] at hw
  rcases hw with rfl | rfl | rfl | rfl | rfl | rfl <;> cases hobject

/-- No number is an object. -/
theorem number_ne_object {t rest : Text} {members : List (Text × Value)} :
    number t ≠ .ok (.object members, rest) := by
  intro h
  simp only [number] at h
  split at h
  · cases h
  · split at h <;> cases h

/-- No name is repeated in an object at the beginning of a text. -/
theorem nodup_keys_of_value {fuel : Nat} {t rest : Text} {members : List (Text × Value)}
    (h : value fuel t = .ok (.object members, rest)) : (Table.keys members).Nodup := by
  unfold value at h
  split at h
  · cases h
  · cases h
  · split at h
    · obtain ⟨_, -, h⟩ := bind_eq_ok_iff.mp h
      cases h
    · split at h
      · dsimp only at h
        split at h
        · cases h
        · obtain ⟨_, -, h⟩ := bind_eq_ok_iff.mp h
          cases h
      · split at h
        · dsimp only at h
          split at h
          · cases h
            exact List.nodup_nil
          · obtain ⟨_, -, h⟩ := bind_eq_ok_iff.mp h
            cases h
            exact Table.nodup_keys_ofList _
        · split at h
          · next hword =>
            cases h
            exact absurd hword word?_ne_object
          · exact absurd h number_ne_object

/-- No name is repeated in an object that has been read. -/
theorem nodup_keys_of_read {document : Text} {members : List (Text × Value)}
    (h : read document = .ok (.object members)) : (Table.keys members).Nodup := by
  obtain ⟨⟨v, rest⟩, hvalue, h⟩ := bind_eq_ok_iff.mp h
  dsimp only at h
  split at h
  · cases h
    exact nodup_keys_of_value hvalue
  · cases h

end Json

namespace Options

variable {source : Text} {o base after : Options} {members : List (Text × Json.Value)}

/-! ## Single members -/

/-- The ways of scanning that the texts of the member `extensions` give. -/
def strategiesOf (table : Table Text Text) : Table Text Text :=
  Table.ofList (table.map fun e => (normalizeExtension e.1, e.2))

theorem strategies_assign? {option : OptionName} {value : Json.Value}
    (h : o.assign? option value = some after) :
    if option = .strategies then
      ∃ table, value.textTable? = some table ∧ after.strategies = strategiesOf table
    else after.strategies = o.strategies := by
  split
  · next hoption =>
    subst hoption
    obtain ⟨table, htable, rfl⟩ := Option.map_eq_some_iff.mp h
    exact ⟨table, htable, rfl⟩
  · next hoption =>
    cases option with
    | strategies => exact absurd rfl hoption
    | _ =>
      obtain ⟨_, -, rfl⟩ := Option.map_eq_some_iff.mp h
      rfl

theorem set_eq_ok_iff {key : Text} {value : Json.Value} :
    o.set source key value = .ok after ↔
      ∃ option, OptionName.ofText? key = some option ∧ o.assign? option value = some after := by
  rw [set]
  cases OptionName.ofText? key with
  | none => exact iff_of_false nofun fun ⟨_, h, _⟩ => nomatch h
  | some option =>
    simp only [Option.some.injEq, exists_eq_left']
    cases o.assign? option value with
    | none => exact iff_of_false nofun nofun
    | some assigned => simp

theorem OptionName.ofText?_eq_strategies {key : Text} {option : OptionName}
    (h : OptionName.ofText? key = some option) :
    option = .strategies ↔ key = OptionName.strategies.text := by
  have htext : option.text = key := by simpa using List.find?_some h
  rw [← htext]
  cases option <;> decide

/-- Only the member `extensions` sets the ways of scanning. -/
theorem strategies_set {key : Text} {value : Json.Value}
    (h : o.set source key value = .ok after) :
    if key = OptionName.strategies.text then
      ∃ table, value.textTable? = some table ∧ after.strategies = strategiesOf table
    else after.strategies = o.strategies := by
  obtain ⟨option, hoption, hassign⟩ := set_eq_ok_iff.mp h
  have hstrategies := strategies_assign? hassign
  simpa only [OptionName.ofText?_eq_strategies hoption] using hstrategies

/-! ## All members -/

theorem overlay_nil_eq_iff :
    o.overlay source [] = (after, none) ↔ o = after ∧ o.validate = none :=
  Prod.mk.injEq .. ▸ Iff.rfl

/-- Members can be laid over options when each of them can be set and the result is valid. -/
theorem overlay_cons_eq_iff {member : Text × Json.Value} :
    o.overlay source (member :: members) = (after, none) ↔
      ∃ first, o.set source member.1 member.2 = .ok first ∧
        first.overlay source members = (after, none) := by
  rw [overlay]
  cases o.set source member.1 member.2 with
  | error e => exact iff_of_false nofun fun ⟨_, h, _⟩ => nomatch h
  | ok first => simp

/-- Without the member `extensions` the ways of scanning stay as they are. -/
theorem strategies_overlay_of_not_mem (h : o.overlay source members = (after, none))
    (hkey : OptionName.strategies.text ∉ Table.keys members) :
    after.strategies = o.strategies := by
  induction members generalizing o with
  | nil => rw [(overlay_nil_eq_iff.mp h).1]
  | cons member members ih =>
    obtain ⟨hne, hkey⟩ := not_or.mp (List.mem_cons.not.mp hkey)
    obtain ⟨first, hset, hrest⟩ := overlay_cons_eq_iff.mp h
    have hfirst := strategies_set hset
    rw [if_neg (Ne.symm hne)] at hfirst
    rw [ih hrest hkey, hfirst]

/-- The ways of scanning are those of the member `extensions`. -/
theorem strategies_overlay (h : o.overlay source members = (after, none))
    (hnodup : (Table.keys members).Nodup) {value : Json.Value}
    (hmem : (OptionName.strategies.text, value) ∈ members) :
    ∃ table, value.textTable? = some table ∧ after.strategies = strategiesOf table := by
  induction members generalizing o with
  | nil => cases hmem
  | cons member members ih =>
    obtain ⟨hkey, hnodup⟩ := List.nodup_cons.mp hnodup
    obtain ⟨first, hset, hrest⟩ := overlay_cons_eq_iff.mp h
    rcases List.mem_cons.mp hmem with rfl | hmem
    · have hfirst := strategies_set hset
      rw [if_pos rfl] at hfirst
      have hlater := strategies_overlay_of_not_mem hrest hkey
      rwa [hlater]
    · exact ih hrest hnodup hmem

/-! ## Files -/

/-- A file of options can be used when it is text, the text is a JSON object, and the members of the
object can be laid over the options. -/
theorem load_eq_iff {content : Bytes} :
    load source content base = (after, none) ↔
      ∃ document members, Text.ofFile content = .ok document ∧
        Json.read document = .ok (.object members) ∧
        base.overlay source members = (after, none) := by
  rw [load]
  cases Text.ofFile content with
  | error fault => exact iff_of_false nofun fun ⟨_, _, h, _⟩ => nomatch h
  | ok document =>
    simp only [Except.ok.injEq, exists_and_left, exists_eq_left']
    cases Json.read document with
    | error fault => exact iff_of_false nofun fun ⟨_, h, _⟩ => nomatch h
    | ok value =>
      cases value with
      | object members => simp [overlayValue, Prod.ext_iff]
      | _ => simp [overlayValue]

theorem load_eq_of_snd {content : Bytes} (h : (load source content base).2 = none) :
    load source content base = ((load source content base).1, none) :=
  h ▸ rfl

/-- A file of options gives an extension, as it is written there, its way of scanning, and no later
extension that is normalised to the same gives another one. -/
def Maps (content : Bytes) (key : Text) (s : Strategy) : Prop :=
  ∃ document members value before later, Text.ofFile content = .ok document ∧
    Json.read document = .ok (.object members) ∧
    (OptionName.strategies.text, value) ∈ members ∧
    value.textTable? = some (before ++ (key, s.name) :: later) ∧
    ∀ e ∈ later, normalizeExtension e.1 = normalizeExtension key → e.2 = s.name

/-- The ways of scanning of options that a file gives some are those of its member. -/
theorem Maps.strategies_eq {content : Bytes} {key : Text} {s : Strategy} (hmaps : Maps content key s)
    (hload : load source content base = (after, none)) :
    ∃ before later, after.strategies = strategiesOf (before ++ (key, s.name) :: later) ∧
      ∀ e ∈ later, normalizeExtension e.1 = normalizeExtension key → e.2 = s.name := by
  obtain ⟨document, members, value, before, later, hdocument, hread, hmem, htable, hlater⟩ := hmaps
  obtain ⟨document', members', hdocument', hread', hoverlay⟩ := load_eq_iff.mp hload
  obtain rfl : document = document' := Except.ok.inj (hdocument.symm.trans hdocument')
  obtain rfl : members = members' := by simpa using hread.symm.trans hread'
  obtain ⟨table, htable', hstrategies⟩ :=
    strategies_overlay hoverlay (Json.nodup_keys_of_read hread) hmem
  obtain rfl : _ = table := Option.some.inj (htable.symm.trans htable')
  exact ⟨before, later, hstrategies, hlater⟩

/-- An extension has the way of scanning that a file gives it, in its normalised form. -/
theorem Maps.get?_strategies {content : Bytes} {key : Text} {s : Strategy}
    (hmaps : Maps content key s) (hload : load source content base = (after, none)) :
    after.strategies.get? (normalizeExtension key) = some s.name := by
  obtain ⟨before, later, hstrategies, hlater⟩ := hmaps.strategies_eq hload
  rw [hstrategies, strategiesOf, List.map_append, List.map_cons]
  refine Table.get?_ofList_append_cons _ fun e he hkey => ?_
  obtain ⟨e, he', rfl⟩ := List.mem_map.mp he
  exact hlater e he' hkey

/-- Options that a file gives ways of scanning have them for normalised extensions only. -/
theorem Maps.exists_of_mem_keys {content : Bytes} {key extension : Text} {s : Strategy}
    (hmaps : Maps content key s) (hload : load source content base = (after, none))
    (hmem : extension ∈ after.strategies.keys) : ∃ raw, extension = normalizeExtension raw := by
  obtain ⟨before, later, hstrategies, -⟩ := hmaps.strategies_eq hload
  obtain ⟨e, he, rfl⟩ := List.mem_map.mp hmem
  rw [hstrategies] at he
  rcases Table.mem_setAll he with h | h
  · cases h
  · obtain ⟨raw, -, rfl⟩ := List.mem_map.mp h
    exact ⟨raw.1, rfl⟩

end Options

end MessageExtraction
