import MessageExtraction.Proofs.Options.Overlay

/-!
# Files of options that cannot be used

The members of a file of options are set one after another in the options that the file is laid
over, and the ways of scanning are validated when all of them are set. So a file that cannot be used
may have set something: the members before the one that cannot be set, or all members, if a way of
scanning in the result is unknown. A file has set nothing if it is not text, not JSON or not an
object.

## Main definitions

* `Options.StopsWithin` -- where laying members over options stops, and which options are left.
* `Options.Stops` -- where reading a file of options stops, and which options are left.

## Main results

* `Options.overlay_eq_some_iff` -- laying members over options stops with those before set.
* `Options.overlay_eq_some_iff_stopsWithin` -- the members before are laid over the options.
* `Options.load_eq_some_iff` -- which options a file that cannot be used leaves.
-/

namespace MessageExtraction

namespace Options

variable {source : Text} {o base after : Options} {members : List (Text × Json.Value)}
  {error : OptionsError}

/-! ### Members that cannot be set -/

/-- An option cannot be set just if the value is not of its type. -/
theorem assign?_eq_none_iff {option : OptionName} {value : Json.Value} :
    o.assign? option value = none ↔ ∀ given, ¬ Gives option value given := by
  rw [Option.eq_none_iff_forall_ne_some]
  constructor
  · intro h given hgives
    obtain ⟨after, hafter, -⟩ := exists_assign?_of_gives hgives o
    exact h after hafter
  · intro h after hafter
    exact h _ (gives_of_assign? hafter)

/-- A member cannot be set if it names no option, or if its value is not of the type of the
option. -/
theorem set_eq_error_iff {key : Text} {value : Json.Value} :
    o.set source key value = .error error ↔
      (∀ option, OptionName.text option ≠ key) ∧ error = .unknownOption key source ∨
      ∃ option, OptionName.text option = key ∧ (∀ given, ¬ Gives option value given) ∧
        error = .wrongType option := by
  simp only [← OptionName.ofText?_eq_none_iff, ← OptionName.ofText?_eq_some_iff,
    ← assign?_eq_none_iff (o := o), set]
  cases OptionName.ofText? key with
  | none => simp [eq_comm]
  | some option =>
    simp only [reduceCtorEq, false_and, false_or, Option.some.injEq, exists_eq_left']
    cases o.assign? option value <;> simp [eq_comm]

/-- Options are not valid because of the first way of scanning in them that is unknown. -/
theorem validate_eq_some_iff :
    o.validate = some error ↔
      ∃ before extension name later, o.strategies = before ++ (extension, name) :: later ∧
        (∀ e ∈ before, ∃ s : Strategy, s.name = e.2) ∧ (∀ s : Strategy, s.name ≠ name) ∧
        error = .unknownStrategy name extension := by
  have hfind : ∀ e, (o.strategies.find? fun e => (Strategy.ofName? e.2).isNone) = some e ↔
      (∀ s : Strategy, s.name ≠ e.2) ∧ ∃ before later, o.strategies = before ++ e :: later ∧
        ∀ e ∈ before, ∃ s : Strategy, s.name = e.2 := by
    intro e
    simp only [List.find?_eq_some_iff_append, Bool.not_eq_true', ← Bool.not_eq_true,
      Strategy.isNone_ofName?_iff, ne_eq, not_forall, not_not]
  rw [validate, Option.map_eq_some_iff]
  constructor
  · rintro ⟨⟨extension, name⟩, hfirst, rfl⟩
    obtain ⟨hunknown, before, later, hsplit, hknown⟩ := (hfind _).mp hfirst
    exact ⟨before, extension, name, later, hsplit, hknown, hunknown, rfl⟩
  · rintro ⟨before, extension, name, later, hsplit, hknown, hunknown, rfl⟩
    exact ⟨_, (hfind _).mpr ⟨hunknown, before, later, hsplit, hknown⟩, rfl⟩

/-! ### Stopping within an object -/

/-- After members that can be set, the ones that follow are laid over what they lead to. -/
theorem overlay_append {later : List (Text × Json.Value)}
    (h : o.setAll source members = .ok after) :
    o.overlay source (members ++ later) = after.overlay source later := by
  induction members generalizing o with
  | nil =>
    obtain rfl : o = after := Except.ok.inj h
    rfl
  | cons member members ih =>
    obtain ⟨first, hset, hrest⟩ := setAll_cons_eq_ok_iff.mp h
    rw [List.cons_append, overlay, hset]
    exact ih hrest

/-- Laying members over options stops at the first member that cannot be set, or after all of them
if the result is not valid. The members before have been set. -/
theorem overlay_eq_some_iff :
    o.overlay source members = (after, some error) ↔
      (o.setAll source members = .ok after ∧ after.validate = some error) ∨
      ∃ before member later, members = before ++ member :: later ∧
        o.setAll source before = .ok after ∧ after.set source member.1 member.2 = .error error := by
  constructor
  -- The members before the one that stops are those that the induction passes.
  · induction members generalizing o with
    | nil =>
      intro h
      obtain ⟨rfl, hvalid⟩ := Prod.mk.inj h
      exact .inl ⟨rfl, hvalid⟩
    | cons member members ih =>
      intro h
      rw [overlay] at h
      cases hset : o.set source member.1 member.2 with
      | error e =>
        rw [hset] at h
        obtain ⟨rfl, herror⟩ := Prod.mk.inj h
        obtain rfl := Option.some.inj herror
        exact .inr ⟨[], member, members, rfl, rfl, hset⟩
      | ok first =>
        rw [hset] at h
        rcases ih h with ⟨hall, hvalid⟩ | ⟨before, stopped, later, rfl, hbefore, herror⟩
        · exact .inl ⟨setAll_cons_eq_ok_iff.mpr ⟨first, hset, hall⟩, hvalid⟩
        · exact .inr ⟨member :: before, stopped, later, rfl,
            setAll_cons_eq_ok_iff.mpr ⟨first, hset, hbefore⟩, herror⟩
  · rintro (⟨hall, hvalid⟩ | ⟨before, member, later, rfl, hbefore, herror⟩)
    · rw [← List.append_nil members, overlay_append hall, overlay, hvalid]
    · rw [overlay_append hbefore, overlay, herror]

/-- Where laying members over options stops, and which options are left: those before the first
member that cannot be set have been laid over the options, or all of them if a way of scanning in
the result is unknown. -/
inductive StopsWithin (source : Text) (members : List (Text × Json.Value)) (o : Options) :
    Options → OptionsError → Prop
  | unknownOption {before key value later after}
      (hsplit : members = before ++ (key, value) :: later)
      (hbefore : Overlays before o after) (hunknown : ∀ option, OptionName.text option ≠ key) :
    StopsWithin source members o after (.unknownOption key source)
  | wrongType {before option value later after}
      (hsplit : members = before ++ (OptionName.text option, value) :: later)
      (hbefore : Overlays before o after) (hwrong : ∀ given, ¬ Gives option value given) :
    StopsWithin source members o after (.wrongType option)
  | unknownStrategy {before extension name later after} (hall : Overlays members o after)
      (hstrategies : after.strategies = before ++ (extension, name) :: later)
      (hbefore : ∀ e ∈ before, ∃ s : Strategy, s.name = e.2)
      (hunknown : ∀ s : Strategy, s.name ≠ name) :
    StopsWithin source members o after (.unknownStrategy name extension)

/-- Laying members over options stops where it should. -/
theorem overlay_eq_some_iff_stopsWithin (hnodup : (Table.keys members).Nodup) :
    o.overlay source members = (after, some error) ↔ StopsWithin source members o after error := by
  -- The relation `Overlays` ignores the order, so no name may be repeated among the members before.
  have hkeys : ∀ before rest, members = before ++ rest → (Table.keys before).Nodup := by
    rintro before rest rfl
    rw [Table.keys, List.map_append] at hnodup
    exact (List.nodup_append.mp hnodup).1
  rw [overlay_eq_some_iff]
  constructor
  · rintro (⟨hset, hvalid⟩ | ⟨before, ⟨key, value⟩, later, hsplit, hset, herror⟩)
    · obtain ⟨before, extension, name, later, hstrategies, hbefore, hunknown, rfl⟩ :=
        validate_eq_some_iff.mp hvalid
      exact .unknownStrategy (overlays_of_setAll hset hnodup) hstrategies hbefore hunknown
    · have hbefore := overlays_of_setAll hset (hkeys _ _ hsplit)
      rcases set_eq_error_iff.mp herror with ⟨hunknown, rfl⟩ | ⟨option, rfl, hwrong, rfl⟩
      · exact .unknownOption hsplit hbefore hunknown
      · exact .wrongType hsplit hbefore hwrong
  · rintro (⟨hsplit, hbefore, hunknown⟩ | ⟨hsplit, hbefore, hwrong⟩ |
      ⟨hall, hstrategies, hbefore, hunknown⟩)
    · exact .inr ⟨_, _, _, hsplit, (setAll_eq_ok_iff (hkeys _ _ hsplit)).mpr hbefore,
        set_eq_error_iff.mpr (.inl ⟨hunknown, rfl⟩)⟩
    · exact .inr ⟨_, _, _, hsplit, (setAll_eq_ok_iff (hkeys _ _ hsplit)).mpr hbefore,
        set_eq_error_iff.mpr (.inr ⟨_, rfl, hwrong, rfl⟩)⟩
    · exact .inl ⟨(setAll_eq_ok_iff hnodup).mpr hall,
        validate_eq_some_iff.mpr ⟨_, _, _, _, hstrategies, hbefore, hunknown, rfl⟩⟩

/-! ### Stopping in a file -/

/-- Only an object can be laid over options. -/
theorem overlayValue_of_not_object {value : Json.Value}
    (hvalue : ∀ members, value ≠ .object members) :
    o.overlayValue source value = (o, some (.notObject source)) := by
  cases value with
  | object members => exact absurd rfl (hvalue members)
  | _ => rfl

/-- Where reading a file of options stops, and which options are left: a file that is not text, not
JSON or not an object leaves the options that it was to be laid over. -/
inductive Stops (source : Text) (content : Bytes) (base : Options) : Options → LoadError → Prop
  | undecodable {fault} (hfile : Text.ofFile content = .error fault) :
    Stops source content base base (.undecodable fault)
  | unreadable {document fault} (hfile : Text.ofFile content = .ok document)
      (hread : Json.read document = .error fault) :
    Stops source content base base (.unreadable fault)
  | notObject {document value} (hfile : Text.ofFile content = .ok document)
      (hread : Json.read document = .ok value) (hvalue : ∀ members, value ≠ .object members) :
    Stops source content base base (.options (.notObject source))
  | within {document members after error} (hfile : Text.ofFile content = .ok document)
      (hread : Json.read document = .ok (.object members))
      (hstops : StopsWithin source members base after error) :
    Stops source content base after (.options error)

/-- A file that holds a value stops where laying the value over the base does. -/
theorem load_eq_some_iff_of_read {content : Bytes} {document : Text} {value : Json.Value}
    {e : LoadError} (hfile : Text.ofFile content = .ok document)
    (hread : Json.read document = .ok value) :
    load source content base = (after, some e) ↔
      ∃ error, e = .options error ∧ base.overlayValue source value = (after, some error) := by
  simp only [load, hfile, hread]
  constructor
  · intro h
    obtain ⟨hafter, herror⟩ := Prod.mk.inj h
    obtain ⟨error, hstopped, rfl⟩ := Option.map_eq_some_iff.mp herror
    exact ⟨error, rfl, Prod.ext hafter hstopped⟩
  · rintro ⟨error, rfl, hoverlay⟩
    rw [hoverlay, Option.map_some]

/-- **A file of options that cannot be used leaves what it has set.** A file that is not text, not
JSON or not an object leaves every option as it was. Otherwise the members before the first one that
names no option or has a value of the wrong type are laid over the options, or all members if a way
of scanning in the result is unknown. -/
theorem load_eq_some_iff (source : Text) (content : Bytes) (base after : Options) (e : LoadError) :
    load source content base = (after, some e) ↔ Stops source content base after e := by
  constructor
  · intro h
    cases hfile : Text.ofFile content with
    | error fault =>
      rw [load, hfile] at h
      cases h
      exact .undecodable hfile
    | ok document =>
      cases hread : Json.read document with
      | error fault =>
        simp only [load, hfile, hread] at h
        cases h
        exact .unreadable hfile hread
      | ok value =>
        obtain ⟨error, rfl, hoverlay⟩ := (load_eq_some_iff_of_read hfile hread).mp h
        by_cases hvalue : ∃ members, value = .object members
        · obtain ⟨members, rfl⟩ := hvalue
          exact .within hfile hread
            ((overlay_eq_some_iff_stopsWithin (Json.nodup_keys_of_read hread)).mp hoverlay)
        · have hvalue := not_exists.mp hvalue
          rw [overlayValue_of_not_object hvalue] at hoverlay
          cases hoverlay
          exact .notObject hfile hread hvalue
  · rintro (⟨hfile⟩ | ⟨hfile, hread⟩ | ⟨hfile, hread, hvalue⟩ | ⟨hfile, hread, hstops⟩)
    · rw [load, hfile]
    · simp only [load, hfile, hread]
    · exact (load_eq_some_iff_of_read hfile hread).mpr
        ⟨_, rfl, overlayValue_of_not_object hvalue⟩
    · exact (load_eq_some_iff_of_read hfile hread).mpr
        ⟨_, rfl, (overlay_eq_some_iff_stopsWithin (Json.nodup_keys_of_read hread)).mpr hstops⟩

/-- A document whose second member cannot be set. -/
def stoppingDocument : Text :=
  "\x7b\"marker_name\": \"_\", \"start_delim\": 1\x7d"

/-- A file that cannot be used may change the options that it is laid over: the marker has been set
when the next member turns out to be of the wrong type. -/
theorem marker_load_stoppingDocument :
    let loaded := load "options.json" (stoppingDocument.flatMap CodePoint.utf8) {}
    loaded.2 = some (.options (.wrongType .startDelimiter)) ∧
    loaded.1.value .marker = .text "_" ∧
    loaded.1.value .marker ≠ Options.value {} .marker := by
  decide +kernel

end Options

end MessageExtraction
