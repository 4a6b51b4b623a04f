import MessageExtraction.Proofs.Catalog.Entries
import MessageExtraction.Template.Scan

/-!
# What attributes say about an element

The attributes of a script element say what it holds, and those of another element may mark it as a
message and say more about the message. Each name of the latter kind has a short form and a long
one, and the long form speaks if the short one is missing or empty. Of several attributes with one
name the first counts.

## Main definitions

* `Template.PlacedElement.HasValue` -- the value of an attribute of an element.
* `Template.PlacedElement.HoldsTemplate`, `HoldsCode`, `IsMarked`, `IsPlain` -- the kinds of elements.
* `Template.PlacedElement.Tells` -- what attributes say about a message.
* `Template.PlacedElement.IsMessage` -- the candidate that a marked element stands for.

## Main results

* `attribute?_eq_some_iff` -- which attribute counts.
* `eitherAttribute?_eq_iff` -- which of the two forms speaks.
* `messageCandidate_eq_iff` -- the candidate of a marked element.
* `role_cases` -- how an element is scanned.
-/

namespace MessageExtraction.Template.PlacedElement

/-- The first attribute of the element with this name has a value. -/
def HasValue (e : PlacedElement) (name value : Text) : Prop :=
  ∃ before after, e.attributes = before ++ ⟨name, value⟩ :: after ∧ ∀ a ∈ before, a.name ≠ name

/-- The element is a script of a type that holds templates. -/
def HoldsTemplate (e : PlacedElement) : Prop :=
  e.name = "script" ∧ ∃ type, e.HasValue "type" type ∧ type ∈ templateTypes

/-- The element is a script of a type that holds code, or one without a type. -/
def HoldsCode (e : PlacedElement) : Prop :=
  e.name = "script" ∧ ∀ type, e.HasValue "type" type → type = [] ∨ type ∈ codeTypes

/-- The element is marked as a message, by its name or by an attribute, which may be empty. -/
def IsMarked (e : PlacedElement) : Prop :=
  e.name = "translate" ∨ ∃ value, e.HasValue "translate" value ∨ e.HasValue "data-translate" value

/-- The element is neither a script that is scanned on its own nor marked as a message. -/
structure IsPlain (e : PlacedElement) : Prop where
  not_template : ¬ e.HoldsTemplate
  not_code : ¬ e.HoldsCode
  not_marked : ¬ e.IsMarked

/-- What the element says under a name, with ampersands as they were written: the value of the
attribute in its short form, or if that is missing or empty, its value in the long form. -/
inductive Tells (e : PlacedElement) (name : Text) : Option Text → Prop
  | short {value : Text} (h : e.HasValue name value) (hne : value ≠ []) :
      Tells e name (some (restoreEntities value))
  | long {value : Text} (hshort : ∀ u, e.HasValue name u → u = [])
      (h : e.HasValue ("data-" ++ name) value) : Tells e name (some (restoreEntities value))
  | nothing (hshort : ∀ u, e.HasValue name u → u = []) (hlong : ∀ u, ¬ e.HasValue ("data-" ++ name) u) :
      Tells e name none

/-- The element, marked as a message, stands for a candidate: its content is the text, and its
attributes give the plural form, the comment and the context. -/
structure IsMessage (e : PlacedElement) (file : Text) (offset : Int) (c : Candidate) : Prop where
  reference : c.reference = ⟨file, some (e.line + offset)⟩
  text : c.text = restoreEntities (Markup.innerMarkup e.children)
  plural : e.Tells "translate-plural" c.plural
  comment : e.Tells "translate-comment" c.comment
  context : e.Tells "translate-context" c.context

variable {e : PlacedElement} {name : Text}

/-! ## Attributes -/

/-- The value that is looked up is that of the first attribute with the name. -/
theorem attribute?_eq_some_iff {value : Text} :
    e.attribute? name = some value ↔ e.HasValue name value := by
  rw [attribute?, Markup.attributeValue?, Option.map_eq_some_iff]
  constructor
  · rintro ⟨⟨_, _⟩, hfind, rfl⟩
    obtain ⟨hname, before, after, hattributes, hbefore⟩ := List.find?_eq_some_iff_append.mp hfind
    obtain rfl := of_decide_eq_true hname
    exact ⟨before, after, hattributes, fun a ha => by simpa using hbefore a ha⟩
  · rintro ⟨before, after, hattributes, hbefore⟩
    refine ⟨⟨name, value⟩, List.find?_eq_some_iff_append.mpr ⟨decide_eq_true rfl, before, after,
      hattributes, fun a ha => ?_⟩, rfl⟩
    simpa using hbefore a ha

theorem attribute?_eq_none_iff : e.attribute? name = none ↔ ∀ value, ¬ e.HasValue name value := by
  simp only [← attribute?_eq_some_iff, Option.eq_none_iff_forall_ne_some, ne_eq]

theorem isSome_attribute?_iff :
    (e.attribute? name).isSome = true ↔ ∃ value, e.HasValue name value := by
  simp only [Option.isSome_iff_exists, attribute?_eq_some_iff]

theorem nonEmpty?_attribute?_eq_none_iff :
    nonEmpty? (e.attribute? name) = none ↔ ∀ value, e.HasValue name value → value = [] := by
  simp only [← attribute?_eq_some_iff, Option.eq_none_iff_forall_ne_some, ne_eq,
    nonEmpty?_eq_some, not_and, Decidable.not_not]

theorem tells_eitherAttribute? (e : PlacedElement) (name : Text) :
    e.Tells name (e.eitherAttribute? name) := by
  rw [eitherAttribute?]
  cases hshort : nonEmpty? (e.attribute? name) with
  | some value =>
    obtain ⟨h, hne⟩ := nonEmpty?_eq_some.mp hshort
    exact .short (attribute?_eq_some_iff.mp h) hne
  | none =>
    rw [nonEmpty?_attribute?_eq_none_iff] at hshort
    cases hlong : e.attribute? (longForm ++ name) with
    | some value => exact .long hshort (attribute?_eq_some_iff.mp hlong)
    | none => exact .nothing hshort (attribute?_eq_none_iff.mp hlong)

theorem HasValue.unique {u v : Text} (hu : e.HasValue name u) (hv : e.HasValue name v) : u = v :=
  Option.some.inj ((attribute?_eq_some_iff.mpr hu).symm.trans (attribute?_eq_some_iff.mpr hv))

/-- What is read under a name is what the element says, and nothing else. -/
theorem eitherAttribute?_eq_iff {value : Option Text} :
    e.eitherAttribute? name = value ↔ e.Tells name value := by
  constructor
  · rintro rfl
    exact tells_eitherAttribute? e name
  · rintro (⟨h, hne⟩ | ⟨hshort, h⟩ | ⟨hshort, hlong⟩)
    · rw [eitherAttribute?, nonEmpty?_eq_some.mpr ⟨attribute?_eq_some_iff.mpr h, hne⟩]
      rfl
    · rw [eitherAttribute?, nonEmpty?_attribute?_eq_none_iff.mpr hshort, Option.none_or]
      exact congrArg (Option.map restoreEntities) (attribute?_eq_some_iff.mpr h)
    · rw [eitherAttribute?, nonEmpty?_attribute?_eq_none_iff.mpr hshort, Option.none_or]
      exact congrArg (Option.map restoreEntities) (attribute?_eq_none_iff.mpr hlong)

/-- The candidate that is made of a marked element is the one that it stands for. -/
theorem messageCandidate_eq_iff {file : Text} {offset : Int} {c : Candidate} :
    e.messageCandidate file offset = c ↔ e.IsMessage file offset c := by
  constructor
  · rintro rfl
    exact ⟨rfl, rfl, tells_eitherAttribute? e _, tells_eitherAttribute? e _,
      tells_eitherAttribute? e _⟩
  · rintro ⟨hreference, htext, hplural, hcomment, hcontext⟩
    obtain ⟨reference, text, plural, comment, context⟩ := c
    simp only at hreference htext hplural hcomment hcontext
    rw [← eitherAttribute?_eq_iff] at hplural hcomment hcontext
    rw [hreference, htext, ← hplural, ← hcomment, ← hcontext]
    rfl

/-! ## Kinds of elements -/

theorem isMarked_iff : e.isMarked = true ↔ e.IsMarked := by
  rw [isMarked, Bool.or_eq_true, Bool.or_eq_true, decide_eq_true_eq, isSome_attribute?_iff,
    isSome_attribute?_iff, or_assoc, ← exists_or]
  rfl

theorem not_holdsTemplate_of_holdsCode (h : e.HoldsCode) : ¬ e.HoldsTemplate := by
  rintro ⟨-, type, htype, hmem⟩
  have hdisjoint : ∀ type ∈ templateTypes, type ≠ [] ∧ type ∉ codeTypes := by decide +kernel
  rcases h.2 type htype with hnil | hcode
  · exact (hdisjoint type hmem).1 hnil
  · exact (hdisjoint type hmem).2 hcode

/-- How an element is scanned depends on what kind of script it is, and then on whether it is
marked. -/
theorem role_cases (e : PlacedElement) :
    (e.role = .template ∧ e.HoldsTemplate) ∨ (e.role = .code ∧ e.HoldsCode) ∨
      (e.role = if e.isMarked then .message else .plain) ∧ ¬ e.HoldsTemplate ∧ ¬ e.HoldsCode := by
  by_cases hname : e.name.is "script" = true
  · have hscript : e.name = "script" := eq_of_beq hname
    simp only [role, hname, if_true]
    cases htype : nonEmpty? (e.attribute? "type") with
    | none =>
      exact .inr (.inl ⟨rfl, hscript, fun type h =>
        .inl (nonEmpty?_attribute?_eq_none_iff.mp htype type h)⟩)
    | some type =>
      obtain ⟨hattribute, hne⟩ := nonEmpty?_eq_some.mp htype
      rw [attribute?_eq_some_iff] at hattribute
      dsimp only
      split
      · next hmem =>
        exact .inl ⟨rfl, hscript, type, hattribute, List.contains_iff_mem.mp hmem⟩
      · next htemplate =>
        split
        · next hmem =>
          exact .inr (.inl ⟨rfl, hscript, fun _ h =>
            .inr (h.unique hattribute ▸ List.contains_iff_mem.mp hmem)⟩)
        · next hcode =>
          refine .inr (.inr ⟨rfl, ?_, ?_⟩)
          · rintro ⟨-, type', h, hmem⟩
            exact htemplate (List.contains_iff_mem.mpr (h.unique hattribute ▸ hmem))
          · rintro ⟨-, h⟩
            rcases h type hattribute with hnil | hmem
            · exact hne hnil
            · exact hcode (List.contains_iff_mem.mpr hmem)
  · have hscript : e.name ≠ "script" := fun h => hname (beq_iff_eq.mpr h)
    refine .inr (.inr ⟨?_, fun h => hscript h.1, fun h => hscript h.1⟩)
    rw [role, if_neg hname]

end MessageExtraction.Template.PlacedElement
