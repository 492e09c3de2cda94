import StorageSlots.Json.Decoding
import Mathlib.Data.List.Count
import Mathlib.Data.List.Nodup
import Mathlib.Data.Option.Basic

/-!
The fields that a structure is given.

Reading the fields of an object or an array succeeds exactly if the known names are not repeated,
resp. the array is not too long; a field is then found under its name. `Spells` says how a structure
may be written: as an object whose members stand in any order among unknown ones, or as the array of
its fields, and without fields that hold their default.
-/

namespace StorageSlots.Json

section Lookup

variable {fields : List (String × Json)} {name : String} {value : Json}

theorem lookup_eq_none_iff_not_mem :
    fields.lookup name = none ↔ name ∉ fields.map Prod.fst := by
  rw [List.lookup_eq_none_iff, List.mem_map]
  constructor
  · rintro h ⟨m, hm, rfl⟩
    simpa using h m hm
  · intro h m hm
    rw [bne_iff_ne]
    rintro rfl
    exact h ⟨m, hm, rfl⟩

theorem lookup_eq_some_iff_mem (hkeys : (fields.map Prod.fst).Nodup) :
    fields.lookup name = some value ↔ (name, value) ∈ fields := by
  induction fields with
  | nil => simp
  | cons m fields ih =>
    obtain ⟨key, v⟩ := m
    obtain ⟨hfresh, hrest⟩ := List.nodup_cons.mp hkeys
    rw [List.lookup_cons, List.mem_cons, Prod.mk.injEq]
    by_cases hname : name = key
    · subst hname
      have habsent : (name, value) ∉ fields := fun hmem =>
        hfresh (List.mem_map.mpr ⟨_, hmem, rfl⟩)
      simp [habsent, eq_comm]
    · rw [beq_eq_false_iff_ne.mpr hname]
      simp [hname, ih hrest]

end Lookup

theorem repeated?_eq_none_iff {fields : List (String × Json)} :
    repeated? fields = none ↔ (fields.map Prod.fst).Nodup := by
  induction fields with
  | nil => simp [repeated?]
  | cons m fields ih =>
    obtain ⟨key, v⟩ := m
    rw [repeated?, List.map_cons, List.nodup_cons, ← ih]
    split
    · next h =>
      have hmem : key ∈ fields.map Prod.fst := by simpa using h
      simp [hmem]
    · next h =>
      have hmem : key ∉ fields.map Prod.fst := by simpa using h
      exact (and_iff_right hmem).symm

theorem named?_eq_some_iff {members : List (JsonText × Json)} {named : List (String × Json)} :
    named? members = some named ↔ members = named.map fun m => (some m.1, m.2) := by
  induction members generalizing named with
  | nil =>
    rw [named?, Option.some.injEq, eq_comm, eq_comm (a := []) (b := List.map _ _),
      List.map_eq_nil_iff]
  | cons m members ih =>
    rw [eq_comm (b := named.map _), List.map_eq_cons_iff]
    obtain ⟨_ | key, v⟩ := m
    · simp [named?]
    · rw [named?, Option.map_eq_some_iff]
      constructor
      · rintro ⟨rest, hrest, rfl⟩
        exact ⟨(key, v), rest, rfl, rfl, (ih.mp hrest).symm⟩
      · rintro ⟨first, rest, rfl, hfirst, hrest⟩
        cases hfirst
        exact ⟨rest, ih.mpr hrest.symm, rfl⟩

section Found

variable {names : List String} {found : List (String × Json)}

theorem structureFields_array_eq_ok_iff {vs : List Json} :
    structureFields names (.array vs) = .ok found ↔
      vs.length ≤ names.length ∧ found = names.zip vs := by
  rw [structureFields]
  split
  · next h => simp [Nat.not_le.mpr h]
  · next h => simp [Nat.not_lt.mp h, eq_comm]

theorem structureFields_object_eq_ok_iff {members : List (JsonText × Json)} :
    structureFields names (.object members) = .ok found ↔
      ∃ named : List (String × Json), members = named.map (fun m => (some m.1, m.2)) ∧
        found = named.filter (fun m => names.contains m.1) ∧ (found.map Prod.fst).Nodup := by
  simp only [← named?_eq_some_iff, ← repeated?_eq_none_iff]
  rw [structureFields]
  cases hnamed : named? members with
  | none => simp
  | some named =>
    dsimp only
    cases hrepeated : repeated? (named.filter fun m => names.contains m.1) with
    | none =>
      constructor
      · rintro ⟨⟩
        exact ⟨named, rfl, rfl, hrepeated⟩
      · rintro ⟨other, ⟨⟩, rfl, -⟩
        rfl
    | some name =>
      constructor
      · rintro ⟨⟩
      · rintro ⟨other, ⟨⟩, rfl, hkeys⟩
        rw [hkeys] at hrepeated
        cases hrepeated

theorem nodup_of_structureFields {value : Json} (hnames : names.Nodup)
    (h : structureFields names value = .ok found) : (found.map Prod.fst).Nodup := by
  cases value with
  | array vs =>
    obtain ⟨-, rfl⟩ := structureFields_array_eq_ok_iff.mp h
    rw [List.zip_eq_zip_take_min, List.map_fst_zip (by simp)]
    exact hnames.sublist (List.take_sublist _ _)
  | object members =>
    obtain ⟨_, _, _, hkeys⟩ := structureFields_object_eq_ok_iff.mp h
    exact hkeys
  | _ => cases h

end Found

/-! ### How a structure may be written -/

structure FieldForm where
  name : String
  /-- The values that say what the field holds. -/
  Holds : Json → Prop
  /-- The field may be left out, because it holds its default. -/
  Optional : Prop

/-- The fields in their order, some of those that may be left out without a value. -/
inductive Given : List FieldForm → List (String × Json) → Prop
  | nil : Given [] []
  | keep {form forms value given} : form.Holds value → Given forms given →
      Given (form :: forms) ((form.name, value) :: given)
  | leave {form forms given} : form.Optional → Given forms given → Given (form :: forms) given

/-- The values of the first fields; those that have none may be left out. -/
inductive Listed : List FieldForm → List Json → Prop
  | nil {forms} : (∀ form ∈ forms, form.Optional) → Listed forms []
  | cons {form forms value values} : form.Holds value → Listed forms values →
      Listed (form :: forms) (value :: values)

/-- An object with the fields in any order among unknown ones, or the array of the fields. -/
inductive Spells (forms : List FieldForm) : Json → Prop
  | object {members given unknown : List (String × Json)} : Given forms given →
      (∀ m ∈ unknown, m.1 ∉ forms.map FieldForm.name) → members.Perm (given ++ unknown) →
      Spells forms (.fields members)
  | array {values} : Listed forms values → Spells forms (.array values)

section Spelling

variable {forms : List FieldForm} {given found : List (String × Json)} {value : Json}

theorem Given.names_sublist (h : Given forms given) :
    (given.map Prod.fst).Sublist (forms.map FieldForm.name) := by
  induction h with
  | nil => exact .slnil
  | keep _ _ ih => exact ih.cons_cons _
  | leave _ _ ih => exact ih.cons _

theorem Given.of_optional (h : ∀ form ∈ forms, form.Optional) : Given forms [] := by
  induction forms with
  | nil => exact .nil
  | cons form forms ih =>
    obtain ⟨hform, hforms⟩ := List.forall_mem_cons.mp h
    exact .leave hform (ih hforms)

theorem Listed.given_zip {values : List Json} (h : Listed forms values) :
    Given forms ((forms.map FieldForm.name).zip values) := by
  induction h with
  | nil hforms =>
    rw [List.zip_nil_right]
    exact .of_optional hforms
  | cons hvalue _ ih => exact .keep hvalue ih

theorem Listed.length_le {values : List Json} (h : Listed forms values) :
    values.length ≤ forms.length := by
  induction h with
  | nil _ => exact Nat.zero_le _
  | cons _ _ ih => exact Nat.succ_le_succ ih

/-- A field is found with a value that it may have, or not at all if it may be left out. -/
def Carries (found : List (String × Json)) (form : FieldForm) : Prop :=
  (∃ value, found.lookup form.name = some value ∧ form.Holds value) ∨
    found.lookup form.name = none ∧ form.Optional

theorem Given.carries (hnames : (forms.map FieldForm.name).Nodup) (h : Given forms given) :
    ∀ form ∈ forms, Carries given form := by
  induction h with
  | nil => simp
  | @keep form forms value given hvalue _ ih =>
    obtain ⟨hfresh, hrest⟩ := List.nodup_cons.mp hnames
    refine List.forall_mem_cons.mpr ⟨.inl ⟨value, List.lookup_cons_self, hvalue⟩, ?_⟩
    intro other hother
    have hne : other.name ≠ form.name := by
      intro heq
      exact hfresh (heq ▸ List.mem_map_of_mem hother)
    rw [Carries, List.lookup_cons, beq_eq_false_iff_ne.mpr hne]
    exact ih hrest other hother
  | leave hoptional hgiven ih =>
    obtain ⟨hfresh, hrest⟩ := List.nodup_cons.mp hnames
    refine List.forall_mem_cons.mpr ⟨.inr ⟨?_, hoptional⟩, ih hrest⟩
    rw [lookup_eq_none_iff_not_mem]
    exact fun hmem => hfresh (hgiven.names_sublist.mem hmem)

theorem lookup_perm (hkeys : (found.map Prod.fst).Nodup) (h : found.Perm given) (name : String) :
    found.lookup name = given.lookup name := by
  refine Option.ext fun value => ?_
  rw [lookup_eq_some_iff_mem hkeys, lookup_eq_some_iff_mem ((h.map _).nodup hkeys), h.mem_iff]

theorem filter_given_append_unknown {unknown : List (String × Json)} (hgiven : Given forms given)
    (hunknown : ∀ m ∈ unknown, m.1 ∉ forms.map FieldForm.name) :
    (given ++ unknown).filter (fun m => (forms.map FieldForm.name).contains m.1) = given := by
  rw [List.filter_append, List.filter_eq_self.mpr, List.filter_eq_nil_iff.mpr, List.append_nil]
  · intro m hm
    simpa using hunknown m hm
  · intro m hm
    rw [List.contains_iff_mem]
    exact hgiven.names_sublist.mem (List.mem_map_of_mem hm)

theorem Spells.of_given (h : Given forms given) : Spells forms (.fields given) :=
  .object h (fun _ hm => absurd hm List.not_mem_nil) (.of_eq (List.append_nil given).symm)

theorem Spells.structureFields {names : List String} (h : Spells forms value)
    (hforms : forms.map FieldForm.name = names) (hnames : names.Nodup) :
    ∃ found, value.structureFields names = .ok found ∧ ∀ form ∈ forms, Carries found form := by
  subst hforms
  cases h with
  | array hlisted =>
    refine ⟨_, structureFields_array_eq_ok_iff.mpr ⟨?_, rfl⟩, hlisted.given_zip.carries hnames⟩
    rw [List.length_map]
    exact hlisted.length_le
  | @object members given unknown hgiven hunknown hperm =>
    -- The unknown members drop out, so what is found is the given fields in another order.
    have hfound := hperm.filter fun m => (forms.map FieldForm.name).contains m.1
    rw [filter_given_append_unknown hgiven hunknown] at hfound
    have hkeys := (hfound.map Prod.fst).nodup_iff.mpr (hnames.sublist hgiven.names_sublist)
    refine ⟨_, structureFields_object_eq_ok_iff.mpr ⟨members, rfl, rfl, hkeys⟩, ?_⟩
    intro form hform
    rw [Carries, lookup_perm hkeys hfound]
    exact hgiven.carries hnames form hform

end Spelling

namespace Carries

variable {α : Type} {found : List (String × Json)} {form : FieldForm}
  {decode : Json → Except DecodeFault α} {a default : α}

theorem field_eq (h : Carries found form) (hrequired : ¬ form.Optional)
    (hdecode : ∀ value, form.Holds value → decode value = .ok a) :
    field found form.name decode = .ok a := by
  rw [field]
  rcases h with ⟨value, hvalue, hholds⟩ | ⟨-, hoptional⟩
  · rw [hvalue]
    exact hdecode value hholds
  · exact absurd hoptional hrequired

theorem fieldOr_eq (h : Carries found form) (hdefault : form.Optional → a = default)
    (hdecode : ∀ value, form.Holds value → decode value = .ok a) :
    fieldOr found form.name default decode = .ok a := by
  rw [fieldOr]
  rcases h with ⟨value, hvalue, hholds⟩ | ⟨hnone, hoptional⟩
  · rw [hvalue]
    exact hdecode value hholds
  · rw [hnone, hdefault hoptional]

variable {name : String} {value : Json} {Optional : Prop}

theorem field_eq_of_value (h : Carries found ⟨name, (· = value), Optional⟩)
    (hrequired : ¬ Optional) (hvalue : decode value = .ok a) : field found name decode = .ok a := by
  refine h.field_eq hrequired ?_
  rintro _ rfl
  exact hvalue

theorem fieldOr_eq_of_value (h : Carries found ⟨name, (· = value), Optional⟩)
    (hdefault : Optional → a = default) (hvalue : decode value = .ok a) :
    fieldOr found name default decode = .ok a := by
  refine h.fieldOr_eq hdefault ?_
  rintro _ rfl
  exact hvalue

end Carries

/-! ### What keeps a structure from being read -/

/-- What a structure with the given field names gives for a field. -/
inductive Gives (names : List String) (name : String) : Json → Json → Prop
  | member {members value} : (some name, value) ∈ members →
      Gives names name (.object members) value
  | element {values value} {i : Nat} : names[i]? = some name → values[i]? = some value →
      Gives names name (.array values) value

/-- A structure that cannot be read, whatever its fields hold. -/
inductive Spoilt (names required : List String) : Json → Prop
  | repeated {members name} : name ∈ names → 1 < (members.map Prod.fst).count (some name) →
      Spoilt names required (.object members)
  | missing {members name} : name ∈ required → some name ∉ members.map Prod.fst →
      Spoilt names required (.object members)
  | tooLong {values} : names.length < values.length → Spoilt names required (.array values)

section Reading

variable {names required : List String} {found : List (String × Json)} {name : String}
  {value inner : Json}

theorem Gives.lookup_eq (h : Gives names name value inner) (hnames : names.Nodup)
    (hname : name ∈ names) (hfound : value.structureFields names = .ok found) :
    found.lookup name = some inner := by
  rw [lookup_eq_some_iff_mem (nodup_of_structureFields hnames hfound)]
  cases h with
  | member hmem =>
    obtain ⟨named, rfl, rfl, -⟩ := structureFields_object_eq_ok_iff.mp hfound
    obtain ⟨m, hm, heq⟩ := List.mem_map.mp hmem
    cases heq
    exact List.mem_filter.mpr ⟨hm, by simpa using hname⟩
  | element hi hvalue =>
    obtain ⟨-, rfl⟩ := structureFields_array_eq_ok_iff.mp hfound
    exact List.mem_of_getElem? (List.getElem?_zip_eq_some.mpr ⟨hi, hvalue⟩)

theorem Spoilt.exists_lookup_eq_none (h : Spoilt names required value)
    (hfound : value.structureFields names = .ok found) :
    ∃ name ∈ required, found.lookup name = none := by
  cases h with
  | @repeated members name hname hcount =>
    -- Fields are found only if each known name stands once, against the count.
    obtain ⟨named, rfl, rfl, hkeys⟩ := structureFields_object_eq_ok_iff.mp hfound
    have hkept : (named.filter fun m => names.contains m.1).map Prod.fst =
        (named.map Prod.fst).filter names.contains := by
      rw [List.filter_map]
      rfl
    have hall : (named.map fun m => (some m.1, m.2)).map Prod.fst =
        (named.map Prod.fst).map some := by simp
    have hone := List.nodup_iff_count_le_one.mp hkeys name
    rw [hkept, List.count_filter (by simpa using hname)] at hone
    rw [hall, List.count_map_of_injective _ _ (Option.some_injective _)] at hcount
    omega
  | @missing members name hname habsent =>
    obtain ⟨named, rfl, rfl, -⟩ := structureFields_object_eq_ok_iff.mp hfound
    refine ⟨name, hname, lookup_eq_none_iff_not_mem.mpr fun hmem => habsent ?_⟩
    obtain ⟨m, hm, rfl⟩ := List.mem_map.mp hmem
    rw [List.map_map]
    exact List.mem_map.mpr ⟨m, (List.mem_filter.mp hm).1, rfl⟩
  | tooLong hlength =>
    exact absurd (structureFields_array_eq_ok_iff.mp hfound).1 (Nat.not_le.mpr hlength)

end Reading

end StorageSlots.Json
