import StorageSlots.Json.StructureLaws
import StorageSlots.Proofs.Success
import StorageSlots.Unit.Format

/-!
The ways to write a source unit.

At each structure of a unit the fields may stand in any order among unknown ones, or in an array, and
fields that hold their default may be left out. However a unit is written, it is read back as long
as its sizes fit in a 64-bit word.
-/

namespace StorageSlots

open Json

namespace Json

/-- An array with a value for each element. -/
def HoldsList {α : Type} (Holds : α → Json → Prop) (xs : List α) (value : Json) : Prop :=
  ∃ values, value = .array values ∧ List.Forall₂ Holds xs values

variable {α : Type} {decode : Json → Except DecodeFault α} {xs : List α}

theorem decodeList_array_eq_ok_iff {values : List Json} :
    decodeList decode (.array values) = .ok xs ↔
      List.Forall₂ (fun v x => decode v = .ok x) values xs :=
  mapM_eq_ok_iff

theorem decodeList_of_holdsList {Holds : α → Json → Prop}
    (hdecode : ∀ x ∈ xs, ∀ v, Holds x v → decode v = .ok x) :
    ∀ value, HoldsList Holds xs value → decodeList decode value = .ok xs := by
  rintro _ ⟨values, rfl, hvalues⟩
  rw [decodeList_array_eq_ok_iff]
  induction hvalues with
  | nil => exact .nil
  | cons hvalue _ ih =>
    obtain ⟨hx, hxs⟩ := List.forall_mem_cons.mp hdecode
    exact .cons (hx _ hvalue) (ih hxs)

theorem holdsList_list {Holds : α → Json → Prop} {encode : α → Json}
    (h : ∀ x, Holds x (encode x)) (xs : List α) : HoldsList Holds xs (.list encode xs) :=
  ⟨_, rfl, List.forall₂_map_right_iff.mpr (List.forall₂_same.mpr fun x _ => h x)⟩

end Json

theorem ItemKind.ofJson_toJson (kind : ItemKind) : ofJson kind.toJson = .ok kind := by
  cases kind <;> rfl

theorem Json.decodeWord?_option {size : Option Nat} (h : ∀ n ∈ size, n < Text.wordLimit) :
    decodeWord? (.option .natural size) = .ok size := by
  cases size with
  | none => rfl
  | some n => exact if_pos (h n rfl)

theorem Json.decodeBool_bool (b : Bool) : decodeBool (.bool b) = .ok b := rfl

theorem Json.decodeText_text (s : String) : decodeText (.text s) = .ok s := rfl

namespace Declaration

variable {d : Declaration} {value : Json}

/-- The size, if there is one, fits in a 64-bit word. -/
def SizeFits (d : Declaration) : Prop :=
  ∀ n ∈ d.size, n < Text.wordLimit

instance : Decidable d.SizeFits :=
  inferInstanceAs (Decidable (∀ n ∈ d.size, n < Text.wordLimit))

theorem nodup_fieldNames : fieldNames.Nodup := by decide

theorem ofJson_eq_ok_iff :
    ofJson value = .ok d ↔ ∃ found, value.structureFields fieldNames = .ok found ∧
      field found "name" decodeText = .ok d.name ∧ field found "type" decodeText = .ok d.label ∧
      fieldOr found "size" none decodeWord? = .ok d.size ∧
      fieldOr found "kind" .elementary ItemKind.ofJson = .ok d.kind ∧
      fieldOr found "dynamic" false decodeBool = .ok d.dynamic ∧
      fieldOr found "inherited" false decodeBool = .ok d.inherited := by
  simp only [ofJson, bind_eq_ok_iff]
  constructor
  · rintro ⟨found, hfound, _, hname, _, hlabel, _, hsize, _, hkind, _, hdynamic, _, hinherited, ⟨⟩⟩
    exact ⟨found, hfound, hname, hlabel, hsize, hkind, hdynamic, hinherited⟩
  · rintro ⟨found, hfound, hname, hlabel, hsize, hkind, hdynamic, hinherited⟩
    exact ⟨found, hfound, _, hname, _, hlabel, _, hsize, _, hkind, _, hdynamic, _, hinherited, rfl⟩

/-- The fields that say what the declaration is. One that holds its default may be left out. -/
def forms (d : Declaration) : List FieldForm :=
  [⟨"name", (· = .text d.name), False⟩, ⟨"type", (· = .text d.label), False⟩,
    ⟨"size", (· = .option .natural d.size), d.size = none⟩,
    ⟨"kind", (· = d.kind.toJson), d.kind = .elementary⟩,
    ⟨"dynamic", (· = .bool d.dynamic), d.dynamic = false⟩,
    ⟨"inherited", (· = .bool d.inherited), d.inherited = false⟩]

def Spelled (d : Declaration) : Json → Prop :=
  Spells d.forms

theorem ofJson_of_spelled (hfits : d.SizeFits) (h : d.Spelled value) : ofJson value = .ok d := by
  obtain ⟨found, hfound, hcarries⟩ :=
    Spells.structureFields h rfl nodup_fieldNames
  simp only [forms, List.forall_mem_cons] at hcarries
  obtain ⟨hname, hlabel, hsize, hkind, hdynamic, hinherited, -⟩ := hcarries
  rw [ofJson_eq_ok_iff]
  exact ⟨found, hfound, hname.field_eq_of_value not_false (decodeText_text _),
    hlabel.field_eq_of_value not_false (decodeText_text _),
    hsize.fieldOr_eq_of_value id (decodeWord?_option hfits),
    hkind.fieldOr_eq_of_value id d.kind.ofJson_toJson,
    hdynamic.fieldOr_eq_of_value id (decodeBool_bool _),
    hinherited.fieldOr_eq_of_value id (decodeBool_bool _)⟩

theorem spelled_toJson (d : Declaration) : d.Spelled d.toJson :=
  .of_given (.keep rfl (.keep rfl (.keep rfl (.keep rfl (.keep rfl (.keep rfl .nil))))))

end Declaration

namespace RecordDeclaration

variable {record : RecordDeclaration} {value : Json}

def SizesFit (record : RecordDeclaration) : Prop :=
  ∀ d ∈ record.members, d.SizeFits

instance : Decidable record.SizesFit :=
  inferInstanceAs (Decidable (∀ d ∈ record.members, d.SizeFits))

theorem nodup_fieldNames : fieldNames.Nodup := by decide

theorem ofJson_eq_ok_iff :
    ofJson value = .ok record ↔ ∃ found, value.structureFields fieldNames = .ok found ∧
      field found "name" decodeText = .ok record.name ∧
      fieldOr found "members" [] (decodeList Declaration.ofJson) = .ok record.members := by
  simp only [ofJson, bind_eq_ok_iff]
  constructor
  · rintro ⟨found, hfound, _, hname, _, hmembers, ⟨⟩⟩
    exact ⟨found, hfound, hname, hmembers⟩
  · rintro ⟨found, hfound, hname, hmembers⟩
    exact ⟨found, hfound, _, hname, _, hmembers, rfl⟩

def forms (record : RecordDeclaration) : List FieldForm :=
  [⟨"name", (· = .text record.name), False⟩,
    ⟨"members", HoldsList Declaration.Spelled record.members, record.members = []⟩]

def Spelled (record : RecordDeclaration) : Json → Prop :=
  Spells record.forms

theorem ofJson_of_spelled (hfit : record.SizesFit) (h : record.Spelled value) :
    ofJson value = .ok record := by
  obtain ⟨found, hfound, hcarries⟩ :=
    Spells.structureFields h rfl nodup_fieldNames
  simp only [forms, List.forall_mem_cons] at hcarries
  obtain ⟨hname, hmembers, -⟩ := hcarries
  rw [ofJson_eq_ok_iff]
  refine ⟨found, hfound, hname.field_eq_of_value not_false (decodeText_text _),
    hmembers.fieldOr_eq id (decodeList_of_holdsList ?_)⟩
  exact fun d hd _ => Declaration.ofJson_of_spelled (hfit d hd)

theorem spelled_toJson (record : RecordDeclaration) : record.Spelled record.toJson :=
  .of_given (.keep rfl (.keep (holdsList_list Declaration.spelled_toJson _) .nil))

end RecordDeclaration

namespace Contract

variable {contract : Contract} {value : Json}

def SizesFit (contract : Contract) : Prop :=
  (∀ d ∈ contract.stateVariables, d.SizeFits) ∧ ∀ record ∈ contract.records, record.SizesFit

instance : Decidable contract.SizesFit :=
  inferInstanceAs (Decidable (_ ∧ _))

theorem nodup_fieldNames : fieldNames.Nodup := by decide

theorem ofJson_eq_ok_iff :
    ofJson value = .ok contract ↔ ∃ found, value.structureFields fieldNames = .ok found ∧
      field found "name" decodeText = .ok contract.name ∧
      fieldOr found "stateVariables" [] (decodeList Declaration.ofJson) =
        .ok contract.stateVariables ∧
      fieldOr found "records" [] (decodeList RecordDeclaration.ofJson) = .ok contract.records := by
  simp only [ofJson, bind_eq_ok_iff]
  constructor
  · rintro ⟨found, hfound, _, hname, _, hvariables, _, hrecords, ⟨⟩⟩
    exact ⟨found, hfound, hname, hvariables, hrecords⟩
  · rintro ⟨found, hfound, hname, hvariables, hrecords⟩
    exact ⟨found, hfound, _, hname, _, hvariables, _, hrecords, rfl⟩

def forms (contract : Contract) : List FieldForm :=
  [⟨"name", (· = .text contract.name), False⟩,
    ⟨"stateVariables", HoldsList Declaration.Spelled contract.stateVariables,
      contract.stateVariables = []⟩,
    ⟨"records", HoldsList RecordDeclaration.Spelled contract.records, contract.records = []⟩]

def Spelled (contract : Contract) : Json → Prop :=
  Spells contract.forms

theorem ofJson_of_spelled (hfit : contract.SizesFit) (h : contract.Spelled value) :
    ofJson value = .ok contract := by
  obtain ⟨found, hfound, hcarries⟩ :=
    Spells.structureFields h rfl nodup_fieldNames
  simp only [forms, List.forall_mem_cons] at hcarries
  obtain ⟨hname, hvariables, hrecords, -⟩ := hcarries
  rw [ofJson_eq_ok_iff]
  refine ⟨found, hfound, hname.field_eq_of_value not_false (decodeText_text _),
    hvariables.fieldOr_eq id (decodeList_of_holdsList ?_),
    hrecords.fieldOr_eq id (decodeList_of_holdsList ?_)⟩
  · exact fun d hd _ => Declaration.ofJson_of_spelled (hfit.1 d hd)
  · exact fun record hrecord _ => RecordDeclaration.ofJson_of_spelled (hfit.2 record hrecord)

theorem spelled_toJson (contract : Contract) : contract.Spelled contract.toJson :=
  .of_given (.keep rfl (.keep (holdsList_list Declaration.spelled_toJson _)
    (.keep (holdsList_list RecordDeclaration.spelled_toJson _) .nil)))

end Contract

namespace SourceUnit

variable {source : SourceUnit} {value : Json}

def SizesFit (source : SourceUnit) : Prop :=
  ∀ contract ∈ source.contracts, contract.SizesFit

instance : Decidable source.SizesFit :=
  inferInstanceAs (Decidable (∀ contract ∈ source.contracts, contract.SizesFit))

theorem nodup_fieldNames : fieldNames.Nodup := by decide

theorem ofJson_eq_ok_iff :
    ofJson value = .ok source ↔ ∃ found, value.structureFields fieldNames = .ok found ∧
      fieldOr found "contracts" [] (decodeList Contract.ofJson) = .ok source.contracts := by
  simp only [ofJson, bind_eq_ok_iff]
  constructor
  · rintro ⟨found, hfound, _, hcontracts, ⟨⟩⟩
    exact ⟨found, hfound, hcontracts⟩
  · rintro ⟨found, hfound, hcontracts⟩
    exact ⟨found, hfound, _, hcontracts, rfl⟩

def forms (source : SourceUnit) : List FieldForm :=
  [⟨"contracts", HoldsList Contract.Spelled source.contracts, source.contracts = []⟩]

def Spelled (source : SourceUnit) : Json → Prop :=
  Spells source.forms

theorem ofJson_of_spelled (hfit : source.SizesFit) (h : source.Spelled value) :
    ofJson value = .ok source := by
  obtain ⟨found, hfound, hcarries⟩ :=
    Spells.structureFields h rfl nodup_fieldNames
  simp only [forms, List.forall_mem_cons] at hcarries
  obtain ⟨hcontracts, -⟩ := hcarries
  rw [ofJson_eq_ok_iff]
  refine ⟨found, hfound, hcontracts.fieldOr_eq id (decodeList_of_holdsList ?_)⟩
  exact fun contract hcontract _ => Contract.ofJson_of_spelled (hfit contract hcontract)

theorem spelled_toJson (source : SourceUnit) : source.Spelled source.toJson :=
  .of_given (.keep (holdsList_list Contract.spelled_toJson _) .nil)

end SourceUnit

end StorageSlots
