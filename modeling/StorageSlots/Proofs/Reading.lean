import StorageSlots.Json.TextLaws
import StorageSlots.Proofs.Spelling

/-!
What reading a source unit accepts.

A unit is read however it is written. A unit with a structure that cannot be read is malformed as a
whole: reading a structure reads all structures that it lists.
-/

namespace StorageSlots

open Json

namespace Json

variable {α : Type} {found : List (String × Json)} {name : String}
  {decode : Json → Except DecodeFault α}

theorem lookup_ne_none_of_field_eq_ok {a : α} (h : field found name decode = .ok a) :
    found.lookup name ≠ none := by
  intro hnone
  rw [field, hnone] at h
  cases h

theorem exists_decode_of_fieldOr_eq_ok {default xs : List α} {values : List Json}
    (h : fieldOr found name default (decodeList decode) = .ok xs)
    (hvalues : found.lookup name = some (.array values)) :
    ∀ v ∈ values, ∃ x, decode v = .ok x := by
  rw [fieldOr, hvalues] at h
  exact exists_ok_of_mapM h

end Json

inductive Shape where
  | unit
  | contract
  | record
  | declaration
  deriving DecidableEq, Repr

namespace Shape

variable {shape inner : Shape} {document value part : Json} {name : String}

def fieldNames : Shape → List String
  | unit => SourceUnit.fieldNames
  | contract => Contract.fieldNames
  | record => RecordDeclaration.fieldNames
  | declaration => Declaration.fieldNames

/-- The fields that have no default. -/
def required : Shape → List String
  | unit => []
  | contract => ["name"]
  | record => ["name"]
  | declaration => ["name", "type"]

/-- The fields that hold a list of structures. -/
def lists : Shape → List (String × Shape)
  | unit => [("contracts", contract)]
  | contract => [("stateVariables", declaration), ("records", record)]
  | record => [("members", declaration)]
  | declaration => []

def Readable : Shape → Json → Prop
  | unit, value => ∃ source, SourceUnit.ofJson value = .ok source
  | contract, value => ∃ contract, Contract.ofJson value = .ok contract
  | record, value => ∃ record, RecordDeclaration.ofJson value = .ok record
  | declaration, value => ∃ d, Declaration.ofJson value = .ok d

/-- The structures of a document, each with its shape. -/
inductive Within (document : Json) : Shape → Json → Prop
  | root : Within document unit document
  | listed {shape inner : Shape} {value part : Json} {name : String} {values : List Json} :
      Within document shape value → (name, inner) ∈ shape.lists →
      Gives shape.fieldNames name value (.array values) → part ∈ values →
      Within document inner part

theorem nodup_fieldNames (shape : Shape) : shape.fieldNames.Nodup := by
  cases shape <;> decide

theorem mem_fieldNames_of_mem_lists (h : (name, inner) ∈ shape.lists) : name ∈ shape.fieldNames := by
  have hall : ∀ m ∈ shape.lists, m.1 ∈ shape.fieldNames := by cases shape <;> decide
  exact hall _ h

theorem Readable.exists_structureFields (h : shape.Readable value) :
    ∃ found, value.structureFields shape.fieldNames = .ok found ∧
      (∀ name ∈ shape.required, found.lookup name ≠ none) ∧
      ∀ m ∈ shape.lists, ∀ values, found.lookup m.1 = some (.array values) →
        ∀ v ∈ values, m.2.Readable v := by
  cases shape with
  | unit =>
    obtain ⟨source, h⟩ := h
    obtain ⟨found, hfound, hcontracts⟩ := SourceUnit.ofJson_eq_ok_iff.mp h
    refine ⟨found, hfound, by simp [required], ?_⟩
    simp only [lists, List.forall_mem_cons]
    exact ⟨fun _ hvalues => exists_decode_of_fieldOr_eq_ok hcontracts hvalues, by simp⟩
  | contract =>
    obtain ⟨contract, h⟩ := h
    obtain ⟨found, hfound, hname, hvariables, hrecords⟩ := Contract.ofJson_eq_ok_iff.mp h
    refine ⟨found, hfound, ?_, ?_⟩
    · simp only [required, List.forall_mem_cons]
      exact ⟨lookup_ne_none_of_field_eq_ok hname, by simp⟩
    · simp only [lists, List.forall_mem_cons]
      exact ⟨fun _ hvalues => exists_decode_of_fieldOr_eq_ok hvariables hvalues,
        fun _ hvalues => exists_decode_of_fieldOr_eq_ok hrecords hvalues, by simp⟩
  | record =>
    obtain ⟨record, h⟩ := h
    obtain ⟨found, hfound, hname, hmembers⟩ := RecordDeclaration.ofJson_eq_ok_iff.mp h
    refine ⟨found, hfound, ?_, ?_⟩
    · simp only [required, List.forall_mem_cons]
      exact ⟨lookup_ne_none_of_field_eq_ok hname, by simp⟩
    · simp only [lists, List.forall_mem_cons]
      exact ⟨fun _ hvalues => exists_decode_of_fieldOr_eq_ok hmembers hvalues, by simp⟩
  | declaration =>
    obtain ⟨d, h⟩ := h
    obtain ⟨found, hfound, hname, hlabel, -⟩ := Declaration.ofJson_eq_ok_iff.mp h
    refine ⟨found, hfound, ?_, by simp [lists]⟩
    simp only [required, List.forall_mem_cons]
    exact ⟨lookup_ne_none_of_field_eq_ok hname, lookup_ne_none_of_field_eq_ok hlabel, by simp⟩

theorem Readable.of_gives {values : List Json} (h : shape.Readable value)
    (hlist : (name, inner) ∈ shape.lists)
    (hgives : Gives shape.fieldNames name value (.array values)) (hpart : part ∈ values) :
    inner.Readable part := by
  obtain ⟨found, hfound, -, hlists⟩ := h.exists_structureFields
  have hname := mem_fieldNames_of_mem_lists hlist
  exact hlists _ hlist _ (hgives.lookup_eq shape.nodup_fieldNames hname hfound) part hpart

theorem Readable.not_spoilt (h : shape.Readable value) :
    ¬ Spoilt shape.fieldNames shape.required value := by
  intro hspoilt
  obtain ⟨found, hfound, hrequired, -⟩ := h.exists_structureFields
  obtain ⟨name, hname, hnone⟩ := hspoilt.exists_lookup_eq_none hfound
  exact hrequired name hname hnone

/-- A document is not read without reading all its structures. -/
theorem Within.readable (h : Within document shape value) (hdocument : unit.Readable document) :
    shape.Readable value := by
  induction h with
  | root => exact hdocument
  | listed _ hlist hgives hpart ih => exact ih.of_gives hlist hgives hpart

end Shape

namespace SourceUnit

variable {text : String} {value : Json}

theorem exists_ofJson_eq_error {shape : Shape} {part : Json} (hpart : Shape.Within value shape part)
    (hspoilt : Spoilt shape.fieldNames shape.required part) :
    ∃ fault, ofJson value = .error fault := by
  cases hvalue : ofJson value with
  | ok source => exact absurd hspoilt (hpart.readable ⟨source, hvalue⟩).not_spoilt
  | error fault => exact ⟨fault, rfl⟩

/-- Every spelling of a unit is read as that unit. No text is read in which a structure repeats a
field, lacks one that has no default, or has too many. -/
theorem parse_spelling (htext : Json.read? text = some value) :
    (∀ source : SourceUnit, source.SizesFit → source.Spelled value → parse text = .ok source) ∧
      ∀ shape part, Shape.Within value shape part →
        Spoilt shape.fieldNames shape.required part → ∃ reason,
          parse text = .error (.malformed reason) := by
  constructor
  · intro source hfit hspelled
    rw [parse_of_read? htext, ofJson_of_spelled hfit hspelled]
    rfl
  · intro shape part hpart hspoilt
    obtain ⟨fault, hfault⟩ := exists_ofJson_eq_error hpart hspoilt
    rw [parse_of_read? htext, hfault]
    exact ⟨_, rfl⟩

/-- A unit of one contract, whose fields stand in reverse order behind unknown ones. -/
def holding (declaration : Json) : Json :=
  .array [.array [.fields [("note", .null), ("note", .bool true),
    ("stateVariables", .array [declaration]), ("name", .text "C")]]]

theorem legible_holding {declaration : Json} (h : declaration.Legible) :
    (holding declaration).Legible := by
  refine .array (List.forall_mem_singleton.mpr (.array (List.forall_mem_singleton.mpr ?_)))
  refine .fields ?_
  simp only [List.forall_mem_cons]
  exact ⟨.null, .bool true, .array (List.forall_mem_singleton.mpr h), .string _, by simp⟩

theorem spelled_holding {d : Declaration} {declaration : Json} (h : d.Spelled declaration) :
    Spelled ⟨[⟨"C", [d], []⟩]⟩ (holding declaration) := by
  let unknown : List (String × Json) := [("note", .bool true), ("note", .null)]
  have hunknown : ∀ m ∈ unknown, m.1 ∉ Contract.fieldNames := by decide
  have hcontract : Contract.Spelled ⟨"C", [d], []⟩ _ :=
    .object (.keep rfl (.keep ⟨_, rfl, .cons h .nil⟩ (.leave rfl .nil))) hunknown
      (List.reverse_perm _)
  exact .array (.cons ⟨_, rfl, .cons hcontract .nil⟩ (.nil (by simp)))

theorem within_holding (declaration : Json) :
    Shape.Within (holding declaration) .declaration declaration := by
  have hcontract : Shape.Within (holding declaration) .contract _ :=
    .listed .root (.head _) (.element (i := 0) rfl rfl) (.head _)
  exact .listed hcontract (.head _) (.member (.tail _ (.tail _ (.head _)))) (.head _)

theorem parse_spelling_holding :
    parse (holding (.array [.text "b", .text "bool"])).compact =
        .ok ⟨[⟨"C", [⟨"b", "bool", none, .elementary, false, false⟩], []⟩]⟩ ∧
      ∃ reason, parse (holding (.fields [("name", .text "b"), ("name", .null)])).compact =
        .error (.malformed reason) := by
  constructor
  · have hlegible : (Json.array [.text "b", .text "bool"]).Legible :=
      .array (by simp [Json.text, Legible.string])
    have htext := read?_compact (legible_holding hlegible)
    refine (parse_spelling htext).1 _ (by decide) (spelled_holding ?_)
    exact .array (.cons rfl (.cons rfl (.nil (by simp))))
  · have hlegible : (Json.fields [("name", .text "b"), ("name", .null)]).Legible :=
      .fields (by simp [Json.text, Legible.string, Legible.null])
    have htext := read?_compact (legible_holding hlegible)
    refine (parse_spelling htext).2 _ _ (within_holding _) ?_
    exact @Spoilt.repeated _ _ _ "name" (by decide) (by decide)

end SourceUnit

end StorageSlots
