import StorageSlots.Contract
import StorageSlots.Json.Decoding
import StorageSlots.Json.Reader

/-!
The JSON format of source units: writing and reading.

Only the names of things and the labels of declarations are required. A size may be null.
-/

namespace StorageSlots

namespace ItemKind

def keyword : ItemKind → String
  | elementary => "elementary"
  | record => "record"
  | array => "array"

def toJson (kind : ItemKind) : Json :=
  .text kind.keyword

def keywords : List (String × ItemKind) :=
  [elementary, record, array].map fun kind => (kind.keyword, kind)

def ofJson : Json → Except DecodeFault ItemKind :=
  Json.decodeName keywords

end ItemKind

namespace Declaration

def fieldNames : List String := ["name", "type", "size", "kind", "dynamic", "inherited"]

def toJson (d : Declaration) : Json :=
  .fields
    [("name", .text d.name), ("type", .text d.label), ("size", .option .natural d.size),
      ("kind", d.kind.toJson), ("dynamic", .bool d.dynamic), ("inherited", .bool d.inherited)]

def ofJson (value : Json) : Except DecodeFault Declaration := do
  let fields ← value.structureFields fieldNames
  let name ← Json.field fields "name" Json.decodeText
  let label ← Json.field fields "type" Json.decodeText
  let size ← Json.fieldOr fields "size" none Json.decodeWord?
  let kind ← Json.fieldOr fields "kind" .elementary ItemKind.ofJson
  let dynamic ← Json.fieldOr fields "dynamic" false Json.decodeBool
  let inherited ← Json.fieldOr fields "inherited" false Json.decodeBool
  return { name, label, size, kind, dynamic, inherited }

end Declaration

namespace RecordDeclaration

def fieldNames : List String := ["name", "members"]

def toJson (record : RecordDeclaration) : Json :=
  .fields [("name", .text record.name), ("members", .list Declaration.toJson record.members)]

def ofJson (value : Json) : Except DecodeFault RecordDeclaration := do
  let fields ← value.structureFields fieldNames
  let name ← Json.field fields "name" Json.decodeText
  let members ← Json.fieldOr fields "members" [] (Json.decodeList Declaration.ofJson)
  return { name, members }

end RecordDeclaration

namespace Contract

def fieldNames : List String := ["name", "stateVariables", "records"]

def toJson (contract : Contract) : Json :=
  .fields
    [("name", .text contract.name),
      ("stateVariables", .list Declaration.toJson contract.stateVariables),
      ("records", .list RecordDeclaration.toJson contract.records)]

def ofJson (value : Json) : Except DecodeFault Contract := do
  let fields ← value.structureFields fieldNames
  let name ← Json.field fields "name" Json.decodeText
  let stateVariables ← Json.fieldOr fields "stateVariables" [] (Json.decodeList Declaration.ofJson)
  let records ← Json.fieldOr fields "records" [] (Json.decodeList RecordDeclaration.ofJson)
  return { name, stateVariables, records }

end Contract

namespace SourceUnit

def fieldNames : List String := ["contracts"]

def toJson (source : SourceUnit) : Json :=
  .fields [("contracts", .list Contract.toJson source.contracts)]

def ofJson (value : Json) : Except DecodeFault SourceUnit := do
  let fields ← value.structureFields fieldNames
  let contracts ← Json.fieldOr fields "contracts" [] (Json.decodeList Contract.ofJson)
  return { contracts }

def render (source : SourceUnit) : String :=
  source.toJson.compact

def parse (text : String) : Except InputFault SourceUnit :=
  match Json.read? text with
  | none => .error (.malformed DecodeFault.notJson.message)
  | some value =>
    match ofJson value with
    | .ok source => .ok source
    | .error fault => .error (.malformed fault.message)

theorem parse_of_read? {text : String} {value : Json} (h : Json.read? text = some value) :
    parse text = (ofJson value).mapError fun fault => .malformed fault.message := by
  rw [parse, h]
  dsimp only
  cases ofJson value <;> rfl

end SourceUnit

end StorageSlots
