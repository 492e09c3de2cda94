import StorageSlots.Analysis
import StorageSlots.Unit.Format

/-!
The JSON format of items, layouts and analyses.
-/

namespace StorageSlots

/-- Items that are laid out are neither dynamic nor inherited. -/
def Item.toJson (item : Item) : Json :=
  .fields
    [("name", .text item.name), ("type", .text item.label), ("byte_size", .natural item.byteSize),
      ("kind", item.kind.toJson), ("is_dynamic", .bool false), ("is_inherited", .bool false),
      ("declaration_index", .natural item.position)]

def Slot.toJson (slot : Slot) : Json :=
  .fields [("index", .natural slot.index), ("members", .list Item.toJson slot.members)]

def Layout.toJson (layout : Layout) : Json :=
  .fields [("slots", .list Slot.toJson layout.slots)]

def PackingOutcome.toJson (outcome : PackingOutcome) : Json :=
  .fields
    [("spared_slots", .natural outcome.sparedSlots),
      ("optimized", .option Layout.toJson outcome.optimized)]

def RecordAnalysis.toJson (analysis : RecordAnalysis) : Json :=
  .fields
    [("record", .text analysis.record), ("position", .natural analysis.position),
      ("outcome", analysis.outcome.toJson)]

def RecordsAnalysis.toJson (analysis : RecordsAnalysis) : Json :=
  .fields
    [("total_spared", .natural analysis.totalSpared),
      ("improvable", .list RecordAnalysis.toJson analysis.improvable)]

def ContractAnalysis.toJson (analysis : ContractAnalysis) : Json :=
  .fields
    [("contract", .text analysis.contract), ("records", analysis.records.toJson),
      ("storage", analysis.storage.toJson)]

end StorageSlots
