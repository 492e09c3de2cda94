import StorageSlots.Analysis

/-!
The text report of an analysis.

For the record types and for the storage it says whether they are tightly packed. Where they are
not, it counts the slots that could be spared and lists the items in an order that spares them.
-/

namespace StorageSlots

structure Report where
  path : String
  analysis : ContractAnalysis
  deriving DecidableEq, Repr

namespace Report

/-- The order in which the items of an outcome have to be declared. -/
def orderLines (outcome : PackingOutcome) : List String :=
  match outcome.optimized with
  | some layout => layout.items.map Item.display
  | none => []

def recordLines (contract : String) (analysis : RecordAnalysis) : List String :=
  (contract ++ " -> " ++ analysis.record ++ ":") :: orderLines analysis.outcome

def recordsLines (report : Report) : List String :=
  let path := report.path
  let contract := report.analysis.contract
  let records := report.analysis.records
  if records.isTight then []
  else
    let spared := records.totalSpared
    [s!"{path} -> {contract}'s structs are not tight packed.",
      s!"{spared} slot(s) could be spared by defining them in this order:"] ++
      records.improvable.flatMap (recordLines contract)

def storageLines (report : Report) : List String :=
  let path := report.path
  let contract := report.analysis.contract
  let storage := report.analysis.storage
  if storage.isTight then [s!"{path} -> {contract}'s storage is tight packed."]
  else
    let spared := storage.sparedSlots
    [s!"{path} -> {contract}'s storage is not tight packed.",
      s!"{spared} slot(s) could be spared by declaring the state variables in this order:"] ++
      orderLines storage

def lines (report : Report) : List String :=
  report.recordsLines ++ report.storageLines

def render (report : Report) : String :=
  String.join (report.lines.map fun line => line ++ "\n")

end Report

end StorageSlots
