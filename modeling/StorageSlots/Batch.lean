import StorageSlots.Analysis.Format
import StorageSlots.Files.System

/-!
Batches: many sources analyzed one by one.

A source is a path with what reading it gave. The analysis of a source depends on that source only,
so a source that fails leaves the others alone.
-/

namespace StorageSlots

structure Source where
  path : String
  content : Except ReadFault String

namespace Source

def load (source : Source) : Except InputFault SourceUnit :=
  match source.content with
  | .ok text => SourceUnit.parse text
  | .error fault => .error (.unreadable source.path fault.message)

def analyze (config : Config) (source : Source) : Except Fault ContractAnalysis :=
  match source.load with
  | .error fault => .error (.input fault)
  | .ok content =>
    match content.analyze config with
    | .error fault => .error (.analysis fault)
    | .ok analysis => .ok analysis

def journal (config : Config) (source : Source) : Journal :=
  [.analyzingUnit source.path] ++
    (match source.load with
      | .ok content => content.analyzeJournal config
      | .error _ => []) ++
    match source.analyze config with
    | .ok _ => []
    | .error fault => [.unitSkipped source.path fault]

end Source

structure UnitAnalysis where
  path : String
  analysis : ContractAnalysis
  deriving DecidableEq, Repr

def UnitAnalysis.toJson (entry : UnitAnalysis) : Json :=
  .fields [("unit", .text entry.path), ("analysis", entry.analysis.toJson)]

structure BatchReport where
  analyses : List UnitAnalysis := []
  faults : FaultLog := {}
  deriving DecidableEq, Repr

namespace BatchReport

/-- The report with what one more unit gave: its analysis, or else its fault. -/
def add (report : BatchReport) (path : String) :
    Except Fault ContractAnalysis → BatchReport
  | .ok analysis => { report with analyses := report.analyses ++ [⟨path, analysis⟩] }
  | .error fault => { report with faults := report.faults.add path fault }

def addSource (config : Config) (report : BatchReport) (source : Source) : BatchReport :=
  report.add source.path (source.analyze config)

def ofSources (config : Config) (sources : List Source) : BatchReport :=
  sources.foldl (addSource config) {}

def unitCount (report : BatchReport) : Nat :=
  report.analyses.length + report.faults.size

def isComplete (report : BatchReport) : Bool :=
  report.faults.isEmpty

end BatchReport

def batchJournal (config : Config) (sources : List Source) : Journal :=
  sources.flatMap (Source.journal config)

end StorageSlots
