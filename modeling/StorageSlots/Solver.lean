import StorageSlots.Journal
import StorageSlots.Packing.Engine

/-!
Solvers: functions from sizes and a capacity to a packing or a fault.

`Solver.firstFit` packs by first-fit decreasing. `ExactSolver` accepts that packing if it is
certified, and otherwise has an engine look for one with as few bins as possible, unless there are
too many items. Its watchdog is asked after each batch whether to give up.
-/

namespace StorageSlots

structure Solver where
  description : String
  solve : (sizes : List Nat) → (capacity : Nat) → Except SolverFault Packing
  journal : (sizes : List Nat) → (capacity : Nat) → Journal

def FirstFit.journal (sizes : List Nat) (capacity : Nat) : Journal :=
  let packing := FirstFit.pack sizes capacity
  [.firstFitPacked sizes.length packing.binCount packing.certified]

def Solver.firstFit : Solver where
  description := "FirstFitDecreasing"
  solve sizes capacity := .ok (FirstFit.pack sizes capacity)
  journal := FirstFit.journal

structure ExactSolver where
  /-- The number of items up to which a search is attempted. -/
  maximumItems : Nat := 48
  watchdog : Watchdog := ({} : Budget).watchdog
  engine : Engine := Search.engine

namespace ExactSolver

inductive Path where
  | shortcut
  | refusal
  | search
  deriving DecidableEq, Repr

def path (exact : ExactSolver) (sizes : List Nat) (capacity : Nat) : Path :=
  if (FirstFit.pack sizes capacity).certified then .shortcut
  else if exact.maximumItems < sizes.length then .refusal
  else .search

/-- The engine begins at the packing of first-fit decreasing. -/
def run (exact : ExactSolver) (sizes : List Nat) (capacity : Nat) : Run :=
  let heuristic := FirstFit.pack sizes capacity
  exact.engine ⟨sizes, capacity⟩ exact.watchdog.pollEvery (.ofPacking heuristic)

def solution (exact : ExactSolver) (sizes : List Nat) (capacity : Nat) :
    Except SolverFault Solution :=
  (exact.run sizes capacity).follow exact.watchdog.shouldStop

def answerOn (exact : ExactSolver) (sizes : List Nat) (capacity : Nat) :
    Path → Except SolverFault Packing
  | .shortcut => .ok (FirstFit.pack sizes capacity)
  | .refusal => .error (.tooManyItems sizes.length exact.maximumItems)
  | .search => (exact.solution sizes capacity).map fun found => found.values.decode sizes.length

def solve (exact : ExactSolver) (sizes : List Nat) (capacity : Nat) :
    Except SolverFault Packing :=
  exact.answerOn sizes capacity (exact.path sizes capacity)

def searchJournal (exact : ExactSolver) (sizes : List Nat) (capacity : Nat) : Journal :=
  match exact.solution sizes capacity with
  | .ok found =>
    let packing := found.values.decode sizes.length
    [.searchPacked sizes.length packing.binCount capacity found.progress.nodes]
  | .error _ => []

def journal (exact : ExactSolver) (sizes : List Nat) (capacity : Nat) : Journal :=
  FirstFit.journal sizes capacity ++
    match exact.path sizes capacity with
    | .shortcut => [.lowerBoundMet sizes.length]
    | .refusal => []
    | .search => exact.searchJournal sizes capacity

/-- Whether an engine is to thank for the answer. -/
def searches (exact : ExactSolver) (sizes : List Nat) (capacity : Nat) : Bool :=
  decide (exact.path sizes capacity = .search) && (exact.solution sizes capacity).isOk

def description (exact : ExactSolver) : String :=
  "ExactSolver \x7b maximum_items: " ++ toString exact.maximumItems ++
    ", watchdog: " ++ exact.watchdog.description ++ " \x7d"

def solver (exact : ExactSolver) : Solver :=
  ⟨exact.description, exact.solve, exact.journal⟩

end ExactSolver

end StorageSlots
