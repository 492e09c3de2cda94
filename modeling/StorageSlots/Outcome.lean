import StorageSlots.Layout.Fill
import StorageSlots.Solver

/-!
Whether the declared order of items wastes slots.

The layout of the declared order is compared with a layout built from a solver's packing: a slot for
each bin, then a slot for each record or array in their order. An improvement is claimed only if the
packing is valid and its layout has fewer slots. A solver that refuses or gives up is replaced by
first-fit decreasing; any other fault claims nothing.
-/

namespace StorageSlots

/-- The slots that a better order spares, and its layout; none are spared if there is no layout. -/
structure PackingOutcome where
  sparedSlots : Nat
  optimized : Option Layout
  present_iff : optimized.isSome = true ↔ 0 < sparedSlots
  deriving DecidableEq, Repr

namespace PackingOutcome

/-- The outcome for items that are packed as tightly as is known. -/
def tight : PackingOutcome :=
  ⟨0, none, by simp⟩

def between (declared optimized : Layout) : PackingOutcome :=
  if h : optimized.slotCount < declared.slotCount then
    ⟨declared.slotCount - optimized.slotCount, some optimized,
      by simpa using Nat.sub_pos_of_lt h⟩
  else tight

def isTight (outcome : PackingOutcome) : Bool :=
  outcome.sparedSlots == 0

end PackingOutcome

def elementaryItems (items : List Item) : List Item :=
  items.filter Item.isElementary

def compositeItems (items : List Item) : List Item :=
  items.filter fun item => !item.isElementary

def elementarySizes (items : List Item) : List Nat :=
  (elementaryItems items).map Item.byteSize

/-- The layout that puts the items of each bin into a slot and every composite into its own. -/
def Packing.layout (packing : Packing) (items : List Item) : Layout :=
  let elementary := elementaryItems items
  .ofGroups
    (packing.bins.map (fun bin => bin.filterMap fun i => elementary[i]?) ++
      (compositeItems items).map fun item => [item])

namespace Solver

/-- A refused or abandoned problem goes to first-fit decreasing. -/
def fallsBack : SolverFault → Bool
  | .tooManyItems _ _ | .notOptimal _ => true
  | .invalidPacking _ => false

/-- A packing by the solver, or in its stead by first-fit decreasing. -/
def packing (solver : Solver) (sizes : List Nat) : Except SolverFault Packing :=
  match solver.solve sizes slotBytes with
  | .ok packing => .ok packing
  | .error fault =>
    if fallsBack fault then .ok (FirstFit.pack sizes slotBytes) else .error fault

def validPacking (solver : Solver) (sizes : List Nat) : Except SolverFault Packing :=
  match solver.packing sizes with
  | .ok packing =>
    match packing.validate sizes slotBytes with
    | .ok () => .ok packing
    | .error fault => .error fault
  | .error fault => .error fault

end Solver

def compare (items : List Item) (solver : Solver) : PackingOutcome :=
  match solver.validPacking (elementarySizes items) with
  | .ok packing => .between (Layout.ofOrder items) (packing.layout items)
  | .error _ => .tight

def Fill.journal (items : List Item) : Journal :=
  items.map .placing

def Solver.packingJournal (solver : Solver) (sizes : List Nat) : Journal :=
  solver.journal sizes slotBytes ++
    (match solver.solve sizes slotBytes with
      | .error fault =>
        if fallsBack fault then .fallingBack fault :: FirstFit.journal sizes slotBytes else []
      | .ok _ => []) ++
    match solver.validPacking sizes with
    | .ok packing => if packing.certified then [] else [.uncertified solver.description]
    | .error fault => [.noImprovement fault]

def compareJournal (items : List Item) (solver : Solver) : Journal :=
  let sizes := elementarySizes items
  Fill.journal items ++ [.declaredSlots (Layout.ofOrder items).slotCount] ++
    solver.packingJournal sizes ++
    match solver.validPacking sizes with
    | .ok packing =>
      let outcome := compare items solver
      .packedSlots (packing.layout items).slotCount ::
        if outcome.isTight then [] else [.sparedSlots outcome.sparedSlots]
    | .error _ => []

end StorageSlots
