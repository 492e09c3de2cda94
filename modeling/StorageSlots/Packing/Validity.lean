import StorageSlots.Fault
import StorageSlots.Packing

/-!
When a packing of given sizes is right, and the first thing that is wrong with it.

`Packing.Valid` says that every item is placed exactly once and that no bin exceeds the capacity.
`Packing.violation?` looks for the first violation, bin by bin and then item by item.
-/

namespace StorageSlots

inductive Violation where
  | unknownItem (item : Nat)
  | overfull (bin load capacity : Nat)
  | miscounted (item count : Nat)
  deriving DecidableEq, Repr

def Violation.message : Violation → String
  | unknownItem item => s!"item {item} does not exist"
  | overfull bin load capacity => s!"bin {bin} holds {load} bytes but only fits {capacity}"
  | miscounted item count => s!"item {item} is placed {count} times"

namespace Packing

def sizeOf (sizes : List Nat) (item : Nat) : Nat :=
  sizes.getD item 0

def load (sizes : List Nat) (bin : List Nat) : Nat :=
  total (bin.map (sizeOf sizes))

/-- Every item is in exactly one bin, and every bin fits. -/
structure Valid (packing : Packing) (sizes : List Nat) (capacity : Nat) : Prop where
  known : ∀ bin ∈ packing.bins, ∀ item ∈ bin, item < sizes.length
  once : ∀ item < sizes.length, packing.bins.flatten.count item = 1
  fits : ∀ bin ∈ packing.bins, load sizes bin ≤ capacity

def binViolation? (sizes : List Nat) (capacity index : Nat) (bin : List Nat) : Option Violation :=
  match bin.find? fun item => decide (sizes.length ≤ item) with
  | some item => some (.unknownItem item)
  | none =>
    if load sizes bin ≤ capacity then none
    else some (.overfull index (load sizes bin) capacity)

/-- The violation of the first bad bin, where `index` counts the bins before. -/
def firstBinViolation? (sizes : List Nat) (capacity : Nat) :
    (index : Nat) → List (List Nat) → Option Violation
  | _, [] => none
  | index, bin :: bins =>
    match binViolation? sizes capacity index bin with
    | some violation => some violation
    | none => firstBinViolation? sizes capacity (index + 1) bins

def itemViolation? (bins : List (List Nat)) (item : Nat) : Option Violation :=
  if bins.flatten.count item = 1 then none
  else some (.miscounted item (bins.flatten.count item))

def violation? (packing : Packing) (sizes : List Nat) (capacity : Nat) : Option Violation :=
  match firstBinViolation? sizes capacity 0 packing.bins with
  | some violation => some violation
  | none => (List.range sizes.length).findSome? (itemViolation? packing.bins)

def validate (packing : Packing) (sizes : List Nat) (capacity : Nat) : Except SolverFault Unit :=
  match packing.violation? sizes capacity with
  | some violation => .error (.invalidPacking violation.message)
  | none => .ok ()

end Packing

end StorageSlots
