import StorageSlots.Packing.Validity

/-!
Checking a packing in one pass over its bins.

The pass keeps a count of placements for every item and the load of the bin under way, and ends with
the first violation. A step that would read or change a count that is not there has no result.
-/

namespace StorageSlots

namespace Packing

/-- A violation ends a pass; `none` stands for an index that is out of range. -/
abbrev Pass := ExceptT Violation Option

structure Tally where
  counts : List Nat
  load : Nat
  deriving DecidableEq, Repr

def increment? (counts : List Nat) (item : Nat) : Option (List Nat) :=
  if item < counts.length then some (counts.modify item (· + 1)) else none

def Tally.place (sizes : List Nat) (tally : Tally) (item : Nat) : Pass Tally :=
  match sizes[item]? with
  | none => throw (.unknownItem item)
  | some size => do
    let counts ← increment? tally.counts item
    return ⟨counts, tally.load + size⟩

/-- Places the items of a bin, which comes with the number of bins before it. -/
def placeBin (sizes : List Nat) (capacity : Nat) (counts : List Nat) (bin : List Nat × Nat) :
    Pass (List Nat) := do
  let tally ← bin.1.foldlM (Tally.place sizes) ⟨counts, 0⟩
  if capacity < tally.load then throw (.overfull bin.2 tally.load capacity)
  return tally.counts

def settle (counts : List Nat) : Pass Unit :=
  match counts.findIdx? (· != 1) with
  | none => return ()
  | some item => do
    let count ← (counts[item]? : Option Nat)
    throw (.miscounted item count)

def pass (packing : Packing) (sizes : List Nat) (capacity : Nat) : Pass Unit := do
  let counts ← packing.bins.zipIdx.foldlM (placeBin sizes capacity) (.replicate sizes.length 0)
  settle counts

def check? (packing : Packing) (sizes : List Nat) (capacity : Nat) :
    Option (Except SolverFault Unit) :=
  (packing.pass sizes capacity).run.map
    (Except.mapError fun violation => .invalidPacking violation.message)

end Packing

end StorageSlots
