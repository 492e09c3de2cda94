import StorageSlots.Packing.Validity

/-!
The 0/1 program of an exact search.

There are as many candidate bins as items. A variable says whether an item is placed in a bin, and
another whether a bin is used; every item is placed once, a bin holds no weight unless it is used,
and bins are used in order. All variables are 0 or 1. Of the values that meet these constraints those
are looked for that use as few bins as possible, and the bins that they use are the packing.
-/

namespace StorageSlots

inductive Variable where
  | assign (item bin : Nat)
  | used (bin : Nat)
  deriving DecidableEq, Repr

inductive Comparison where
  | eq
  | le
  | ge
  deriving DecidableEq, Repr

structure Constraint where
  terms : List (Variable × Int)
  comparison : Comparison
  bound : Int
  deriving DecidableEq, Repr

/-- The program for items of the given sizes. -/
structure Formulation where
  sizes : List Nat
  capacity : Nat
  deriving DecidableEq, Repr

namespace Formulation

/-- The number of items, which is the number of bins as well. -/
def count (formulation : Formulation) : Nat :=
  formulation.sizes.length

/-- All variables, with their weights in the sum that is to be small. -/
def objective (formulation : Formulation) : List (Variable × Int) :=
  let indices := List.range formulation.count
  indices.flatMap (fun item => indices.map fun bin => (.assign item bin, 0)) ++
    indices.map fun bin => (.used bin, 1)

def placedOnce (formulation : Formulation) (item : Nat) : Constraint :=
  ⟨(List.range formulation.count).map fun bin => (.assign item bin, 1), .eq, 1⟩

def withinCapacity (formulation : Formulation) (bin : Nat) : Constraint :=
  ⟨(List.range formulation.count).map
      (fun item => (.assign item bin, (Packing.sizeOf formulation.sizes item : Int))) ++
    [(.used bin, -(formulation.capacity : Int))], .le, 0⟩

def usedInOrder (bin : Nat) : Constraint :=
  ⟨[(.used bin, 1), (.used (bin + 1), -1)], .ge, 0⟩

def constraints (formulation : Formulation) : List Constraint :=
  let indices := List.range formulation.count
  indices.map formulation.placedOnce ++ indices.map formulation.withinCapacity ++
    (List.range (formulation.count - 1)).map usedInOrder

end Formulation

structure Assignment where
  placed : (item bin : Nat) → Bool
  used : (bin : Nat) → Bool

namespace Assignment

def value (values : Assignment) : Variable → Int
  | .assign item bin => (values.placed item bin).toNat
  | .used bin => (values.used bin).toNat

def sum (values : Assignment) : List (Variable × Int) → Int
  | [] => 0
  | term :: terms => term.2 * values.value term.1 + values.sum terms

def members (values : Assignment) (count bin : Nat) : List Nat :=
  (List.range count).filter fun item => values.placed item bin

def usedBins (values : Assignment) (count : Nat) : List Nat :=
  (List.range count).filter values.used

def bins (values : Assignment) (count : Nat) : List (List Nat) :=
  (values.usedBins count).map (values.members count)

/-- The used bins, announced as a packing with as few bins as possible. -/
def decode (values : Assignment) (count : Nat) : Packing :=
  .ofBins (values.bins count) true

/-- The values that say the same as a packing; an engine can start from those of the heuristic. -/
def ofPacking (packing : Packing) : Assignment where
  placed item bin := packing.bins[bin]?.any fun members => members.contains item
  used bin := decide (bin < packing.binCount)

/-- Every item is alone, and no bin is used. -/
def apart : Assignment where
  placed item bin := bin == item
  used _ := false

end Assignment

def Comparison.Relates : Comparison → Int → Int → Prop
  | eq, sum, bound => sum = bound
  | le, sum, bound => sum ≤ bound
  | ge, sum, bound => bound ≤ sum

instance : (comparison : Comparison) → (sum bound : Int) → Decidable (comparison.Relates sum bound)
  | .eq, sum, bound => inferInstanceAs (Decidable (sum = bound))
  | .le, sum, bound => inferInstanceAs (Decidable (sum ≤ bound))
  | .ge, sum, bound => inferInstanceAs (Decidable (bound ≤ sum))

def Constraint.Holds (constraint : Constraint) (values : Assignment) : Prop :=
  constraint.comparison.Relates (values.sum constraint.terms) constraint.bound

instance (constraint : Constraint) (values : Assignment) : Decidable (constraint.Holds values) :=
  inferInstanceAs (Decidable (constraint.comparison.Relates _ _))

namespace Formulation

def Feasible (formulation : Formulation) (values : Assignment) : Prop :=
  ∀ constraint ∈ formulation.constraints, constraint.Holds values

instance (formulation : Formulation) (values : Assignment) :
    Decidable (formulation.Feasible values) :=
  inferInstanceAs (Decidable (∀ constraint ∈ formulation.constraints, _))

/-- Feasible values whose weighted sum is the least that feasible values have. -/
structure Optimal (formulation : Formulation) (values : Assignment) : Prop where
  feasible : formulation.Feasible values
  least : ∀ other, formulation.Feasible other →
    values.sum formulation.objective ≤ other.sum formulation.objective

end Formulation

end StorageSlots
