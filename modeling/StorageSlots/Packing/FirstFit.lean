import StorageSlots.Packing

/-!
First-fit decreasing: items from the largest to the smallest, each into the first bin with room.

An item that no open bin has room for opens a bin, even if it exceeds the capacity on its own.
-/

namespace StorageSlots

namespace FirstFit

/-- A place in the list of sizes together with the size found there. -/
structure Entry where
  item : Nat
  size : Nat
  deriving DecidableEq, Repr

def load (bin : List Entry) : Nat :=
  total (bin.map Entry.size)

@[simp] theorem load_nil : load [] = 0 := rfl

@[simp] theorem load_cons (entry : Entry) (bin : List Entry) :
    load (entry :: bin) = entry.size + load bin := rfl

@[simp] theorem load_append (bin more : List Entry) : load (bin ++ more) = load bin + load more := by
  rw [load, List.map_append, total_append, load, load]

theorem size_le_load {entry : Entry} {bin : List Entry} (h : entry ∈ bin) :
    entry.size ≤ load bin :=
  le_total_of_mem (List.mem_map_of_mem h)

/-- The sizes with their places, counted from `start`. -/
def entriesFrom (start : Nat) : List Nat → List Entry
  | [] => []
  | size :: sizes => ⟨start, size⟩ :: entriesFrom (start + 1) sizes

/-- From the largest to the smallest; equal sizes stay in their order. -/
def decreasing (sizes : List Nat) : List Entry :=
  (entriesFrom 0 sizes).mergeSort fun a b => decide (b.size ≤ a.size)

/-- Puts an entry into the first of `bins` with room for it, or into a bin behind them. -/
def insert (capacity : Nat) (entry : Entry) : List (List Entry) → List (List Entry)
  | [] => [[entry]]
  | bin :: bins =>
    if load bin + entry.size ≤ capacity then (bin ++ [entry]) :: bins
    else bin :: insert capacity entry bins

def bins (sizes : List Nat) (capacity : Nat) : List (List Entry) :=
  (decreasing sizes).foldl (fun bins entry => insert capacity entry bins) []

@[simp] theorem bins_nil (capacity : Nat) : bins [] capacity = [] := by
  simp [bins, decreasing, entriesFrom]

/-- The packing is certified if no packing can have fewer bins by the total size alone. -/
def pack (sizes : List Nat) (capacity : Nat) : Packing :=
  let found := bins sizes capacity
  .ofBins (found.map fun bin => bin.map Entry.item)
    (found.length == lowerBound sizes capacity)

theorem length_insert_le (capacity : Nat) (entry : Entry) (bins : List (List Entry)) :
    (insert capacity entry bins).length ≤ bins.length + 1 := by
  induction bins with
  | nil => exact Nat.le_refl _
  | cons bin bins ih =>
    unfold insert
    split
    · exact Nat.le_succ _
    · exact Nat.succ_le_succ ih

theorem flatten_insert (capacity : Nat) (entry : Entry) (bins : List (List Entry)) :
    (insert capacity entry bins).flatten.Perm (entry :: bins.flatten) := by
  induction bins with
  | nil => exact .refl _
  | cons bin bins ih =>
    unfold insert
    split
    · simp
    · simpa using (ih.append_left bin).trans List.perm_middle

end FirstFit

end StorageSlots
