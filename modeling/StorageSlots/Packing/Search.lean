import StorageSlots.Packing.FirstFit
import StorageSlots.Packing.KeySet

/-!
Exhaustive search for a packing into a given number of bins.

Bins are filled one at a time, each around the first entry that is not placed yet. Of the entries
behind it every choice is tried that leaves no room for a refused one, because a bin with room to
spare can take an entry over from a later bin. Of entries of one size the earlier go first. Sizes
that were found not to fit into a number of bins are remembered, so that they are tried only once.
-/

namespace StorageSlots

namespace Search

open FirstFit (Entry load)

/-- A packing, if one was found, and the sizes that are now known not to fit: keys are a number of
bins followed by sizes that need more. -/
abbrev Finding := Option (List (List Entry)) × KeySet

def key (bins : Nat) (entries : List Entry) : List Nat :=
  bins :: entries.map Entry.size

/-- Whether an entry of the size of `entry` was the last to be refused. -/
def refusedAlike (entry : Entry) : List Entry → Bool
  | [] => false
  | later :: _ => later.size == entry.size

/-- Whether a bin with `room` left could take the entry that was refused last. -/
def leavesRoom (room : Nat) : List Entry → Bool
  | [] => false
  | later :: _ => decide (later.size ≤ room)

/-- Tries the choices among the `pending` entries for a bin that has `room` left, the fullest
first. The entries that it refuses gather in `later`, the last one first, and may weigh `spare` at
most. A choice counts once `close` accepts the room, the bin and the refused entries. -/
def choose (close : Nat → List Entry → List Entry → KeySet → Finding) (spare : Nat) :
    (room : Nat) → (bin later pending : List Entry) → (known : KeySet) → Finding
  | room, bin, later, [], known => close room bin later known
  | room, bin, later, entry :: pending, known =>
    let taken :=
      if entry.size ≤ room ∧ refusedAlike entry later = false then
        choose close spare (room - entry.size) (entry :: bin) later pending known
      else (none, known)
    match taken with
    | (some bins, known) => (some bins, known)
    | (none, known) =>
      if load (entry :: later) ≤ spare then
        choose close spare room bin (entry :: later) pending known
      else (none, known)

/-- Accepts a bin that leaves no `room` for a refused entry if `pack` packs all that it refused. -/
def closeBin (pack : List Entry → KeySet → Finding) (room : Nat) (bin later : List Entry)
    (known : KeySet) : Finding :=
  if leavesRoom room later then (none, known)
  else
    match pack later.reverse known with
    | (some rest, known) => (some (bin :: rest), known)
    | (none, known) => (none, known)

/-- A packing of the entries into at most the given number of bins. -/
def packInto (capacity : Nat) : (bins : Nat) → (entries : List Entry) → (known : KeySet) → Finding
  | _, [], known => (some [], known)
  | 0, _ :: _, known => (none, known)
  | bins + 1, entry :: pending, known =>
    if known.contains (key (bins + 1) (entry :: pending)) ∨ capacity < entry.size then
      (none, known)
    else
      let found := choose (closeBin (packInto capacity bins)) (bins * capacity)
        (capacity - entry.size) [entry] [] pending known
      match found with
      | (some packed, known) => (some packed, known)
      | (none, known) => (none, known.insert (key (bins + 1) (entry :: pending)))

/-- A packing into as few bins as possible, looked for between the lower bound and the number of
items. There is none if an item exceeds the capacity. Items without weight claim no bin. -/
def fewest? (sizes : List Nat) (capacity : Nat) : Option (List (List Entry)) :=
  if total sizes = 0 then some []
  else
    ((List.range (sizes.length + 1)).drop (lowerBound sizes capacity)).findSome? fun bins =>
      (packInto capacity bins (FirstFit.decreasing sizes) .empty).1

end Search

end StorageSlots
