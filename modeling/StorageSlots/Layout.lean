import StorageSlots.Item
import StorageSlots.Total

/-!
Layouts: numbered slots and the items in them.

`Layout.ofGroups` numbers groups of items from 1. `Layout.items` reads a layout back, slot by slot.
-/

namespace StorageSlots

structure Slot where
  index : Nat
  members : List Item
  deriving DecidableEq, Repr

namespace Slot

def usedBytes (slot : Slot) : Nat :=
  total (slot.members.map Item.byteSize)

def freeBytes (slot : Slot) : Nat :=
  slotBytes - slot.usedBytes

end Slot

structure Layout where
  slots : List Slot
  deriving DecidableEq, Repr

namespace Layout

def numbered (first : Nat) : List (List Item) → List Slot
  | [] => []
  | group :: groups => ⟨first, group⟩ :: numbered (first + 1) groups

def ofGroups (groups : List (List Item)) : Layout :=
  ⟨numbered 1 groups⟩

def slotCount (layout : Layout) : Nat :=
  layout.slots.length

def isEmpty (layout : Layout) : Bool :=
  layout.slots.isEmpty

/-- The slot with the given number; numbers start at 1. -/
def get? (layout : Layout) : Nat → Option Slot
  | 0 => none
  | n + 1 => layout.slots[n]?

def hasSlot (layout : Layout) (n : Nat) : Bool :=
  (layout.get? n).isSome

def groups (layout : Layout) : List (List Item) :=
  layout.slots.map Slot.members

/-- The items in the order in which they have to be declared. -/
def items (layout : Layout) : List Item :=
  layout.groups.flatten

@[simp] theorem length_numbered (first : Nat) (groups : List (List Item)) :
    (numbered first groups).length = groups.length := by
  induction groups generalizing first with
  | nil => rfl
  | cons group groups ih => simp [numbered, ih]

@[simp] theorem map_members_numbered (first : Nat) (groups : List (List Item)) :
    (numbered first groups).map Slot.members = groups := by
  induction groups generalizing first with
  | nil => rfl
  | cons group groups ih => simp [numbered, ih]

theorem numbered_append (first : Nat) (xs ys : List (List Item)) :
    numbered first (xs ++ ys) = numbered first xs ++ numbered (first + xs.length) ys := by
  induction xs generalizing first with
  | nil => rfl
  | cons x xs ih => simp [numbered, ih, Nat.add_comm, Nat.add_left_comm]

@[simp] theorem groups_ofGroups (groups : List (List Item)) :
    (ofGroups groups).groups = groups := by
  simp [ofGroups, Layout.groups]

@[simp] theorem slotCount_ofGroups (groups : List (List Item)) :
    (ofGroups groups).slotCount = groups.length := by
  simp [ofGroups, slotCount]

@[simp] theorem items_ofGroups (groups : List (List Item)) :
    (ofGroups groups).items = groups.flatten := by
  simp [items]

end Layout

end StorageSlots
