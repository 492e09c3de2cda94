import StorageSlots.Layout.Fill

/-!
Filling slots one item at a time.

The layout so far is carried along with the bytes that are free in its last slot. No byte is free if
there is no slot yet, or if a record or an array closed it. Bytes are spent only if there are enough
of them; a step that would spend more has no result.
-/

namespace StorageSlots

def Slot.push (slot : Slot) (item : Item) : Slot :=
  { slot with members := slot.members ++ [item] }

namespace Layout

def openSlot (layout : Layout) : Layout :=
  ⟨layout.slots ++ [⟨layout.slotCount + 1, []⟩]⟩

/-- Puts an item into the last slot, which is opened if there is none. -/
def pushToLast (layout : Layout) (item : Item) : Layout :=
  let opened := if layout.isEmpty then layout.openSlot else layout
  ⟨opened.slots.modify (opened.slotCount - 1) (Slot.push · item)⟩

def pushSlot (layout : Layout) (members : List Item) : Layout :=
  ⟨layout.slots ++ [⟨layout.slotCount + 1, members⟩]⟩

end Layout

structure Filling where
  layout : Layout := ⟨[]⟩
  /-- The bytes that the next item may share. -/
  free : Nat := 0
  deriving DecidableEq, Repr

namespace Filling

def spend? (bytes size : Nat) : Option Nat :=
  if size ≤ bytes then some (bytes - size) else none

def place? (filling : Filling) (item : Item) : Option Filling :=
  if item.isElementary then
    if filling.free < item.byteSize then
      (spend? slotBytes item.byteSize).map fun free =>
        ⟨filling.layout.openSlot.pushToLast item, free⟩
    else
      (spend? filling.free item.byteSize).map fun free => ⟨filling.layout.pushToLast item, free⟩
  else some ⟨filling.layout.pushSlot [item], 0⟩

def run? (items : List Item) : Option Filling :=
  items.foldlM place? {}

theorem spend?_of_le {bytes size : Nat} (h : size ≤ bytes) :
    spend? bytes size = some (bytes - size) :=
  if_pos h

end Filling

end StorageSlots
