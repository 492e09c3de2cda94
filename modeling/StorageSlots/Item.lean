import StorageSlots.ElementaryType
import StorageSlots.Fault

/-!
Items: the things that are laid out in slots.

An elementary item takes between 1 and 32 bytes and can share a slot. A record or an array takes
whole slots, and stands for them as one item of 32 bytes. Both bounds are part of the type.
-/

namespace StorageSlots

inductive ItemKind where
  | elementary
  | record
  | array
  deriving DecidableEq, Repr

namespace ItemKind

def Admits (kind : ItemKind) (size : Nat) : Prop :=
  1 ≤ size ∧ size ≤ slotBytes ∧ (kind ≠ elementary → size = slotBytes)

theorem admits_slotBytes (kind : ItemKind) : kind.Admits slotBytes :=
  ⟨by decide, Nat.le_refl _, fun _ => rfl⟩

end ItemKind

structure Item where
  name : String
  label : String
  byteSize : Nat
  kind : ItemKind
  /-- The place of the item in the sequence in which it was declared. -/
  position : Nat
  admitted : kind.Admits byteSize
  deriving DecidableEq, Repr

namespace Item

/-- An elementary item, if its size fits in a slot. -/
def elementary (name label : String) (size position : Nat) : Except InputFault Item :=
  if h : 1 ≤ size ∧ size ≤ slotBytes then
    .ok ⟨name, label, size, .elementary, position, ⟨h.1, h.2, fun hk => absurd rfl hk⟩⟩
  else .error (.invalidByteSize name size)

def record (name label : String) (position : Nat) : Item :=
  ⟨name, label, slotBytes, .record, position, ItemKind.admits_slotBytes _⟩

def array (name label : String) (position : Nat) : Item :=
  ⟨name, label, slotBytes, .array, position, ItemKind.admits_slotBytes _⟩

def isElementary (item : Item) : Bool :=
  item.kind = .elementary

def display (item : Item) : String :=
  item.label ++ " " ++ item.name

theorem byteSize_pos (item : Item) : 0 < item.byteSize :=
  item.admitted.1

theorem byteSize_le (item : Item) : item.byteSize ≤ slotBytes :=
  item.admitted.2.1

theorem byteSize_of_not_isElementary {item : Item} (h : item.isElementary = false) :
    item.byteSize = slotBytes :=
  item.admitted.2.2 (by simpa [isElementary] using h)

end Item

end StorageSlots
