import StorageSlots.Proofs.Naming

/-!
The sizes of the types that labels name.

A value of such a type takes whole bytes, at least one and at most those of a slot. So its size in
bytes is exact, although sizes are held in one byte.
-/

namespace StorageSlots

namespace ElementaryType

/-- The bits that a value takes in storage. -/
def storedBits : ElementaryType → Nat
  | uint bits | int bits => bits
  | bytes length => 8 * length
  | address => 160
  | bool => 8
  | function true => 192
  | function false => 64
  | enum => 8

/-- A value takes whole bytes, at least one and at most those of a slot. -/
def Bounded (type : ElementaryType) : Prop :=
  8 ≤ type.storedBits ∧ type.storedBits ≤ slotBits ∧ type.storedBits % 8 = 0

instance (type : ElementaryType) : Decidable type.Bounded :=
  inferInstanceAs (Decidable (_ ∧ _))

variable {type : ElementaryType}

theorem Bounded.eight_mul_sizeBytes (h : type.Bounded) : 8 * type.sizeBytes = type.storedBits := by
  obtain ⟨-, hle, hwhole⟩ := h
  cases type with
  | uint bits | int bits =>
    simp only [storedBits, sizeBytes, slotBits] at *
    omega
  | bytes length =>
    simp only [storedBits, sizeBytes, slotBits] at *
    omega
  | function external => cases external <;> rfl
  | address | bool | enum => rfl

theorem Bounded.sizeBytes_mem (h : type.Bounded) :
    1 ≤ type.sizeBytes ∧ type.sizeBytes ≤ slotBytes := by
  have hsize := h.eight_mul_sizeBytes
  obtain ⟨hpos, hle, -⟩ := h
  simp only [slotBits, slotBytes] at *
  omega

theorem bounded_function (external : Bool) : (function external).Bounded := by
  cases external <;> decide

theorem Names.bounded {label : List Char} (h : Names label type) : type.Bounded := by
  cases h with
  | bool | address | payable | byte | uint | int => decide
  | function => exact bounded_function _
  | enum | contract | interface => decide
  | sizedUint _ hmin hmax hwhole | sizedInt _ hmin hmax hwhole => exact ⟨hmin, hmax, hwhole⟩
  | sizedBytes _ hmin hmax =>
    simp only [Bounded, storedBits, slotBits, slotBytes] at *
    omega

theorem bounded_of_parse {label : String} (h : parse label = some type) : type.Bounded :=
  (names_of_ofTrimmed? h).bounded

end ElementaryType

end StorageSlots
