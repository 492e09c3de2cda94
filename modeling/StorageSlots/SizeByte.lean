import StorageSlots.Declaration

/-!
Sizes as they are kept: in one byte.

A stated size is converted to a byte first, which fails for a number beyond any byte, and is then
held against the range of an item. The size of a type comes as a byte already.
-/

namespace StorageSlots

def byte? (n : Nat) : Option UInt8 :=
  if n < UInt8.size then some (UInt8.ofNat n) else none

def sizeByte? (size : Nat) : Option UInt8 :=
  match byte? size with
  | some byte => if 1 ≤ byte.toNat ∧ byte.toNat ≤ slotBytes then some byte else none
  | none => none

/-- The byte that an item holds for the size of its declaration. -/
def Declaration.sizeByte (declaration : Declaration) : Except InputFault UInt8 :=
  match declaration.kind with
  | .record | .array => .ok (UInt8.ofNat slotBytes)
  | .elementary =>
    match declaration.elementarySize? with
    | none => .error (.unknownSize declaration.name declaration.label)
    | some size =>
      match sizeByte? size with
      | none => .error (.invalidByteSize declaration.name size)
      | some byte => .ok byte

end StorageSlots
