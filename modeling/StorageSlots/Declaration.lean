import StorageSlots.Item

/-!
Declarations: variables and record members as they stand in a source.

`Declaration.resolve` turns a declaration into the item that is laid out. A record or an array
always takes whole slots. An elementary declaration has the size that it states, or else the size of
the type that its label names.
-/

namespace StorageSlots

structure Declaration where
  name : String
  label : String
  /-- The size in bytes, if it is known. -/
  size : Option Nat := none
  kind : ItemKind := .elementary
  /-- A mapping, or an array of dynamic size. -/
  dynamic : Bool := false
  /-- Declared in a parent contract. -/
  inherited : Bool := false
  deriving DecidableEq, Repr

namespace Declaration

def elementarySize? (declaration : Declaration) : Option Nat :=
  match declaration.size with
  | some size => some size
  | none => (ElementaryType.parse declaration.label).map ElementaryType.sizeBytes

def resolve (declaration : Declaration) (position : Nat) : Except InputFault Item :=
  match declaration.kind with
  | .record => .ok (.record declaration.name declaration.label position)
  | .array => .ok (.array declaration.name declaration.label position)
  | .elementary =>
    match declaration.elementarySize? with
    | some size => Item.elementary declaration.name declaration.label size position
    | none => .error (.unknownSize declaration.name declaration.label)

/-- Whether a declaration takes part in the layout of the contract's storage. -/
def isEligible (declaration : Declaration) : Bool :=
  !declaration.dynamic && !declaration.inherited

end Declaration

end StorageSlots
