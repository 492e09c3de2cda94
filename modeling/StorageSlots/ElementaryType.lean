import StorageSlots.Text.Blank
import StorageSlots.Text.Numeral

/-!
The elementary types: those whose values take a fixed number of bytes that their label tells.

`ElementaryType.parse` reads a label such as `uint128` or `function (uint256) external`, and
`sizeBytes` is the number of bytes that a value takes.
-/

namespace StorageSlots

def slotBits : Nat := 256

def slotBytes : Nat := 32

inductive ElementaryType where
  | uint (bits : Nat)
  | int (bits : Nat)
  | address
  | bool
  | bytes (length : Nat)
  | function (external : Bool)
  | enum
  deriving DecidableEq, Repr

namespace ElementaryType

/-- Sizes are held in one byte, so a width beyond any slot is taken modulo 256. -/
def sizeBytes : ElementaryType → Nat
  | uint bits | int bits => bits / 8 % 256
  | bytes length => length % 256
  | address => 20
  | bool => 1
  | function true => 24
  | function false => 8
  | enum => 1

/-- What follows the parenthesis that closes the first of the `depth` open ones,
or nothing if it stays open. -/
def afterClose : (depth : Nat) → List Char → Option (List Char)
  | _, [] => none
  | depth, '(' :: cs => afterClose (depth + 1) cs
  | 0, ')' :: _ => none
  | 1, ')' :: cs => some cs
  | depth + 2, ')' :: cs => afterClose (depth + 1) cs
  | depth, _ :: cs => afterClose depth cs

/-- The text behind the parameter list of a function label. -/
def afterParameters? (label : List Char) : Option (List Char) :=
  match label.dropWhile (· != '(') with
  | [] => none
  | _ :: cs => afterClose 1 cs

/-- A function is external if `external` stands among the words between its parameter list and its
return list; function types inside either list do not count. -/
def isExternal (label : List Char) : Bool :=
  match afterParameters? label with
  | none => false
  | some cs =>
    ((Text.words cs).takeWhile fun word => !"returns".toList.isPrefixOf word).contains
      "external".toList

def bitWidth? (cs : List Char) : Option Nat :=
  match Text.word64? cs with
  | some n => if 8 ≤ n ∧ n ≤ slotBits ∧ n % 8 = 0 then some n else none
  | none => none

def byteLength? (cs : List Char) : Option Nat :=
  match Text.word64? cs with
  | some n => if 1 ≤ n ∧ n ≤ slotBytes then some n else none
  | none => none

def sized? (label : List Char) : Option ElementaryType :=
  match "uint".toList.isPrefixOf? label with
  | some cs => (bitWidth? cs).map uint
  | none =>
    match "int".toList.isPrefixOf? label with
    | some cs => (bitWidth? cs).map int
    | none =>
      match "bytes".toList.isPrefixOf? label with
      | some cs => (byteLength? cs).map bytes
      | none => none

/-- The type that a label without surrounding blanks names. -/
def ofTrimmed? (label : List Char) : Option ElementaryType :=
  if label = "bool".toList then some bool
  else if label = "address".toList ∨ label = "address payable".toList then some address
  else if label = "byte".toList then some (bytes 1)
  else if label = "uint".toList then some (uint slotBits)
  else if label = "int".toList then some (int slotBits)
  else if "function".toList.isPrefixOf label then some (function (isExternal label))
  else if "enum ".toList.isPrefixOf label then some enum
  else if "contract ".toList.isPrefixOf label then some address
  else if "interface ".toList.isPrefixOf label then some address
  else sized? label

def parse (label : String) : Option ElementaryType :=
  ofTrimmed? (Text.trim label.toList)

end ElementaryType

end StorageSlots
