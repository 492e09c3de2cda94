/-!
Decimal numerals and their values.

`digits?` reads a non-empty run of ASCII digits of any length. `word64?` is the form in which sizes
and counts are written: an optional plus sign, then digits, with a value below 2^64.
-/

namespace StorageSlots.Text

def digitValue (c : Char) : Nat :=
  c.toNat - '0'.toNat

/-- The value of a digit sequence, on top of the value `n` of the digits before it. -/
def valueFrom (n : Nat) (cs : List Char) : Nat :=
  cs.foldl (fun n c => 10 * n + digitValue c) n

def digits? (cs : List Char) : Option Nat :=
  if cs.isEmpty || !cs.all Char.isDigit then none else some (valueFrom 0 cs)

def wordLimit : Nat := 18446744073709551616

def word64? (cs : List Char) : Option Nat :=
  let digits := match cs with
    | '+' :: cs => cs
    | cs => cs
  match digits? digits with
  | some n => if n < wordLimit then some n else none
  | none => none

theorem digits?_nil : digits? [] = none := rfl

end StorageSlots.Text
