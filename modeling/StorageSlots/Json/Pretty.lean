import StorageSlots.Json.Token

/-!
The indented text of a value: every element and every member on a line of its own, two blanks for
each level. Empty arrays and objects stay on their line.
-/

namespace StorageSlots.Json

def newLine (level : Nat) : String :=
  "\n" ++ String.ofList (List.replicate (2 * level) ' ')

mutual

def prettyAt (level : Nat) : Json → String
  | array [] => "[]"
  | array (v :: vs) =>
    "[" ++ newLine (level + 1) ++ prettyAt (level + 1) v ++ prettyElements level vs
  | object [] => "\x7b\x7d"
  | object ((key, v) :: ms) =>
    "\x7b" ++ newLine (level + 1) ++ String.ofList (quote key) ++ ": " ++ prettyAt (level + 1) v ++
      prettyMembers level ms
  | null => "null"
  | bool true => "true"
  | bool false => "false"
  | natural n => toString n
  | numeral literal => literal
  | string text => String.ofList (quote text)

/-- The elements that follow another in an array at the given level. -/
def prettyElements (level : Nat) : List Json → String
  | [] => newLine level ++ "]"
  | v :: vs =>
    "," ++ newLine (level + 1) ++ prettyAt (level + 1) v ++ prettyElements level vs

/-- The members that follow another in an object at the given level. -/
def prettyMembers (level : Nat) : List (JsonText × Json) → String
  | [] => newLine level ++ "\x7d"
  | (key, v) :: ms =>
    "," ++ newLine (level + 1) ++ String.ofList (quote key) ++ ": " ++ prettyAt (level + 1) v ++
      prettyMembers level ms

end

def pretty (value : Json) : String :=
  prettyAt 0 value

end StorageSlots.Json
