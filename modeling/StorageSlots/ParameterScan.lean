import StorageSlots.ElementaryType

/-!
The scan for the end of a parameter list, with its counter of open parentheses.

`scanDepth` counts for itself, also the first parenthesis, and has no result where the counter would
fall below zero.
-/

namespace StorageSlots

namespace ElementaryType

def scanDepth : (depth : Nat) → List Char → Option (Option (List Char))
  | _, [] => some none
  | depth, '(' :: cs => scanDepth (depth + 1) cs
  | 0, ')' :: _ => none
  | depth + 1, ')' :: cs => if depth = 0 then some (some cs) else scanDepth depth cs
  | depth, _ :: cs => scanDepth depth cs

def scanParameters (label : List Char) : Option (Option (List Char)) :=
  scanDepth 0 (label.dropWhile (· != '('))

end ElementaryType

end StorageSlots
