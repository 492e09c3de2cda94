/-!
JSON values as they are written.

Objects are lists of members: their order and repeated keys are kept, and it is up to a reader of
the value to judge them. A string may hold escapes that leave a surrogate unpaired; such a string is
good JSON, but names no text.
-/

namespace StorageSlots

/-- The text of a JSON string, if it has one. -/
abbrev JsonText := Option String

inductive Json where
  | null
  | bool (b : Bool)
  | natural (n : Nat)
  /-- Any other number, by its spelling. -/
  | numeral (literal : String)
  | string (text : JsonText)
  | array (elements : List Json)
  | object (members : List (JsonText × Json))
  deriving Inhabited

namespace Json

def text (s : String) : Json :=
  string (some s)

def fields (members : List (String × Json)) : Json :=
  object (members.map fun m => (some m.1, m.2))

def option (encode : α → Json) : Option α → Json
  | none => null
  | some a => encode a

def list (encode : α → Json) (xs : List α) : Json :=
  array (xs.map encode)

end Json

end StorageSlots
