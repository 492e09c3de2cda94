import StorageSlots.Json.Value
import StorageSlots.Text.Numeral

/-!
Decoding JSON values into data of known shape.

A structure is given as an object or as the array of its fields in their order. In an object unknown
members are skipped and a known field must not be repeated; in an array fields may be missing at the
end but there must not be too many.
-/

namespace StorageSlots

/-- What keeps a value from having the expected shape. -/
inductive DecodeFault where
  | notJson
  | expected (what : String)
  | badKey
  | repeatedField (name : String)
  | missingField (name : String)
  | tooManyElements (limit : Nat)
  deriving DecidableEq, Repr

def DecodeFault.message : DecodeFault → String
  | notJson => "the text is not a JSON value"
  | expected what => s!"expected {what}"
  | badKey => "a key has an unpaired surrogate"
  | repeatedField name => s!"duplicate field `{name}`"
  | missingField name => s!"missing field `{name}`"
  | tooManyElements limit => s!"expected at most {limit} elements"

namespace Json

def repeated? : List (String × Json) → Option String
  | [] => none
  | (key, _) :: ms => if ms.any (·.1 == key) then some key else repeated? ms

/-- The members of an object, if each key has a text. -/
def named? : List (JsonText × Json) → Option (List (String × Json))
  | [] => some []
  | (some key, v) :: ms => (named? ms).map ((key, v) :: ·)
  | (none, _) :: _ => none

/-- The fields that a structure is given, among those with the given names. -/
def structureFields (names : List String) : Json → Except DecodeFault (List (String × Json))
  | array vs =>
    if names.length < vs.length then .error (.tooManyElements names.length)
    else .ok (names.zip vs)
  | object ms =>
    match named? ms with
    | none => .error .badKey
    | some ms =>
      let known := ms.filter fun m => names.contains m.1
      match repeated? known with
      | some name => .error (.repeatedField name)
      | none => .ok known
  | _ => .error (.expected "a structure")

def fieldOr (fields : List (String × Json)) (name : String) (default : α)
    (decode : Json → Except DecodeFault α) : Except DecodeFault α :=
  match fields.lookup name with
  | some v => decode v
  | none => .ok default

def field (fields : List (String × Json)) (name : String)
    (decode : Json → Except DecodeFault α) : Except DecodeFault α :=
  match fields.lookup name with
  | some v => decode v
  | none => .error (.missingField name)

def decodeText : Json → Except DecodeFault String
  | string (some s) => .ok s
  | _ => .error (.expected "a string")

def decodeBool : Json → Except DecodeFault Bool
  | bool b => .ok b
  | _ => .error (.expected "a boolean")

/-- A number that fits in a 64-bit word, or nothing. -/
def decodeWord? : Json → Except DecodeFault (Option Nat)
  | null => .ok none
  | natural n =>
    if n < Text.wordLimit then .ok (some n) else .error (.expected "a 64-bit number")
  | _ => .error (.expected "a 64-bit number")

/-- One of several names: as a string, or as the only key of an object that maps it to `null`. -/
def decodeName (choices : List (String × α)) : Json → Except DecodeFault α
  | string (some s) | object [(some s, null)] =>
    match choices.lookup s with
    | some a => .ok a
    | none => .error (.expected "a known name")
  | _ => .error (.expected "a name")

def decodeList (decode : Json → Except DecodeFault α) : Json → Except DecodeFault (List α)
  | array vs => vs.mapM decode
  | _ => .error (.expected "an array")

end Json

end StorageSlots
