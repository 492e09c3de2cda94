import StorageSlots.Json.Value

/-!
Tokens of JSON, their texts, and the compact text of a value.

In a string the quotation mark, the backslash and the characters below U+0020 are escaped, by a
letter where there is one. A string without a text is written as an unpaired surrogate.
-/

namespace StorageSlots.Json

inductive Token where
  | openObject
  | closeObject
  | openArray
  | closeArray
  | colon
  | comma
  | null
  | bool (b : Bool)
  | natural (n : Nat)
  | numeral (literal : String)
  | string (text : JsonText)
  deriving DecidableEq, Repr

def hexDigit (n : Nat) : Char :=
  Nat.digitChar (n % 16)

def escape (c : Char) : List Char :=
  if c = '"' then ['\\', '"']
  else if c = '\\' then ['\\', '\\']
  else if c = '\n' then ['\\', 'n']
  else if c = '\r' then ['\\', 'r']
  else if c = '\t' then ['\\', 't']
  else if c.toNat = 8 then ['\\', 'b']
  else if c.toNat = 12 then ['\\', 'f']
  else if c.toNat < 32 then ['\\', 'u', '0', '0', hexDigit (c.toNat / 16), hexDigit c.toNat]
  else [c]

def quote : JsonText → List Char
  | some s => '"' :: s.toList.flatMap escape ++ ['"']
  | none => "\"\\ud800\"".toList

namespace Token

def text : Token → List Char
  | openObject => ['{']
  | closeObject => ['}']
  | openArray => ['[']
  | closeArray => [']']
  | colon => [':']
  | comma => [',']
  | null => "null".toList
  | bool true => "true".toList
  | bool false => "false".toList
  | natural n => (toString n).toList
  | numeral literal => literal.toList
  | string text => quote text

end Token

mutual

def tokens : Json → List Token
  | null => [.null]
  | bool b => [.bool b]
  | natural n => [.natural n]
  | numeral literal => [.numeral literal]
  | string text => [.string text]
  | array [] => [.openArray, .closeArray]
  | array (v :: vs) => .openArray :: tokens v ++ moreElements vs
  | object [] => [.openObject, .closeObject]
  | object ((key, v) :: ms) => .openObject :: .string key :: .colon :: tokens v ++ moreMembers ms

/-- The tokens of the elements that follow another, up to the end of the array. -/
def moreElements : List Json → List Token
  | [] => [.closeArray]
  | v :: vs => .comma :: tokens v ++ moreElements vs

/-- The tokens of the members that follow another, up to the end of the object. -/
def moreMembers : List (JsonText × Json) → List Token
  | [] => [.closeObject]
  | (key, v) :: ms => .comma :: .string key :: .colon :: tokens v ++ moreMembers ms

end

def compact (value : Json) : String :=
  String.ofList (value.tokens.flatMap Token.text)

end StorageSlots.Json
