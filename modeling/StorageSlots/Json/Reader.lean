import StorageSlots.Json.Lexer

/-!
From tokens to a value.

The reader keeps the arrays and objects that are open on a stack, so nesting may be as deep as it
likes. `read?` accepts a text that holds exactly one value.
-/

namespace StorageSlots.Json

namespace Reader

/-- An open array or object around the value that is being read. -/
inductive Frame where
  /-- The elements so far, the last one first. -/
  | array (done : List Json)
  /-- The members so far, the last one first, and the key of the one to come. -/
  | object (done : List (JsonText × Json)) (key : JsonText)

inductive State where
  | value (stack : List Frame)
  | arrayStart (stack : List Frame)
  | afterElement (done : List Json) (stack : List Frame)
  | objectStart (stack : List Frame)
  | key (done : List (JsonText × Json)) (stack : List Frame)
  | colon (done : List (JsonText × Json)) (key : JsonText) (stack : List Frame)
  | afterMember (done : List (JsonText × Json)) (stack : List Frame)
  | finished (value : Json)

def deliver (v : Json) : List Frame → State
  | [] => .finished v
  | .array done :: stack => .afterElement (v :: done) stack
  | .object done key :: stack => .afterMember ((key, v) :: done) stack

def begin (stack : List Frame) : Token → Option State
  | .null => some (deliver .null stack)
  | .bool b => some (deliver (.bool b) stack)
  | .natural n => some (deliver (.natural n) stack)
  | .numeral literal => some (deliver (.numeral literal) stack)
  | .string text => some (deliver (.string text) stack)
  | .openArray => some (.arrayStart stack)
  | .openObject => some (.objectStart stack)
  | _ => none

def step : State → Token → Option State
  | .value stack, token => begin stack token
  | .arrayStart stack, .closeArray => some (deliver (.array []) stack)
  | .arrayStart stack, token => begin (.array [] :: stack) token
  | .afterElement done stack, .comma => some (.value (.array done :: stack))
  | .afterElement done stack, .closeArray => some (deliver (.array done.reverse) stack)
  | .objectStart stack, .closeObject => some (deliver (.object []) stack)
  | .objectStart stack, .string key => some (.colon [] key stack)
  | .key done stack, .string key => some (.colon done key stack)
  | .colon done key stack, .colon => some (.value (.object done key :: stack))
  | .afterMember done stack, .comma => some (.key done stack)
  | .afterMember done stack, .closeObject => some (deliver (.object done.reverse) stack)
  | _, _ => none

def finish : State → Option Json
  | .finished v => some v
  | _ => none

end Reader

def ofTokens? (tokens : List Token) : Option Json :=
  (tokens.foldlM Reader.step (.value [])).bind Reader.finish

def read? (text : String) : Option Json :=
  (lex text.toList).bind ofTokens?

end StorageSlots.Json
