import StorageSlots.Json.Token

/-!
From text to tokens.

The lexer goes over the text one character at a time. Outside strings it gathers words, which end at
white space, punctuation or a quotation mark, and have to be a literal or a number. In a string it
decodes escapes; surrogates are joined in pairs.
-/

namespace StorageSlots.Json

structure Draft where
  /-- The characters so far, the last one first. -/
  chars : List Char := []
  /-- A leading surrogate that waits for its trailing one. -/
  lead : Option Nat := none
  /-- Whether a surrogate was left unpaired. -/
  broken : Bool := false
  deriving DecidableEq, Repr

namespace Draft

def isLead (unit : Nat) : Bool :=
  0xD800 ≤ unit && unit < 0xDC00

def isTrail (unit : Nat) : Bool :=
  0xDC00 ≤ unit && unit < 0xE000

def paired (lead trail : Nat) : Char :=
  Char.ofNat (0x10000 + (lead - 0xD800) * 0x400 + (trail - 0xDC00))

def push (draft : Draft) (c : Char) : Draft :=
  ⟨c :: draft.chars, none, draft.broken || draft.lead.isSome⟩

/-- Adds a code unit that is written as an escape. -/
def pushUnit (draft : Draft) (unit : Nat) : Draft :=
  if isLead unit then ⟨draft.chars, some unit, draft.broken || draft.lead.isSome⟩
  else if isTrail unit then
    match draft.lead with
    | some lead => ⟨paired lead unit :: draft.chars, none, draft.broken⟩
    | none => ⟨draft.chars, none, true⟩
  else draft.push (Char.ofNat unit)

def finish (draft : Draft) : JsonText :=
  if draft.broken || draft.lead.isSome then none else some (String.ofList draft.chars.reverse)

end Draft

namespace Lexer

inductive Mode where
  | between
  /-- In a word, with its last character first. -/
  | word (chars : List Char)
  | string (draft : Draft)
  /-- Behind a backslash. -/
  | escape (draft : Draft)
  /-- In a numbered escape, with the digits that are still to come. -/
  | code (draft : Draft) (missing value : Nat)
  deriving DecidableEq, Repr

structure State where
  mode : Mode := .between
  /-- The tokens so far, the last one first. -/
  done : List Token := []
  deriving DecidableEq, Repr

def isSpace (c : Char) : Bool :=
  c == ' ' || c == '\t' || c == '\n' || c == '\r'

def punctuation? (c : Char) : Option Token :=
  if c = '{' then some .openObject
  else if c = '}' then some .closeObject
  else if c = '[' then some .openArray
  else if c = ']' then some .closeArray
  else if c = ':' then some .colon
  else if c = ',' then some .comma
  else none

def hexValue? (c : Char) : Option Nat :=
  if c.isDigit then some (c.toNat - '0'.toNat)
  else if 'a' ≤ c && c ≤ 'f' then some (c.toNat - 'a'.toNat + 10)
  else if 'A' ≤ c && c ≤ 'F' then some (c.toNat - 'A'.toNat + 10)
  else none

def escaped? (c : Char) : Option Char :=
  if c = '"' ∨ c = '\\' ∨ c = '/' then some c
  else if c = 'b' then some '\x08'
  else if c = 'f' then some '\x0c'
  else if c = 'n' then some '\n'
  else if c = 'r' then some '\r'
  else if c = 't' then some '\t'
  else none

/-- Digits at the start of an integer part: 0 stands alone. -/
def isWhole : List Char → Bool
  | [] => false
  | ['0'] => true
  | c :: cs => c != '0' && c.isDigit && cs.all Char.isDigit

def isDigits (cs : List Char) : Bool :=
  !cs.isEmpty && cs.all Char.isDigit

def isExponent : List Char → Bool
  | '+' :: cs => isDigits cs
  | '-' :: cs => isDigits cs
  | cs => isDigits cs

/-- What may stand behind the whole part of a number: a fraction, an exponent, or both. -/
def isTail : List Char → Bool
  | [] => true
  | '.' :: cs =>
    isDigits (cs.takeWhile Char.isDigit) &&
      match cs.dropWhile Char.isDigit with
      | [] => true
      | c :: cs => (c == 'e' || c == 'E') && isExponent cs
  | c :: cs => (c == 'e' || c == 'E') && isExponent cs

def isUnsigned (cs : List Char) : Bool :=
  isWhole (cs.takeWhile Char.isDigit) && isTail (cs.dropWhile Char.isDigit)

def isNumeral : List Char → Bool
  | '-' :: cs => isUnsigned cs
  | cs => isUnsigned cs

def naturalValue (cs : List Char) : Nat :=
  cs.foldl (fun n c => 10 * n + (c.toNat - '0'.toNat)) 0

def ofWord? (cs : List Char) : Option Token :=
  if isWhole cs then some (.natural (naturalValue cs))
  else if cs = "null".toList then some .null
  else if cs = "true".toList then some (.bool true)
  else if cs = "false".toList then some (.bool false)
  else if isNumeral cs then some (.numeral (String.ofList cs))
  else none

def between (done : List Token) (c : Char) : State :=
  if isSpace c then ⟨.between, done⟩
  else if c = '"' then ⟨.string {}, done⟩
  else
    match punctuation? c with
    | some token => ⟨.between, token :: done⟩
    | none => ⟨.word [c], done⟩

def endsWord (c : Char) : Bool :=
  isSpace c || c == '"' || (punctuation? c).isSome

def step (state : State) (c : Char) : Option State :=
  match state.mode with
  | .between => some (between state.done c)
  | .word chars =>
    if endsWord c then
      (ofWord? chars.reverse).map fun token => between (token :: state.done) c
    else some ⟨.word (c :: chars), state.done⟩
  | .string draft =>
    if c = '"' then some ⟨.between, .string draft.finish :: state.done⟩
    else if c = '\\' then some ⟨.escape draft, state.done⟩
    else if c.toNat < 32 then none
    else some ⟨.string (draft.push c), state.done⟩
  | .escape draft =>
    if c = 'u' then some ⟨.code draft 4 0, state.done⟩
    else (escaped? c).map fun c => ⟨.string (draft.push c), state.done⟩
  | .code draft missing value =>
    (hexValue? c).map fun digit =>
      if missing ≤ 1 then ⟨.string (draft.pushUnit (16 * value + digit)), state.done⟩
      else ⟨.code draft (missing - 1) (16 * value + digit), state.done⟩

def finish (state : State) : Option (List Token) :=
  match state.mode with
  | .between => some state.done.reverse
  | .word chars => (ofWord? chars.reverse).map fun token => (token :: state.done).reverse
  | _ => none

end Lexer

def lex (cs : List Char) : Option (List Token) :=
  (cs.foldlM Lexer.step {}).bind Lexer.finish

end StorageSlots.Json
