/-!
Spans of time in whole nanoseconds, and their text.

A span is written in the largest of the units s, ms, µs and ns that it fills at least once, as a
decimal number that ends in no zero behind the point.
-/

namespace StorageSlots

structure Duration where
  nanoseconds : Nat
  deriving DecidableEq, Repr

namespace Duration

def zero : Duration := ⟨0⟩

def ofMilliseconds (n : Nat) : Duration := ⟨n * 1000000⟩

def ofSeconds (n : Nat) : Duration := ⟨n * 1000000000⟩

/-- The decimals of `rest` in `unit`, down to the last that is not zero; `unit` is `10 ^ places`. -/
def decimals : (places rest unit : Nat) → List Char
  | 0, _, _ => []
  | places + 1, rest, unit =>
    if rest = 0 then []
    else Nat.digitChar (rest * 10 / unit) :: decimals places (rest * 10 % unit) unit

def inUnit (n places : Nat) (unitName : String) : String :=
  let unit := Nat.pow 10 places
  let digits := decimals places (n % unit) unit
  let fraction := if digits.isEmpty then "" else "." ++ String.ofList digits
  toString (n / unit) ++ fraction ++ unitName

def text (duration : Duration) : String :=
  let n := duration.nanoseconds
  if 1000000000 ≤ n then inUnit n 9 "s"
  else if 1000000 ≤ n then inUnit n 6 "ms"
  else if 1000 ≤ n then inUnit n 3 "µs"
  else inUnit n 0 "ns"

end Duration

end StorageSlots
