import StorageSlots.Files.System

/-!
Patterns for paths, and the paths that match them.

A pattern is cut at its slashes. In each part a question mark stands for any character, a star for
any characters, and brackets for one character of a class. The part `**` stands for any number of
directories. Paths come in the order of their names, a path before what lies below it.
-/

namespace StorageSlots

namespace Glob

inductive Token where
  | char (c : Char)
  | anyChar
  | anyRun
  /-- A class of characters; a negated one holds the characters outside of it. -/
  | oneOf (negated : Bool) (ranges : List (Char × Char))
  deriving DecidableEq, Repr

inductive Part where
  | plain (tokens : List Token)
  | anyDepth
  deriving DecidableEq, Repr

def ranges : List Char → List (Char × Char)
  | a :: '-' :: b :: cs => (a, b) :: ranges cs
  | a :: cs => (a, a) :: ranges cs
  | [] => []

mutual

/-- The tokens of a part, if brackets are closed and no two stars stand together. -/
def tokens? : List Char → Option (List Token)
  | [] => some []
  | '?' :: cs => (tokens? cs).map (.anyChar :: ·)
  | '*' :: '*' :: _ => none
  | '*' :: cs => (tokens? cs).map (.anyRun :: ·)
  | '[' :: '!' :: c :: cs => classTokens? true [c] cs
  | '[' :: c :: cs => if c = '!' then none else classTokens? false [c] cs
  | ['['] => none
  | c :: cs => (tokens? cs).map (.char c :: ·)

/-- The tokens from within brackets, where `body` holds what was read there, last first. -/
def classTokens? (negated : Bool) (body : List Char) : List Char → Option (List Token)
  | [] => none
  | ']' :: cs => (tokens? cs).map (.oneOf negated (ranges body.reverse) :: ·)
  | c :: cs => classTokens? negated (c :: body) cs

end

def part? (text : String) : Option Part :=
  if text = "**" then some .anyDepth else (tokens? text.toList).map .plain

/-- The parts of a pattern; what follows a slash at its end does not count if it is empty. -/
def parts? (pattern : String) : Option (List Part) :=
  let texts := pattern.splitOn "/"
  let texts := if texts.getLast? = some "" then texts.dropLast else texts
  texts.mapM part?

/-- Whether some end of the list, itself included, satisfies `p`. -/
def anyEnd (p : List Char → Bool) : List Char → Bool
  | [] => p []
  | c :: cs => p (c :: cs) || anyEnd p cs

def inRanges (ranges : List (Char × Char)) (c : Char) : Bool :=
  ranges.any fun r => r.1 ≤ c && c ≤ r.2

def matchesTokens : List Token → List Char → Bool
  | [], cs => cs.isEmpty
  | .anyRun :: ts, cs => anyEnd (matchesTokens ts) cs
  | _ :: _, [] => false
  | .char c :: ts, d :: cs => c == d && matchesTokens ts cs
  | .anyChar :: ts, _ :: cs => matchesTokens ts cs
  | .oneOf negated ranges :: ts, d :: cs =>
    (inRanges ranges d != negated) && matchesTokens ts cs

/-- The name that a part without special characters spells. -/
def literal? : List Token → Option (List Char)
  | [] => some []
  | .char c :: ts => (literal? ts).map (c :: ·)
  | _ => none

def startsWithDot : List Token → Bool
  | .char '.' :: _ => true
  | _ => false

/-- Whether a path is a way of writing the current directory. -/
def isHere (path : String) : Bool :=
  path.startsWith "." && (path.splitOn "/").all fun part => part == "" || part == "."

def join (path name : String) : String :=
  if path.endsWith "/" then path ++ name else path ++ "/" ++ name

/-- The path of a name in a directory; in the current one names stand alone. -/
def child (path name : String) : String :=
  if isHere path then name else join path name

section Expand

variable {m : Type → Type} [Monad m] (files : FileSystem m)

def sortedEntries (path : String) : m (List String) := do
  let names ← files.entries path
  return names.mergeSort fun a b => decide (a ≤ b)

def isDirectory (path : String) : m Bool := do
  return (← files.kind? path) = some .directory

def gather {α : Type} (f : α → m (List String)) : List α → m (List String)
  | [] => pure []
  | a :: as => do
    let first ← f a
    let later ← gather f as
    return first ++ later

def skipDepths : List Part → List Part
  | .anyDepth :: parts => skipDepths parts
  | parts => parts

/-- The paths at or below `path` that match the parts. Every step makes the path longer or uses up a
part, so `fuel` need not exceed the length of the longest path and the number of parts together. -/
def below : (fuel : Nat) → (parts : List Part) → (path : String) → (inDirectory : Bool) →
    m (List String)
  | 0, _, _, _ => pure []
  | _ + 1, [], path, _ => pure [path]
  | fuel + 1, .anyDepth :: parts, path, inDirectory =>
    if inDirectory then do
      let names ← sortedEntries files path
      gather (fun name => do
        let path := child path name
        let inDirectory ← isDirectory files path
        let here ←
          match skipDepths parts with
          | .plain tokens :: parts =>
            if matchesTokens tokens name.toList then below fuel parts path inDirectory
            else pure []
          | _ => pure (if inDirectory then [path] else [])
        let deeper ←
          if inDirectory then below fuel (.anyDepth :: parts) path inDirectory else pure []
        return here ++ deeper) names
    else pure []
  | fuel + 1, .plain tokens :: parts, path, inDirectory =>
    match literal? tokens with
    | some name => do
      let name := String.ofList name
      let path := child path name
      let kind ← files.kind? path
      let reached := if name = "." ∨ name = ".." then inDirectory else kind.isSome
      if reached then below fuel parts path (kind == some .directory) else pure []
    | none =>
      if inDirectory then do
        let dots := if startsWithDot tokens then ["..", "."] else []
        let special ← gather (fun name => do
          let path := join path name
          below fuel parts path (← isDirectory files path))
          (dots.filter fun name => matchesTokens tokens name.toList)
        let names ← sortedEntries files path
        let ordinary ← gather (fun name => do
          let path := child path name
          below fuel parts path (← isDirectory files path))
          (names.filter fun name => matchesTokens tokens name.toList)
        return special ++ ordinary
      else pure []

/-- The paths that match a pattern, or nothing if it is not well formed. -/
def expand (pattern : String) : m (Option (List String)) :=
  match parts? pattern with
  | none => pure none
  | some parts => do
    let fuel := pathLimit + parts.length
    let start := if pattern.startsWith "/" then "/" else "."
    let parts := if pattern.startsWith "/" then parts.drop 1 else parts
    return some (← below files fuel parts start (← isDirectory files start))

end Expand

end Glob

end StorageSlots
