/-!
Sets of keys that are lists of numbers.

Keys are stored along the paths of a tree. After `insert`, a set contains the new key and what it
contained before.
-/

namespace StorageSlots

inductive KeySet where
  | node (here : Bool) (next : List (Nat × KeySet))

namespace KeySet

def empty : KeySet :=
  node false []

/-- What follows a number, if anything does. -/
def follow? (n : Nat) : List (Nat × KeySet) → Option KeySet
  | [] => none
  | (m, set) :: next => if m = n then some set else follow? n next

/-- Changes what follows a number, starting from the empty set if nothing does. -/
def adjust (n : Nat) (change : KeySet → KeySet) : List (Nat × KeySet) → List (Nat × KeySet)
  | [] => [(n, change empty)]
  | (m, set) :: next =>
    if m = n then (m, change set) :: next else (m, set) :: adjust n change next

def contains : List Nat → KeySet → Bool
  | [], node here _ => here
  | n :: key, node _ next =>
    match follow? n next with
    | some set => contains key set
    | none => false

def insert : List Nat → KeySet → KeySet
  | [], node _ next => node true next
  | n :: key, node here next => node here (adjust n (insert key) next)

theorem contains_empty (key : List Nat) : contains key empty = false := by
  cases key <;> rfl

theorem follow?_adjust_self (n : Nat) (change : KeySet → KeySet) (next : List (Nat × KeySet)) :
    follow? n (adjust n change next) = some (change ((follow? n next).getD empty)) := by
  induction next with
  | nil => simp [adjust, follow?]
  | cons entry next ih =>
    by_cases h : entry.1 = n
    · simp [adjust, follow?, h]
    · simp [adjust, follow?, h, ih]

theorem follow?_adjust_ne {m n : Nat} (h : m ≠ n) (change : KeySet → KeySet)
    (next : List (Nat × KeySet)) : follow? m (adjust n change next) = follow? m next := by
  induction next with
  | nil => simp [adjust, follow?, h.symm]
  | cons entry next ih =>
    by_cases hn : entry.1 = n
    · simp [adjust, follow?, hn, h.symm]
    · simp [adjust, follow?, hn, ih]

theorem contains_insert (key other : List Nat) (set : KeySet) :
    contains other (insert key set) = (decide (other = key) || contains other set) := by
  induction key generalizing other set with
  | nil =>
    cases set
    cases other <;> simp [insert, contains]
  | cons n key ih =>
    cases set with
    | node here next =>
      cases other with
      | nil => simp [insert, contains]
      | cons m other =>
        by_cases h : m = n
        · subst h
          cases hf : follow? m next <;>
            simp [insert, contains, follow?_adjust_self, ih, contains_empty, hf]
        · simp [insert, contains, follow?_adjust_ne h, h]

end KeySet

end StorageSlots
