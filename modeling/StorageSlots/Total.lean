/-!
The total of a list of sizes. It does not depend on their order, and parts add up.
-/

namespace StorageSlots

def total : List Nat → Nat
  | [] => 0
  | n :: ns => n + total ns

@[simp] theorem total_nil : total [] = 0 := rfl

@[simp] theorem total_cons (n : Nat) (ns : List Nat) : total (n :: ns) = n + total ns := rfl

@[simp] theorem total_append (ms ns : List Nat) : total (ms ++ ns) = total ms + total ns := by
  induction ms with
  | nil => simp
  | cons m ms ih => simp [ih, Nat.add_assoc]

theorem total_perm {ms ns : List Nat} (h : ms.Perm ns) : total ms = total ns := by
  induction h with
  | nil => rfl
  | cons n _ ih => simp [ih]
  | swap m n ns => simp [Nat.add_left_comm]
  | trans _ _ ih₁ ih₂ => exact ih₁.trans ih₂

theorem le_total_of_mem {n : Nat} {ns : List Nat} (h : n ∈ ns) : n ≤ total ns := by
  induction h with
  | head ns => exact Nat.le_add_right n _
  | tail m _ ih => exact Nat.le_trans ih (Nat.le_add_left _ m)

theorem total_eq_zero_iff {ns : List Nat} : total ns = 0 ↔ ∀ n ∈ ns, n = 0 := by
  induction ns with
  | nil => simp
  | cons n ns ih => rw [total_cons, Nat.add_eq_zero_iff, ih, List.forall_mem_cons]

theorem total_map_add {α : Type} (f g : α → Nat) (as : List α) :
    total (as.map f) + total (as.map g) = total (as.map fun a => f a + g a) := by
  induction as with
  | nil => rfl
  | cons a as ih =>
    simp only [List.map_cons, total_cons, ← ih]
    omega

end StorageSlots
