import StorageSlots.Proofs.FirstFitLaws
import StorageSlots.Solver
import Mathlib.Data.Multiset.Defs

/-!
What does not depend on the order in which sizes are given.

First-fit decreasing opens the same bins for every order, if bins are known by the sizes in them, and
comes to the same verdict on them. So the exact solver takes the same path to its answer.
-/

namespace StorageSlots

/-- The sizes that share a bin, in no order. -/
def Packing.sizeBins (packing : Packing) (sizes : List Nat) : Multiset (Multiset Nat) :=
  .ofList (packing.bins.map fun bin => .ofList (bin.map (sizeOf sizes)))

namespace FirstFit

theorem sizeBins_pack (sizes : List Nat) (capacity : Nat) :
    (pack sizes capacity).sizeBins sizes =
      .ofList (((bins sizes capacity).map (List.map Entry.size)).map .ofList) := by
  have hperm := (bins_pack_perm sizes capacity).map fun bin =>
    Multiset.ofList (bin.map (Packing.sizeOf sizes))
  rw [Packing.sizeBins, Multiset.coe_eq_coe.mpr hperm, List.map_map, List.map_map]
  refine congrArg _ (List.map_congr_left fun bin hbin => ?_)
  exact Multiset.coe_eq_coe.mpr (map_sizeOf_sortBin_perm hbin)

theorem sizeBins_pack_eq {sizes other : List Nat} (h : sizes.Perm other) (capacity : Nat) :
    (pack sizes capacity).sizeBins sizes = (pack other capacity).sizeBins other := by
  rw [sizeBins_pack, sizeBins_pack, map_size_bins_eq h]

end FirstFit

namespace ExactSolver

variable {exact : ExactSolver} {sizes other : List Nat} {capacity : Nat}

theorem path_eq (exact : ExactSolver) (h : sizes.Perm other) (capacity : Nat) :
    exact.path sizes capacity = exact.path other capacity := by
  rw [path, path, FirstFit.certified_pack_eq h, h.length_eq]

end ExactSolver

theorem firstFit_verdict_perm {sizes other : List Nat} (h : sizes.Perm other) (capacity : Nat) :
    (∃ p q, Solver.firstFit.solve sizes capacity = .ok p ∧
      Solver.firstFit.solve other capacity = .ok q ∧ p.binCount = q.binCount ∧
      p.sizeBins sizes = q.sizeBins other ∧ p.certified = q.certified) ∧
    ∀ exact : ExactSolver, ∃ path, exact.path sizes capacity = path ∧
      exact.path other capacity = path ∧
      exact.solve sizes capacity = exact.answerOn sizes capacity path ∧
      exact.solve other capacity = exact.answerOn other capacity path := by
  constructor
  · exact ⟨_, _, rfl, rfl, FirstFit.binCount_pack_eq h capacity,
      FirstFit.sizeBins_pack_eq h capacity, FirstFit.certified_pack_eq h capacity⟩
  · intro exact
    have hpath := (exact.path_eq h capacity).symm
    exact ⟨_, rfl, hpath, rfl, congrArg (exact.answerOn other capacity) hpath⟩

theorem firstFit_verdict_perm_oversized :
    [20, 33, 12, 20].Perm [12, 20, 20, 33] ∧
    (∃ p q, Solver.firstFit.solve [20, 33, 12, 20] 32 = .ok p ∧
      Solver.firstFit.solve [12, 20, 20, 33] 32 = .ok q ∧ p.binCount = q.binCount ∧
      p.sizeBins [20, 33, 12, 20] = q.sizeBins [12, 20, 20, 33] ∧ p.certified = q.certified) ∧
    ∀ exact : ExactSolver, ∃ path, exact.path [20, 33, 12, 20] 32 = path ∧
      exact.path [12, 20, 20, 33] 32 = path ∧
      exact.solve [20, 33, 12, 20] 32 = exact.answerOn [20, 33, 12, 20] 32 path ∧
      exact.solve [12, 20, 20, 33] 32 = exact.answerOn [12, 20, 20, 33] 32 path := by
  have hperm : [20, 33, 12, 20].Perm [12, 20, 20, 33] := by decide
  exact ⟨hperm, firstFit_verdict_perm hperm 32⟩

end StorageSlots
