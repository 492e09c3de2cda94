import StorageSlots.Proofs.Advice
import StorageSlots.Proofs.Resolution

/-!
What the configured minimum of state variables costs.

One or two items already take as few slots as their total size calls for, so no valid packing has
fewer, whatever solver it comes from. A minimum of up to three therefore changes no analysis.
-/

namespace StorageSlots

namespace Offset

theorem next_zero (s : Nat) : next 0 s = s := by
  rw [next]
  split
  · exact Nat.zero_add s
  · exact Nat.zero_add s

theorem slots_next {o s : Nat} (ho : 0 < o ∧ o ≤ slotBytes) (hs : 0 < s ∧ s ≤ slotBytes) :
    slots (next o s) = slots (o + s) := by
  rw [next]
  split
  · rfl
  · -- The item opens the second slot, and the two sizes end in it as well.
    simp only [slots, slotBytes] at *
    omega

theorem slots_after_of_length_lt_three {sizes : List Nat} (h : sizes.length < 3)
    (hsizes : ∀ size ∈ sizes, 0 < size ∧ size ≤ slotBytes) :
    slots (after 0 sizes) = slots (total sizes) := by
  match sizes, h with
  | [], _ => rfl
  | [a], _ => rw [after_cons, after_nil, next_zero, total_cons, total_nil, Nat.add_zero]
  | [a, b], _ =>
    have ha := hsizes a List.mem_cons_self
    have hb := hsizes b (List.mem_cons_of_mem a List.mem_cons_self)
    rw [after_cons, after_cons, after_nil, next_zero, total_cons, total_cons, total_nil,
      Nat.add_zero, slots_next ha hb]

end Offset

namespace Layout

variable {layout : Layout} {items : List Item}

theorem slotCount_ofOrder_of_length_lt_three (h : items.length < 3) :
    (ofOrder items).slotCount = Offset.slots (total (items.map Item.byteSize)) := by
  rw [slotCount_ofOrder]
  apply Offset.slots_after_of_length_lt_three
  · rwa [List.length_map]
  · intro size hsize
    obtain ⟨item, _, rfl⟩ := List.mem_map.mp hsize
    exact ⟨item.byteSize_pos, item.byteSize_le⟩

theorem Arranges.slots_total_le (h : layout.Arranges items) :
    Offset.slots (total (items.map Item.byteSize)) ≤ layout.slotCount := by
  have hfits : ∀ sizes ∈ layout.groups.map (List.map Item.byteSize), total sizes ≤ slotBytes := by
    intro sizes hsizes
    rw [groups, List.map_map] at hsizes
    obtain ⟨slot, hslot, rfl⟩ := List.mem_map.mp hsizes
    exact h.fits slot hslot
  have htotal := Packable.total_flatten_le hfits
  rw [← List.map_flatten, List.length_map, length_groups, Nat.mul_comm] at htotal
  rw [Offset.slots_le_iff, ← total_perm (h.perm.map Item.byteSize)]
  exact htotal

end Layout

theorem compare_eq_tight_of_length_lt_three {items : List Item} (h : items.length < 3)
    (solver : Solver) : compare items solver = .tight := by
  rw [compare]
  cases hpacking : solver.validPacking (elementarySizes items) with
  | error fault => rfl
  | ok packing =>
    have hvalid := (Solver.validPacking_eq_ok_iff.mp hpacking).2
    apply PackingOutcome.between_eq_tight
    rw [Layout.slotCount_ofOrder_of_length_lt_three h]
    exact (Packing.arranges_layout hvalid).slots_total_le

theorem ResolvedContract.analysis_minimum {minimum : Nat} (h : minimum ≤ 3) (solver : Solver)
    (resolved : ResolvedContract) :
    resolved.analysis { solver, minimumVariables := minimum } =
      resolved.analysis { solver, minimumVariables := 0 } := by
  have hstorage : resolved.storageOutcome { solver, minimumVariables := minimum } =
      resolved.storageOutcome { solver, minimumVariables := 0 } := by
    rw [storageOutcome, storageOutcome]
    cases resolved.stateVariables with
    | none => rfl
    | some items =>
      dsimp only
      rw [if_neg (Nat.not_lt_zero items.length)]
      split
      · next hskip =>
        exact (compare_eq_tight_of_length_lt_three (Nat.lt_of_lt_of_le hskip h) solver).symm
      · rfl
  rw [analysis, hstorage]
  rfl

theorem Contract.analyze_minimum {minimum : Nat} (h : minimum ≤ 3) (solver : Solver)
    (contract : Contract) :
    contract.analyze { solver, minimumVariables := minimum } =
      contract.analyze { solver, minimumVariables := 0 } := by
  rw [analyze_eq_map, analyze_eq_map]
  simp only [ResolvedContract.analysis_minimum h solver]

namespace SourceUnit

theorem analyze_minimum_le_three {minimum : Nat} (h : minimum ≤ 3) (solver : Solver) :
    (∀ items : List Item, items.length < minimum → compare items solver = .tight) ∧
    ∀ source : SourceUnit, source.analyze { solver, minimumVariables := minimum } =
      source.analyze { solver, minimumVariables := 0 } := by
  constructor
  · intro items hskip
    exact compare_eq_tight_of_length_lt_three (Nat.lt_of_lt_of_le hskip h) solver
  · intro source
    rw [analyze, analyze]
    cases source.primary with
    | error fault => rfl
    | ok contract => exact contract.analyze_minimum h solver

/-- Puts everything into one bin. -/
def crammed : Solver where
  description := "Crammed"
  solve sizes _ := .ok (.ofBins [List.range sizes.length] true)
  journal _ _ := []

def pair : Contract :=
  { vault with stateVariables := vault.stateVariables.take 2 }

theorem analyze_minimum_le_three_crammed :
    3 ≤ 3 ∧ compare (valuesOf [20, 20]) crammed = .tight ∧
    analyze ⟨[pair]⟩ { solver := crammed, minimumVariables := 3 } =
      analyze ⟨[pair]⟩ { solver := crammed, minimumVariables := 0 } := by
  have h : 3 ≤ 3 := Nat.le_refl 3
  obtain ⟨hskip, hanalyze⟩ := analyze_minimum_le_three h crammed
  exact ⟨h, hskip _ (by decide), hanalyze ⟨[pair]⟩⟩

/-- A minimum of four loses what an order of three variables spares. -/
example :
    (vault.resolved.storageOutcome ⟨.firstFit, 4⟩).sparedSlots = 0 ∧
      (vault.resolved.storageOutcome ⟨.firstFit, 3⟩).sparedSlots = 1 := by
  cbv

end SourceUnit

end StorageSlots
