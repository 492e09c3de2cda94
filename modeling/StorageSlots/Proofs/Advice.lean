import StorageSlots.Proofs.Comparison
import StorageSlots.Proofs.Exactness
import Mathlib.Data.List.Permutation
import Mathlib.Order.Bounds.Defs

/-!
How much the provided solvers spare.

With a search that completes, an outcome spares as many slots as any order of the items can. In any
case, declaring the items as the layout says takes exactly the slots of the layout. It leaves nothing
more to spare, unless a search is abandoned on one order of the items and completes on the other.
-/

namespace StorageSlots

/-- The numbers of slots that the orders of the items take. -/
def Layout.orderCounts (items : List Item) : Set Nat :=
  {n | ∃ order : List Item, order.Perm items ∧ (Layout.ofOrder order).slotCount = n}

theorem Packing.Optimal.isLeast {packing : Packing} {items : List Item}
    (h : packing.Optimal (elementarySizes items) slotBytes) :
    IsLeast (Layout.orderCounts items) (packing.layout items).slotCount := by
  constructor
  · have hperm := items_layout_perm h.valid
    refine ⟨_, hperm, ?_⟩
    apply Nat.le_antisymm
    · exact slotCount_ofOrder_layout_le h.valid
    · exact h.slotCount_layout_le hperm
  · rintro n ⟨order, hperm, rfl⟩
    exact h.slotCount_layout_le hperm

section Spared

variable {items : List Item} {solver : Solver} {fewest : Nat}

theorem sparedSlots_add_le (solver : Solver) (h : IsLeast (Layout.orderCounts items) fewest) :
    (compare items solver).sparedSlots + fewest ≤ (Layout.ofOrder items).slotCount := by
  cases hlayout : (compare items solver).optimized with
  | none =>
    rw [PackingOutcome.sparedSlots_of_none hlayout, Nat.zero_add]
    exact h.2 ⟨items, .refl items, rfl⟩
  | some layout =>
    obtain ⟨packing, _, hvalid, rfl, hlt, hspared⟩ := compare_optimized hlayout
    have hfewest : fewest ≤ (Layout.ofOrder (packing.layout items).items).slotCount :=
      h.2 ⟨_, Packing.items_layout_perm hvalid, rfl⟩
    have hle := Packing.slotCount_ofOrder_layout_le hvalid
    omega

theorem sparedSlots_add_eq {packing : Packing}
    (hpacking : solver.packing (elementarySizes items) = .ok packing)
    (hoptimal : packing.Optimal (elementarySizes items) slotBytes) :
    (compare items solver).sparedSlots + (packing.layout items).slotCount =
      (Layout.ofOrder items).slotCount := by
  have hdeclared : (packing.layout items).slotCount ≤ (Layout.ofOrder items).slotCount :=
    hoptimal.isLeast.2 ⟨items, .refl items, rfl⟩
  rw [compare_of_valid hpacking hoptimal.valid, PackingOutcome.sparedSlots_between]
  omega

theorem sparedSlots_firstFit_le {packing : Packing}
    (hpacking : solver.packing (elementarySizes items) = .ok packing)
    (hoptimal : packing.Optimal (elementarySizes items) slotBytes) :
    (compare items .firstFit).sparedSlots ≤ (compare items solver).sparedSlots := by
  have hfirst := sparedSlots_add_le .firstFit hoptimal.isLeast
  have hexact := sparedSlots_add_eq hpacking hoptimal
  omega

end Spared

def valuesOf (sizes : List Nat) : List Item :=
  sizes.filterMap fun size => (Item.elementary "value" "bytes" size 0).toOption

/-- Items in six slots. First-fit decreasing finds five, a search four. -/
def scattered : List Item :=
  valuesOf [10] ++ [.record "first" "Data" 1] ++ valuesOf [11, 11, 12] ++
    [.record "second" "Data" 5] ++ valuesOf [10, 10]

theorem sparedSlots_add_least (items : List Item) (exact : ExactSolver)
    (hengine : exact.engine.Lawful) (h : exact.Completes (elementarySizes items) slotBytes) :
    ∃ fewest, IsLeast (Layout.orderCounts items) fewest ∧
      (compare items exact.solver).sparedSlots + fewest = (Layout.ofOrder items).slotCount ∧
      ((compare items exact.solver).isTight = true ↔
        ∀ order : List Item, order.Perm items →
          (Layout.ofOrder items).slotCount ≤ (Layout.ofOrder order).slotCount) := by
  obtain ⟨packing, hpacking, hoptimal⟩ := Solver.packing_exact_of_completes hengine h
    (elementarySizes_pos items) (elementarySizes_le items)
  have hleast := hoptimal.isLeast
  have hspared := sparedSlots_add_eq hpacking hoptimal
  refine ⟨_, hleast, hspared, ?_⟩
  rw [PackingOutcome.isTight, beq_iff_eq]
  constructor
  · intro htight order hperm
    have hle := hleast.2 ⟨order, hperm, rfl⟩
    omega
  · intro hall
    obtain ⟨order, hperm, hcount⟩ := hleast.1
    have hle := hall order hperm
    omega

theorem completes_scattered :
    ExactSolver.patient.Completes (elementarySizes scattered) slotBytes :=
  ExactSolver.completes_patient (by decide)

theorem sparedSlots_add_least_scattered :
    ExactSolver.patient.engine.Lawful ∧
    ExactSolver.patient.Completes (elementarySizes scattered) slotBytes ∧
    ∃ fewest, IsLeast (Layout.orderCounts scattered) fewest ∧
      (compare scattered ExactSolver.patient.solver).sparedSlots + fewest =
        (Layout.ofOrder scattered).slotCount ∧
      ((compare scattered ExactSolver.patient.solver).isTight = true ↔
        ∀ order : List Item, order.Perm scattered →
          (Layout.ofOrder scattered).slotCount ≤ (Layout.ofOrder order).slotCount) :=
  ⟨ExactSolver.patient_lawful, completes_scattered,
    sparedSlots_add_least scattered .patient ExactSolver.patient_lawful completes_scattered⟩

theorem compare_exact_of_not_completes {items : List Item} {exact : ExactSolver}
    (h : ¬ exact.Completes (elementarySizes items) slotBytes) :
    compare items exact.solver = compare items .firstFit :=
  compare_congr (Solver.packing_exact_of_not_completes h)

def hurried : ExactSolver :=
  { maximumItems := 3 }

theorem certified_pack_scattered :
    (FirstFit.pack (elementarySizes scattered) slotBytes).certified = false := by
  cbv

theorem optimized_firstFit_scattered :
    ((compare scattered .firstFit).optimized.isSome) = true := by
  cbv

theorem optimized_scattered :
    ∃ layout, (compare scattered hurried.solver).optimized = some layout := by
  have hrefused : ¬ hurried.Completes (elementarySizes scattered) slotBytes := by
    rintro (hcertified | ⟨hcount, -⟩)
    · rw [certified_pack_scattered] at hcertified
      cases hcertified
    · exact absurd hcount (by decide)
  rw [compare_exact_of_not_completes hrefused]
  exact Option.isSome_iff_exists.mp optimized_firstFit_scattered

theorem optimized_scattered_of_search :
    ∃ layout, (compare scattered ExactSolver.patient.solver).optimized = some layout := by
  obtain ⟨packing, hpacking, hoptimal⟩ := Solver.packing_exact_of_completes
    ExactSolver.patient_lawful completes_scattered (elementarySizes_pos _) (elementarySizes_le _)
  have hspared := (PackingOutcome.present_iff _).mp optimized_firstFit_scattered
  have hle := sparedSlots_firstFit_le hpacking hoptimal
  rw [← Option.isSome_iff_exists, PackingOutcome.present_iff]
  exact Nat.lt_of_lt_of_le hspared hle

section Provided

variable {solver : Solver} {items : List Item} {packing : Packing} {layout : Layout}

theorem FirstFit.crowded_groups_layout (items : List Item) :
    ∃ least, Crowded slotBytes least
      (((pack (elementarySizes items) slotBytes).layout items).groups.map
        (List.map Item.byteSize)) := by
  have hvalid := pack_valid (elementarySizes_le items)
  rw [Packing.map_byteSize_groups_layout hvalid]
  apply Crowded.exists_append_full (crowded_pack (elementarySizes_pos items) slotBytes)
  · intro bin hbin size hsize
    obtain ⟨raw, hraw, rfl⟩ := List.mem_map.mp hbin
    exact Nat.le_trans (le_total_of_mem hsize) (hvalid.fits raw hraw)
  · decide

theorem Solver.Provided.slotCount_regrouped (hs : solver.Provided)
    (h : solver.packing (elementarySizes items) = .ok packing) {groups : List (List Item)}
    (hgroups : Layout.Regrouped (packing.layout items).groups groups) :
    (Layout.ofOrder groups.flatten).slotCount = (packing.layout items).slotCount := by
  have hvalid := hs.packing_valid (elementarySizes_pos items) (elementarySizes_le items) h
  have hlength := hgroups.length_eq
  rw [Layout.length_groups] at hlength
  apply Nat.le_antisymm
  · rw [hlength]
    apply Layout.slotCount_ofOrder_flatten_le
    intro group hgroup
    obtain ⟨g, hg, hperm⟩ := hgroups.exists_perm hgroup
    rw [← total_perm (hperm.map Item.byteSize)]
    exact Packing.total_le_of_mem_groups_layout hvalid g hg
  · rcases hs.eq_pack_or_optimal (elementarySizes_pos items) h with
      rfl | hoptimal
    · obtain ⟨least, hcrowded⟩ := FirstFit.crowded_groups_layout items
      rw [← Layout.length_groups]
      exact Layout.length_le_slotCount_ofOrder hcrowded hgroups
    · have hperm := Packing.items_layout_perm hvalid
      exact hoptimal.slotCount_layout_le (hgroups.flatten_perm.symm.trans hperm)

theorem compare_optimized_tight (hs : solver.Steady)
    (h : (compare items solver).optimized = some layout) :
    compare layout.items solver = .tight := by
  obtain ⟨packing, hpacking, hvalid, rfl, -, -⟩ := compare_optimized h
  have hperm := Packing.items_layout_perm hvalid
  have hsizes := elementarySizes_perm hperm.symm
  obtain ⟨p, again, hp, hagain, hcount⟩ := hs.binCount_perm hsizes (elementarySizes_pos items)
    (elementarySizes_le items)
  rw [hpacking] at hp
  cases hp
  have hvalidAgain :=
    hs.provided.packing_valid (elementarySizes_pos _) (elementarySizes_le _) hagain
  rw [compare_of_valid hagain hvalidAgain]
  apply PackingOutcome.between_eq_tight
  calc (Layout.ofOrder (packing.layout items).items).slotCount
      ≤ (packing.layout items).slotCount := Packing.slotCount_ofOrder_layout_le hvalid
    _ = packing.binCount + (compositeItems items).length := packing.slotCount_layout items
    _ = again.binCount + (compositeItems (packing.layout items).items).length := by
      rw [hcount, length_compositeItems_perm hperm]
    _ = (again.layout (packing.layout items).items).slotCount := (again.slotCount_layout _).symm

theorem compare_optimized_tight_scattered :
    ExactSolver.patient.Completes (elementarySizes scattered) slotBytes ∧
    (FirstFit.pack (elementarySizes scattered) slotBytes).certified = false ∧
    ∀ exact ∈ [ExactSolver.patient, hurried], exact.solver.Steady ∧
      ∃ layout, (compare scattered exact.solver).optimized = some layout ∧
        compare layout.items exact.solver = .tight := by
  refine ⟨completes_scattered, certified_pack_scattered, ?_⟩
  rw [List.forall_mem_cons, List.forall_mem_singleton]
  constructor
  · obtain ⟨layout, h⟩ := optimized_scattered_of_search
    have hs : ExactSolver.patient.solver.Steady :=
      .exact .patient ExactSolver.patient_lawful (ExactSolver.steady_of_batched rfl)
    exact ⟨hs, layout, h, compare_optimized_tight hs h⟩
  · obtain ⟨layout, h⟩ := optimized_scattered
    have hs : hurried.solver.Steady :=
      .exact hurried Search.engine_lawful (ExactSolver.steady_of_batched rfl)
    exact ⟨hs, layout, h, compare_optimized_tight hs h⟩

theorem slotCount_ofOrder_optimized (hs : solver.Provided)
    (h : (compare items solver).optimized = some layout) :
    (Layout.ofOrder layout.items).slotCount = layout.slotCount ∧
    (Layout.ofOrder items).slotCount - (Layout.ofOrder layout.items).slotCount =
      (compare items solver).sparedSlots ∧
    ∀ groups, Layout.Regrouped layout.groups groups →
      (Layout.ofOrder groups.flatten).slotCount = layout.slotCount := by
  obtain ⟨packing, hpacking, _, rfl, _, hspared⟩ := compare_optimized h
  have hall : ∀ groups, Layout.Regrouped (packing.layout items).groups groups →
      (Layout.ofOrder groups.flatten).slotCount = (packing.layout items).slotCount :=
    fun _ => hs.slotCount_regrouped hpacking
  have hexact := hall _ (.refl _)
  refine ⟨hexact, ?_, hall⟩
  rw [hspared]
  exact congrArg _ hexact

theorem slotCount_ofOrder_optimized_scattered :
    ExactSolver.patient.Completes (elementarySizes scattered) slotBytes ∧
    (FirstFit.pack (elementarySizes scattered) slotBytes).certified = false ∧
    ∀ exact ∈ [ExactSolver.patient, hurried], exact.engine.Sound ∧
      ∃ layout, (compare scattered exact.solver).optimized = some layout ∧
        (Layout.ofOrder layout.items).slotCount = layout.slotCount ∧
        (Layout.ofOrder scattered).slotCount - (Layout.ofOrder layout.items).slotCount =
          (compare scattered exact.solver).sparedSlots ∧
        ∀ groups, Layout.Regrouped layout.groups groups →
          (Layout.ofOrder groups.flatten).slotCount = layout.slotCount := by
  refine ⟨completes_scattered, certified_pack_scattered, ?_⟩
  rw [List.forall_mem_cons, List.forall_mem_singleton]
  constructor
  · obtain ⟨layout, h⟩ := optimized_scattered_of_search
    have hengine := ExactSolver.patient_lawful.toSound
    exact ⟨hengine, layout, h, slotCount_ofOrder_optimized (.exact .patient hengine) h⟩
  · obtain ⟨layout, h⟩ := optimized_scattered
    have hengine := Search.engine_lawful.toSound
    exact ⟨hengine, layout, h, slotCount_ofOrder_optimized (.exact hurried hengine) h⟩

end Provided

end StorageSlots
