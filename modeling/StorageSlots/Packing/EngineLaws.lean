import StorageSlots.Packing.ProgramLaws

/-!
What the answer of an engine is worth.

Optimal values use no more bins than the sizes fit into. So the packing that is read off them has as
few bins as possible, and if every item has weight it is valid. The exhaustive search is an engine
that keeps the law.
-/

namespace StorageSlots

namespace Assignment

variable {values : Assignment} {sizes : List Nat} {capacity count n : Nat}

theorem binCount_decode_le : (values.decode count).binCount ≤ (values.usedBins count).length := by
  have hle := Packing.length_normalize_le (values.bins count)
  rwa [bins, List.length_map] at hle

theorem Optimal.length_usedBins_le (h : values.Optimal sizes capacity)
    (hn : Packable capacity n sizes) : (values.usedBins sizes.length).length ≤ n := by
  by_cases htotal : total sizes = 0
  · -- Without weight no bin is used, although the items would fill one.
    have hfewest := h.fewest apart (feasible_apart htotal)
    rw [usedBins_apart] at hfewest
    exact Nat.le_trans hfewest (Nat.zero_le n)
  · obtain ⟨bins, hbins⟩ := Search.fewest?_exists hn.size_le
    have hoptimal := Search.fewest?_optimal htotal hbins
    have hfewest := h.fewest _ (feasible_ofPacking hoptimal.valid)
    rw [usedBins_ofPacking hoptimal.valid.binCount_le, List.length_range] at hfewest
    exact Nat.le_trans hfewest (hoptimal.fewest n hn)

theorem Optimal.binCount_decode_le (h : values.Optimal sizes capacity)
    (hn : Packable capacity n sizes) : (values.decode sizes.length).binCount ≤ n :=
  Nat.le_trans Assignment.binCount_decode_le (h.length_usedBins_le hn)

theorem Optimal.decode_optimal (h : values.Optimal sizes capacity)
    (hpos : ∀ size ∈ sizes, 0 < size) : (values.decode sizes.length).Optimal sizes capacity := by
  refine ⟨h.decode_valid_iff.mpr fun item hitem hzero => ?_, fun _ => h.binCount_decode_le⟩
  have hmem : Packing.sizeOf sizes item ∈ sizes := by
    rw [Packing.sizeOf, List.getD_eq_getElem?_getD, List.getElem?_eq_getElem hitem]
    exact List.getElem_mem hitem
  exact absurd hzero (Nat.ne_of_gt (hpos _ hmem))

end Assignment

namespace Search

variable {values : Assignment} {sizes : List Nat} {capacity : Nat}

theorem optimal_of_run (h : (run ⟨sizes, capacity⟩).values? = some values) :
    values.Optimal sizes capacity := by
  by_cases htotal : total sizes = 0
  · rw [run, if_pos htotal] at h
    cases h
    refine ⟨Assignment.feasible_apart htotal, fun other _ => ?_⟩
    rw [Assignment.usedBins_apart]
    exact Nat.zero_le _
  · rw [run, if_neg htotal] at h
    cases hfound : fewest? sizes capacity with
    | none => simp [hfound, Run.values?] at h
    | some bins =>
      have hoptimal := fewest?_optimal htotal hfound
      simp only [hfound, Run.values?, Option.some.injEq] at h
      subst h
      refine ⟨Assignment.feasible_ofPacking hoptimal.valid, fun other hother => ?_⟩
      rw [Assignment.usedBins_ofPacking hoptimal.valid.binCount_le, List.length_range]
      exact hoptimal.fewest _ (hother.packable htotal)

theorem exists_run (h : ∀ size ∈ sizes, size ≤ capacity) :
    ∃ values, (run ⟨sizes, capacity⟩).values? = some values := by
  obtain ⟨bins, hbins⟩ := fewest?_exists h
  rw [run, hbins]
  split
  · exact ⟨_, rfl⟩
  · exact ⟨_, rfl⟩

theorem batched_lawful (batches : List Progress) : (batched batches).Lawful where
  optimal h := by
    rw [batched, Run.values?_delayed] at h
    exact Formulation.optimal_iff.mpr (optimal_of_run h)
  finds h := by
    rw [batched, Run.values?_delayed]
    exact exists_run (Formulation.feasible_iff.mp h).size_le

theorem engine_lawful : engine.Lawful :=
  batched_lawful [.start]

theorem stop?_run (formulation : Formulation) (stops : Progress → Bool) :
    (run formulation).stop? stops = none := by
  rw [run]
  split
  · rfl
  · split
    · rfl
    · rfl

theorem stop?_batched (batches : List Progress) (formulation : Formulation) (nodeLimit : Nat)
    (start : Assignment) (stops : Progress → Bool) :
    (batched batches formulation nodeLimit start).stop? stops = batches.find? stops :=
  Run.stop?_delayed stops batches (stop?_run formulation stops)

end Search

end StorageSlots
