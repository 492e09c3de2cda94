import StorageSlots.Proofs.Arrangement

/-!
What an outcome claims, whatever the solver answers.

A layout is part of an outcome only if it comes from a valid packing and has fewer slots than the
declared order. It arranges the items, and declaring them in its order takes no more slots.
-/

namespace StorageSlots

namespace Layout

theorem map_index_numbered (first : Nat) (groups : List (List Item)) :
    (numbered first groups).map Slot.index = List.range' first groups.length := by
  induction groups generalizing first with
  | nil => rfl
  | cons group groups ih => rw [numbered, List.map_cons, ih, List.length_cons, List.range'_succ]

structure Arranges (layout : Layout) (items : List Item) : Prop where
  perm : layout.items.Perm items
  indices : layout.slots.map Slot.index = List.range' 1 layout.slotCount
  nonempty : ∀ slot ∈ layout.slots, slot.members ≠ []
  fits : ∀ slot ∈ layout.slots, slot.usedBytes ≤ slotBytes
  tail : ∃ shared alone, layout.slots = shared ++ alone ∧
    (∀ slot ∈ shared, ∀ item ∈ slot.members, item.isElementary = true) ∧
    alone.map Slot.members = (compositeItems items).map fun item => [item]

end Layout

namespace Packing

theorem isElementary_of_mem_pick {items : List Item} {bin : List Nat} {item : Item}
    (h : item ∈ pick (elementaryItems items) bin) : item.isElementary = true := by
  obtain ⟨i, _, hget⟩ := List.mem_filterMap.mp h
  exact (List.mem_filter.mp (List.mem_of_getElem? hget)).2

theorem arranges_layout {packing : Packing} {items : List Item}
    (h : packing.Valid (elementarySizes items) slotBytes) :
    (packing.layout items).Arranges items where
  perm := items_layout_perm h
  indices := by
    rw [layout_eq, Layout.slotCount_ofGroups]
    exact Layout.map_index_numbered 1 _
  nonempty := by
    intro slot hslot
    exact ne_nil_of_mem_groups_layout h _ (List.mem_map_of_mem hslot)
  fits := by
    intro slot hslot
    exact total_le_of_mem_groups_layout h _ (List.mem_map_of_mem hslot)
  tail := by
    refine ⟨_, _, Layout.numbered_append 1 _ _, ?_, Layout.map_members_numbered _ _⟩
    intro slot hslot item hitem
    have hmem := List.mem_map_of_mem (f := Slot.members) hslot
    rw [Layout.map_members_numbered] at hmem
    obtain ⟨bin, _, hbin⟩ := List.mem_map.mp hmem
    rw [← hbin] at hitem
    exact isElementary_of_mem_pick hitem

end Packing

namespace PackingOutcome

variable {declared optimized : Layout}

theorem sparedSlots_between (declared optimized : Layout) :
    (between declared optimized).sparedSlots = declared.slotCount - optimized.slotCount := by
  by_cases h : optimized.slotCount < declared.slotCount
  · rw [between, dif_pos h]
  · rw [between, dif_neg h]
    exact (Nat.sub_eq_zero_of_le (Nat.not_lt.mp h)).symm

theorem between_eq_tight (h : declared.slotCount ≤ optimized.slotCount) :
    between declared optimized = tight :=
  dif_neg (Nat.not_lt.mpr h)

theorem optimized_between {layout : Layout}
    (h : (between declared optimized).optimized = some layout) :
    layout = optimized ∧ optimized.slotCount < declared.slotCount := by
  by_cases hlt : optimized.slotCount < declared.slotCount
  · rw [between, dif_pos hlt] at h
    cases h
    exact ⟨rfl, hlt⟩
  · rw [between, dif_neg hlt] at h
    cases h

theorem sparedSlots_of_none {outcome : PackingOutcome} (h : outcome.optimized = none) :
    outcome.sparedSlots = 0 := by
  have hpresent := outcome.present_iff
  rw [h] at hpresent
  simpa using hpresent

end PackingOutcome

namespace Solver

theorem validPacking_eq_ok_iff {solver : Solver} {sizes : List Nat} {packing : Packing} :
    solver.validPacking sizes = .ok packing ↔
      solver.packing sizes = .ok packing ∧ packing.Valid sizes slotBytes := by
  rw [validPacking]
  cases hpacking : solver.packing sizes with
  | error fault => simp
  | ok found =>
    dsimp only
    cases hvalidate : found.validate sizes slotBytes with
    | error fault =>
      have hinvalid : ¬ found.Valid sizes slotBytes := by
        rw [← Packing.validate_eq_ok_iff, hvalidate]
        simp
      constructor
      · intro h
        cases h
      · rintro ⟨h, hvalid⟩
        cases h
        exact absurd hvalid hinvalid
    | ok _ =>
      have hvalid : found.Valid sizes slotBytes := Packing.validate_eq_ok_iff.mp hvalidate
      constructor
      · intro h
        cases h
        exact ⟨rfl, hvalid⟩
      · rintro ⟨h, _⟩
        cases h
        rfl

end Solver

section Compare

variable {items : List Item} {solver : Solver}

theorem compare_congr {other : Solver}
    (h : solver.packing (elementarySizes items) = other.packing (elementarySizes items)) :
    compare items solver = compare items other := by
  rw [compare, compare, Solver.validPacking, Solver.validPacking, h]

theorem compare_of_valid {packing : Packing}
    (hpacking : solver.packing (elementarySizes items) = .ok packing)
    (hvalid : packing.Valid (elementarySizes items) slotBytes) :
    compare items solver = .between (Layout.ofOrder items) (packing.layout items) := by
  have hok := Solver.validPacking_eq_ok_iff.mpr ⟨hpacking, hvalid⟩
  rw [compare, hok]

theorem compare_optimized {layout : Layout} (h : (compare items solver).optimized = some layout) :
    ∃ packing, solver.packing (elementarySizes items) = .ok packing ∧
      packing.Valid (elementarySizes items) slotBytes ∧ layout = packing.layout items ∧
      layout.slotCount < (Layout.ofOrder items).slotCount ∧
      (compare items solver).sparedSlots =
        (Layout.ofOrder items).slotCount - layout.slotCount := by
  cases hok : solver.validPacking (elementarySizes items) with
  | error fault =>
    rw [compare, hok] at h
    cases h
  | ok packing =>
    obtain ⟨hpacking, hvalid⟩ := Solver.validPacking_eq_ok_iff.mp hok
    have hcompare := compare_of_valid hpacking hvalid
    rw [hcompare] at h ⊢
    obtain ⟨rfl, hlt⟩ := PackingOutcome.optimized_between h
    exact ⟨packing, hpacking, hvalid, rfl, hlt, PackingOutcome.sparedSlots_between _ _⟩

end Compare

theorem compare_sound (items : List Item) (solver : Solver) :
    (∀ packing, solver.validPacking (elementarySizes items) = .ok packing →
      ∀ bin ∈ packing.bins, bin ≠ [] ∧ ∀ i ∈ bin, i < (elementaryItems items).length) ∧
    match (compare items solver).optimized with
    | some layout =>
      layout.Arranges items ∧
      0 < (compare items solver).sparedSlots ∧
      (compare items solver).sparedSlots =
        (Layout.ofOrder items).slotCount - layout.slotCount ∧
      (Layout.ofOrder layout.items).slotCount ≤ layout.slotCount
    | none => (compare items solver).sparedSlots = 0 := by
  constructor
  · intro packing hok bin hbin
    have hvalid := (Solver.validPacking_eq_ok_iff.mp hok).2
    exact ⟨packing.normal.nonempty bin hbin, Packing.lt_length_of_valid hvalid bin hbin⟩
  · cases h : (compare items solver).optimized with
    | none => exact PackingOutcome.sparedSlots_of_none h
    | some layout =>
      obtain ⟨packing, _, hvalid, rfl, hlt, hspared⟩ := compare_optimized h
      refine ⟨Packing.arranges_layout hvalid, ?_, hspared, ?_⟩
      · rw [hspared]
        exact Nat.sub_pos_of_lt hlt
      · exact Packing.slotCount_ofOrder_layout_le hvalid

end StorageSlots
