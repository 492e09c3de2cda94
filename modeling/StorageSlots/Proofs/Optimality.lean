import StorageSlots.Outcome
import StorageSlots.Packing.SearchLaws
import StorageSlots.Proofs.FirstFitLaws

/-!
Packings with as few bins as possible.

A certified packing by first-fit decreasing is one, and so is the result of the exhaustive search.
The number of bins does not depend on the order of the sizes.
-/

namespace StorageSlots

theorem Packable.of_le {capacity : Nat} {sizes : List Nat}
    (h : ∀ size ∈ sizes, size ≤ capacity) : Packable capacity sizes.length sizes := by
  refine ⟨sizes.map fun size => [size], by simp, ?_, ?_⟩
  · rw [← List.flatMap_def, List.flatMap_singleton']
  · intro bin hbin
    obtain ⟨size, hsize, rfl⟩ := List.mem_map.mp hbin
    exact h size hsize

theorem Packable.size_le {capacity bins : Nat} {sizes : List Nat}
    (h : Packable capacity bins sizes) : ∀ size ∈ sizes, size ≤ capacity := by
  obtain ⟨packed, _, hflatten, hfits⟩ := h
  intro size hsize
  obtain ⟨bin, hbin, hmem⟩ := List.mem_flatten.mp (hflatten.mem_iff.mpr hsize)
  exact Nat.le_trans (le_total_of_mem hmem) (hfits bin hbin)

theorem Packable.lowerBound_le {capacity bins : Nat} {sizes : List Nat}
    (h : Packable capacity bins sizes) : lowerBound sizes capacity ≤ bins := by
  have hroom : bins * capacity ≤ bins * max capacity 1 :=
    Nat.mul_le_mul_left bins (Nat.le_max_left capacity 1)
  have hone : 0 < max capacity 1 := Nat.lt_of_lt_of_le Nat.one_pos (Nat.le_max_right capacity 1)
  have htotal := h.total_le
  refine Nat.le_of_lt_succ ((Nat.div_lt_iff_lt_mul hone).mpr ?_)
  rw [Nat.succ_mul]
  omega

namespace Packing

/-- A valid packing of sizes that fit into no smaller number of bins. -/
structure Optimal (packing : Packing) (sizes : List Nat) (capacity : Nat) : Prop where
  valid : packing.Valid sizes capacity
  fewest : ∀ bins, Packable capacity bins sizes → packing.binCount ≤ bins

theorem Optimal.binCount_eq {p q : Packing} {sizes other : List Nat} {capacity : Nat}
    (hp : p.Optimal sizes capacity) (hq : q.Optimal other capacity) (h : sizes.Perm other) :
    p.binCount = q.binCount := by
  apply Nat.le_antisymm
  · exact hp.fewest _ (hq.valid.packable.perm h.symm)
  · exact hq.fewest _ (hp.valid.packable.perm h)

end Packing

theorem FirstFit.binCount_le_of_certified {sizes : List Nat} {capacity n : Nat}
    (hcertified : (pack sizes capacity).certified = true) (h : Packable capacity n sizes) :
    (pack sizes capacity).binCount ≤ n := by
  have hcount : (bins sizes capacity).length = lowerBound sizes capacity :=
    beq_iff_eq.mp hcertified
  rw [binCount_pack, hcount]
  exact h.lowerBound_le

theorem FirstFit.pack_optimal {sizes : List Nat} {capacity : Nat}
    (h : ∀ size ∈ sizes, size ≤ capacity)
    (hcertified : (pack sizes capacity).certified = true) :
    (pack sizes capacity).Optimal sizes capacity :=
  ⟨pack_valid h, fun _ => binCount_le_of_certified hcertified⟩

theorem lowerBound_of_weightless {sizes : List Nat} {capacity : Nat}
    (h : total sizes = 0) : lowerBound sizes capacity = 0 := by
  rw [lowerBound, h]
  exact Nat.div_eq_of_lt (by omega)

theorem FirstFit.certified_nil (capacity : Nat) : (pack [] capacity).certified = true := by
  change ((bins [] capacity).length == lowerBound [] capacity) = true
  rw [bins_nil, lowerBound_of_weightless rfl]
  rfl

namespace Search

open FirstFit (Entry load entriesFrom decreasing)

variable {sizes : List Nat} {capacity : Nat}

theorem packInto_empty_eq_none {n : Nat}
    (h : (packInto capacity n (decreasing sizes) .empty).1 = none) :
    ¬ Packable capacity n sizes := by
  intro hn
  have hspec := (packInto_spec capacity n (decreasing sizes) .empty (known_empty capacity)).2 h
  exact hspec (hn.perm (FirstFit.map_size_decreasing_perm sizes).symm)

theorem fewest?_sound {bins : List (List Entry)} (hsum : total sizes ≠ 0)
    (h : fewest? sizes capacity = some bins) :
    bins.flatten.Perm (entriesFrom 0 sizes) ∧ ∀ bin ∈ bins, load bin ≤ capacity := by
  rw [fewest?, if_neg hsum] at h
  obtain ⟨n, _, hn⟩ := List.exists_of_findSome?_eq_some h
  obtain ⟨hflatten, hfits, _⟩ := packInto_eq_some hn
  exact ⟨hflatten.trans (FirstFit.decreasing_perm sizes), hfits⟩

theorem fewest?_minimal {bins : List (List Entry)} {n : Nat}
    (h : fewest? sizes capacity = some bins) (hn : Packable capacity n sizes) :
    bins.length ≤ n := by
  unfold fewest? at h
  split at h
  · obtain rfl : [] = bins := by simpa using h
    exact Nat.zero_le n
  · obtain ⟨before, m, after, hrange, hm, hnone⟩ := List.findSome?_eq_some_iff.mp h
    have hlength := (packInto_eq_some hm).2.2
    refine Nat.le_trans hlength (Nat.le_of_not_lt fun hlt => ?_)
    -- A number of bins below `m` was tried before it, unless it is below the lower bound.
    have hall : ∀ k, k ∈ before ++ m :: after ↔
        lowerBound sizes capacity ≤ k ∧ k < sizes.length + 1 := by
      intro k
      rw [← hrange, List.range_eq_range', List.drop_range', List.mem_range'_1]
      omega
    have hordered : (before ++ m :: after).Pairwise (· < ·) := by
      rw [← hrange]
      exact List.pairwise_lt_range.drop
    have hm' := (hall m).mp (by simp)
    have hmem := (hall n).mpr ⟨hn.lowerBound_le, by omega⟩
    obtain ⟨_, hafter, _⟩ := List.pairwise_append.mp hordered
    rcases List.mem_append.mp hmem with hmem | hmem
    · exact packInto_empty_eq_none (hnone n hmem) hn
    · rcases List.mem_cons.mp hmem with rfl | hmem
      · exact Nat.lt_irrefl _ hlt
      · have := (List.pairwise_cons.mp hafter).1 n hmem
        omega

theorem fewest?_exists (h : ∀ size ∈ sizes, size ≤ capacity) :
    ∃ bins, fewest? sizes capacity = some bins := by
  cases hfound : fewest? sizes capacity with
  | some bins => exact ⟨bins, rfl⟩
  | none =>
    unfold fewest? at hfound
    split at hfound
    · simp at hfound
    · have hpackable := Packable.of_le h
      have hle := hpackable.lowerBound_le
      have hmem : sizes.length ∈
          (List.range (sizes.length + 1)).drop (lowerBound sizes capacity) := by
        rw [List.range_eq_range', List.drop_range', List.mem_range'_1]
        omega
      exact absurd hpackable
        (packInto_empty_eq_none (List.findSome?_eq_none_iff.mp hfound _ hmem))

theorem fewest?_optimal {bins : List (List Entry)} (hsum : total sizes ≠ 0)
    (h : fewest? sizes capacity = some bins) :
    (Packing.ofBins (bins.map fun bin => bin.map Entry.item) true).Optimal sizes capacity := by
  obtain ⟨hperm, hfits⟩ := fewest?_sound hsum h
  refine ⟨Packing.valid_ofBins true hperm hfits, fun n hn => ?_⟩
  refine Nat.le_trans (Packing.length_normalize_le _) ?_
  rw [List.length_map]
  exact fewest?_minimal h hn

end Search

theorem Packing.exists_optimal {sizes : List Nat} {capacity : Nat}
    (hpos : ∀ size ∈ sizes, 0 < size) (h : ∀ size ∈ sizes, size ≤ capacity) :
    ∃ packing : Packing, packing.Optimal sizes capacity := by
  cases sizes with
  | nil => exact ⟨_, FirstFit.pack_optimal h (FirstFit.certified_nil capacity)⟩
  | cons size sizes =>
    have hsum : total (size :: sizes) ≠ 0 := by
      have hsize := hpos size (by simp)
      rw [total_cons]
      omega
    obtain ⟨bins, hbins⟩ := Search.fewest?_exists h
    exact ⟨_, Search.fewest?_optimal hsum hbins⟩

end StorageSlots
