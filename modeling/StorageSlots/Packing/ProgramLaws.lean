import StorageSlots.Packing.Program
import StorageSlots.Proofs.NormalForm
import StorageSlots.Proofs.Optimality
import Mathlib.Algebra.BigOperators.Group.List.Basic
import Mathlib.Data.List.Forall2

/-!
What feasible values of the program say.

Weight is in used bins only, and these are not overfull. So the packing that is read off feasible
values can have one fault: an item without weight that is placed in a bin that is not used.
-/

namespace StorageSlots

theorem Packing.ofBins_bins (packing : Packing) :
    ofBins packing.bins packing.certified = packing :=
  ext_bins packing.normal.normalize_eq rfl

theorem Packing.Valid.nodup_flatten {packing : Packing} {sizes : List Nat} {capacity : Nat}
    (h : packing.Valid sizes capacity) : packing.bins.flatten.Nodup :=
  (valid_iff.mp h).1.nodup_iff.mpr List.nodup_range

theorem Packing.Valid.binCount_le {packing : Packing} {sizes : List Nat} {capacity : Nat}
    (h : packing.Valid sizes capacity) : packing.binCount ≤ sizes.length := by
  have hone : ∀ n ∈ packing.bins.map List.length, 1 ≤ n := by
    intro n hn
    obtain ⟨bin, hbin, rfl⟩ := List.mem_map.mp hn
    exact List.length_pos_iff.mpr (packing.normal.nonempty bin hbin)
  have hitems := (valid_iff.mp h).1.length_eq
  rw [List.length_flatten, List.length_range] at hitems
  rw [binCount, ← hitems, ← List.length_map (f := List.length)]
  exact List.length_le_sum_of_one_le _ hone

theorem Packable.append_weightless {capacity bins : Nat} {sizes more : List Nat}
    (h : Packable capacity (bins + 1) sizes) (hmore : total more = 0) :
    Packable capacity (bins + 1) (sizes ++ more) := by
  obtain ⟨packed, hlength, hflatten, hfits⟩ := h
  cases packed with
  | nil =>
    refine ⟨[more], by simp, ?_, by simp [hmore]⟩
    simpa using hflatten.append_right more
  | cons bin packed =>
    refine ⟨(bin ++ more) :: packed, hlength, ?_, ?_⟩
    · rw [List.flatten_cons, List.append_assoc]
      refine .trans ?_ (hflatten.append_right more)
      rw [List.flatten_cons, List.append_assoc]
      exact List.perm_append_comm.append_left bin
    · rw [List.forall_mem_cons, total_append, hmore]
      exact List.forall_mem_cons.mp hfits

namespace Assignment

variable {values : Assignment} {packing : Packing} {sizes : List Nat} {capacity count item bin : Nat}

/-! ### What the constraints say -/

/-- The constraints in words of items and bins. -/
structure Feasible (values : Assignment) (sizes : List Nat) (capacity : Nat) : Prop where
  once : ∀ item < sizes.length, (List.range sizes.length).countP (values.placed item) = 1
  fits : ∀ bin < sizes.length, Packing.load sizes (values.members sizes.length bin) ≤
    (values.used bin).toNat * capacity
  ordered : ∀ bin, bin + 1 < sizes.length → values.used (bin + 1) = true → values.used bin = true

structure Optimal (values : Assignment) (sizes : List Nat) (capacity : Nat) : Prop
    extends values.Feasible sizes capacity where
  fewest : ∀ other : Assignment, other.Feasible sizes capacity →
    (values.usedBins sizes.length).length ≤ (other.usedBins sizes.length).length

theorem sum_append (terms more : List (Variable × Int)) :
    values.sum (terms ++ more) = values.sum terms + values.sum more := by
  induction terms with
  | nil => simp [sum]
  | cons term terms ih => rw [List.cons_append, sum, sum, ih, Int.add_assoc]

theorem sum_eq_zero {terms : List (Variable × Int)} (h : ∀ term ∈ terms, term.2 = 0) :
    values.sum terms = 0 := by
  induction terms with
  | nil => rfl
  | cons term terms ih =>
    obtain ⟨hterm, hterms⟩ := List.forall_mem_cons.mp h
    rw [sum, hterm, ih hterms, Int.zero_mul, Int.add_zero]

/-- Variables that are 0 do not count, and the others count with their weight. -/
theorem sum_map {chosen : Nat → Bool} {var : Nat → Variable}
    (h : ∀ i, values.value (var i) = (chosen i).toNat) (weight : Nat → Nat)
    (indices : List Nat) :
    values.sum (indices.map fun i => (var i, (weight i : Int))) =
      total ((indices.filter chosen).map weight) := by
  induction indices with
  | nil => rfl
  | cons i indices ih =>
    rw [List.map_cons, sum, ih, h]
    cases hchosen : chosen i with
    | true => simp [hchosen]
    | false => simp [hchosen]

theorem sum_map_one {chosen : Nat → Bool} {var : Nat → Variable}
    (h : ∀ i, values.value (var i) = (chosen i).toNat) (indices : List Nat) :
    values.sum (indices.map fun i => (var i, 1)) = indices.countP chosen := by
  induction indices with
  | nil => rfl
  | cons i indices ih =>
    rw [List.map_cons, sum, ih, h]
    cases hchosen : chosen i with
    | true => simp [hchosen, Int.add_comm]
    | false => simp [hchosen]

end Assignment

namespace Formulation

variable {values : Assignment} {sizes : List Nat} {capacity : Nat}

theorem holds_placedOnce_iff (item : Nat) :
    (placedOnce ⟨sizes, capacity⟩ item).Holds values ↔
      (List.range sizes.length).countP (values.placed item) = 1 := by
  rw [Constraint.Holds, placedOnce, Assignment.sum_map_one fun _ => rfl]
  exact Int.ofNat_inj

theorem holds_withinCapacity_iff (bin : Nat) :
    (withinCapacity ⟨sizes, capacity⟩ bin).Holds values ↔
      Packing.load sizes (values.members sizes.length bin) ≤
        (values.used bin).toNat * capacity := by
  rw [Constraint.Holds, withinCapacity, Assignment.sum_append, Assignment.sum_map fun _ => rfl]
  simp only [Assignment.sum, Assignment.value, Comparison.Relates, Packing.load,
    Assignment.members, count]
  rw [Int.neg_mul, Int.mul_comm, ← Int.natCast_mul]
  omega

theorem holds_usedInOrder_iff (bin : Nat) :
    (usedInOrder bin).Holds values ↔ (values.used (bin + 1) = true → values.used bin = true) := by
  simp only [Constraint.Holds, usedInOrder, Assignment.sum, Assignment.value, Comparison.Relates]
  cases values.used bin <;> cases values.used (bin + 1) <;> decide

theorem feasible_iff :
    Feasible ⟨sizes, capacity⟩ values ↔ values.Feasible sizes capacity := by
  simp only [Feasible, constraints, List.forall_mem_append, List.forall_mem_map, List.mem_range,
    holds_placedOnce_iff, holds_withinCapacity_iff, holds_usedInOrder_iff]
  constructor
  · rintro ⟨⟨honce, hfits⟩, hordered⟩
    exact ⟨honce, hfits, fun bin hbin => hordered bin (Nat.lt_sub_of_add_lt hbin)⟩
  · intro h
    exact ⟨⟨h.once, h.fits⟩, fun bin hbin => h.ordered bin (Nat.add_lt_of_lt_sub hbin)⟩

theorem sum_objective : values.sum (objective ⟨sizes, capacity⟩) =
    (values.usedBins sizes.length).length := by
  rw [objective, Assignment.sum_append, Assignment.sum_map_one fun _ => rfl,
    Assignment.sum_eq_zero, Int.zero_add, List.countP_eq_length_filter]
  · rfl
  · simp only [List.mem_flatMap, List.mem_map]
    rintro term ⟨item, -, bin, -, rfl⟩
    rfl

theorem optimal_iff : Optimal ⟨sizes, capacity⟩ values ↔ values.Optimal sizes capacity := by
  constructor
  · intro h
    refine ⟨feasible_iff.mp h.feasible, fun other hother => ?_⟩
    have hle := h.least other (feasible_iff.mpr hother)
    rw [sum_objective, sum_objective] at hle
    exact Int.ofNat_le.mp hle
  · intro h
    refine ⟨feasible_iff.mpr h.toFeasible, fun other hother => ?_⟩
    rw [sum_objective, sum_objective]
    exact Int.ofNat_le.mpr (h.fewest other (feasible_iff.mp hother))

end Formulation

namespace Assignment

variable {values : Assignment} {packing : Packing} {sizes : List Nat} {capacity count item bin : Nat}

theorem mem_members :
    item ∈ values.members count bin ↔ item < count ∧ values.placed item bin = true := by
  simp [members]

theorem mem_usedBins : bin ∈ values.usedBins count ↔ bin < count ∧ values.used bin = true := by
  simp [usedBins]

theorem nodup_members : (values.members count bin).Nodup :=
  List.nodup_range.filter _

/-- The item is placed in a bin that is used. -/
def Covers (values : Assignment) (count item : Nat) : Prop :=
  ∃ bin < count, values.used bin = true ∧ values.placed item bin = true

instance : Decidable (values.Covers count item) :=
  inferInstanceAs (Decidable (∃ bin < count, _))

theorem mem_flatten_bins :
    item ∈ (values.bins count).flatten ↔ item < count ∧ values.Covers count item := by
  simp only [bins, List.mem_flatten, List.mem_map, exists_exists_and_eq_and, mem_usedBins,
    mem_members, Covers]
  constructor
  · rintro ⟨bin, ⟨hbin, hused⟩, hitem, hplaced⟩
    exact ⟨hitem, bin, hbin, hused, hplaced⟩
  · rintro ⟨hitem, bin, hbin, hused, hplaced⟩
    exact ⟨bin, ⟨hbin, hused⟩, hitem, hplaced⟩

/-! ### Reading a packing off -/

theorem count_flatten_members (h : item < count) (bins : List Nat) :
    (bins.map (values.members count)).flatten.count item = bins.countP (values.placed item) := by
  induction bins with
  | nil => rfl
  | cons bin bins ih =>
    rw [List.map_cons, List.flatten_cons, List.count_append, ih, nodup_members.count,
      List.countP_cons, Nat.add_comm]
    simp [mem_members, h]

theorem Feasible.countP_usedBins_le (h : values.Feasible sizes capacity)
    (hitem : item < sizes.length) :
    (values.usedBins sizes.length).countP (values.placed item) ≤ 1 := by
  rw [← h.once item hitem]
  exact List.filter_sublist.countP_le

theorem Feasible.countP_usedBins_eq (h : values.Feasible sizes capacity)
    (hitem : item < sizes.length) :
    (values.usedBins sizes.length).countP (values.placed item) = 1 ↔
      values.Covers sizes.length item := by
  have hle := h.countP_usedBins_le hitem
  have hpos : 0 < (values.usedBins sizes.length).countP (values.placed item) ↔
      values.Covers sizes.length item := by
    simp [List.countP_pos_iff, mem_usedBins, Covers, and_assoc]
  rw [← hpos]
  omega

theorem Feasible.sizeOf_le (h : values.Feasible sizes capacity) (hitem : item < sizes.length) :
    ∃ bin < sizes.length, values.placed item bin = true ∧
      Packing.sizeOf sizes item ≤ (values.used bin).toNat * capacity := by
  have honce : 0 < (List.range sizes.length).countP (values.placed item) := by
    rw [h.once item hitem]
    exact Nat.one_pos
  obtain ⟨bin, hbin, hplaced⟩ := List.countP_pos_iff.mp honce
  have hbin := List.mem_range.mp hbin
  refine ⟨bin, hbin, hplaced, Nat.le_trans ?_ (h.fits bin hbin)⟩
  exact le_total_of_mem (List.mem_map_of_mem (mem_members.mpr ⟨hitem, hplaced⟩))

theorem Feasible.covers_of_pos (h : values.Feasible sizes capacity) (hitem : item < sizes.length)
    (hpos : 0 < Packing.sizeOf sizes item) : values.Covers sizes.length item := by
  obtain ⟨bin, hbin, hplaced, hle⟩ := h.sizeOf_le hitem
  refine ⟨bin, hbin, ?_, hplaced⟩
  cases hused : values.used bin with
  | true => rfl
  | false =>
    rw [hused, Bool.toNat_false, Nat.zero_mul] at hle
    omega

theorem Feasible.size_le (h : values.Feasible sizes capacity) : ∀ size ∈ sizes, size ≤ capacity := by
  intro size hsize
  rw [← Packing.map_sizeOf_range sizes] at hsize
  obtain ⟨item, hitem, rfl⟩ := List.mem_map.mp hsize
  obtain ⟨bin, -, -, hle⟩ := h.sizeOf_le (List.mem_range.mp hitem)
  calc Packing.sizeOf sizes item
      ≤ (values.used bin).toNat * capacity := hle
    _ ≤ 1 * capacity := Nat.mul_le_mul_right capacity (Bool.toNat_le _)
    _ = capacity := Nat.one_mul capacity

theorem Feasible.load_le (h : values.Feasible sizes capacity)
    (hbin : bin ∈ values.usedBins sizes.length) :
    Packing.load sizes (values.members sizes.length bin) ≤ capacity := by
  obtain ⟨hlt, hused⟩ := mem_usedBins.mp hbin
  have hfits := h.fits bin hlt
  rwa [hused, Bool.toNat_true, Nat.one_mul] at hfits

theorem exists_of_mem_decode {members : List Nat} (h : members ∈ (values.decode count).bins) :
    ∃ bin ∈ values.usedBins count, members.Perm (values.members count bin) := by
  obtain ⟨raw, hraw, -, rfl⟩ := Packing.mem_normalize.mp h
  obtain ⟨bin, hbin, rfl⟩ := List.mem_map.mp hraw
  exact ⟨bin, hbin, Packing.sortBin_perm _⟩

theorem Feasible.count_decode_iff (h : values.Feasible sizes capacity)
    (hitem : item < sizes.length) :
    (values.decode sizes.length).bins.flatten.count item = 1 ↔
      values.Covers sizes.length item := by
  rw [← h.countP_usedBins_eq hitem, ← count_flatten_members hitem, decode, Packing.ofBins,
    (Packing.flatten_normalize_perm _).count_eq, bins]

theorem Feasible.decode_valid_iff (h : values.Feasible sizes capacity) :
    (values.decode sizes.length).Valid sizes capacity ↔
      ∀ item < sizes.length, Packing.sizeOf sizes item = 0 → values.Covers sizes.length item := by
  constructor
  · intro hvalid item hitem _
    exact (h.count_decode_iff hitem).mp (hvalid.once item hitem)
  · intro hcovers
    refine ⟨?_, ?_, ?_⟩
    · intro members hmembers item hitem
      obtain ⟨bin, -, hperm⟩ := exists_of_mem_decode hmembers
      exact (mem_members.mp (hperm.mem_iff.mp hitem)).1
    · intro item hitem
      refine (h.count_decode_iff hitem).mpr ?_
      rcases Nat.eq_zero_or_pos (Packing.sizeOf sizes item) with hzero | hpos
      · exact hcovers item hitem hzero
      · exact h.covers_of_pos hitem hpos
    · intro members hmembers
      obtain ⟨bin, hbin, hperm⟩ := exists_of_mem_decode hmembers
      rw [Packing.load_perm hperm]
      exact h.load_le hbin

/-! ### How many bins are needed -/

theorem Feasible.nodup_flatten (h : values.Feasible sizes capacity) :
    (values.bins sizes.length).flatten.Nodup := by
  rw [List.nodup_iff_count_le_one]
  intro item
  by_cases hitem : item < sizes.length
  · rw [bins, count_flatten_members hitem]
    exact h.countP_usedBins_le hitem
  · have hnot : item ∉ (values.bins sizes.length).flatten :=
      fun hmem => hitem (mem_flatten_bins.mp hmem).1
    rw [List.count_eq_zero_of_not_mem hnot]
    exact Nat.zero_le 1

theorem Feasible.flatten_perm (h : values.Feasible sizes capacity) :
    ((values.bins sizes.length).flatten ++
      (List.range sizes.length).filter fun item => !decide (values.Covers sizes.length item)).Perm
        (List.range sizes.length) := by
  refine .trans (.append_right _ ?_)
    (List.filter_append_perm (fun item => decide (values.Covers sizes.length item)) _)
  rw [List.perm_ext_iff_of_nodup h.nodup_flatten (List.nodup_range.filter _)]
  intro item
  rw [mem_flatten_bins, List.mem_filter, List.mem_range, decide_eq_true_eq]

/-- Items without weight fit in with the others, whatever bins the values place them in. -/
theorem Feasible.packable (h : values.Feasible sizes capacity) (htotal : total sizes ≠ 0) :
    Packable capacity (values.usedBins sizes.length).length sizes := by
  have hperm := h.flatten_perm.map (Packing.sizeOf sizes)
  rw [Packing.map_sizeOf_range, List.map_append] at hperm
  have hweightless : total (((List.range sizes.length).filter fun item =>
      !decide (values.Covers sizes.length item)).map (Packing.sizeOf sizes)) = 0 := by
    rw [total_eq_zero_iff, List.forall_mem_map]
    intro item hmem
    simp only [List.mem_filter, List.mem_range, Bool.not_eq_true', decide_eq_false_iff_not] at hmem
    exact Nat.eq_zero_of_not_pos fun hpos => hmem.2 (h.covers_of_pos hmem.1 hpos)
  have hcovered : Packable capacity (values.usedBins sizes.length).length
      ((values.bins sizes.length).flatten.map (Packing.sizeOf sizes)) := by
    refine ⟨(values.bins sizes.length).map (List.map (Packing.sizeOf sizes)), ?_, ?_, ?_⟩
    · rw [List.length_map, bins, List.length_map]
    · rw [List.map_flatten]
    · simp only [bins, List.forall_mem_map]
      exact fun bin hbin => h.load_le hbin
  cases hused : (values.usedBins sizes.length).length with
  | zero =>
    rw [bins, List.eq_nil_of_length_eq_zero hused] at hperm
    rw [← total_perm hperm] at htotal
    exact absurd hweightless htotal
  | succ bins =>
    rw [hused] at hcovered
    exact (hcovered.append_weightless hweightless).perm hperm

/-! ### Values that say the same as a packing -/

theorem placed_ofPacking :
    (ofPacking packing).placed item bin = (packing.bins.getD bin []).contains item := by
  rw [ofPacking, List.getD_eq_getElem?_getD]
  dsimp only
  cases packing.bins[bin]? <;> simp

theorem map_getD_range {bins : List (List Nat)} (h : bins.length ≤ count) :
    (List.range count).map (bins.getD · []) = bins ++ .replicate (count - bins.length) [] := by
  apply List.ext_getElem
  · simp [h]
  · intro i _ _
    rcases Nat.lt_or_ge i bins.length with hi | hi
    · simp [hi]
    · simp [hi]

theorem usedBins_ofPacking (h : packing.binCount ≤ count) :
    (ofPacking packing).usedBins count = List.range packing.binCount := by
  obtain ⟨more, rfl⟩ := Nat.exists_eq_add_of_le h
  rw [usedBins, List.range_add, List.filter_append, List.filter_eq_self.mpr,
    List.filter_eq_nil_iff.mpr, List.append_nil]
  · simp [ofPacking]
  · simp [ofPacking]

theorem getD_nil_or_mem (bins : List (List Nat)) (bin : Nat) :
    bins.getD bin [] = [] ∨ bins.getD bin [] ∈ bins := by
  rw [List.getD_eq_getElem?_getD]
  cases hbin : bins[bin]? with
  | none => exact .inl rfl
  | some members => exact .inr (List.mem_of_getElem? hbin)

theorem members_ofPacking_perm (h : packing.Valid sizes capacity) (bin : Nat) :
    ((ofPacking packing).members sizes.length bin).Perm (packing.bins.getD bin []) := by
  have hbin : (packing.bins.getD bin []).Nodup ∧
      ∀ item ∈ packing.bins.getD bin [], item < sizes.length := by
    rcases getD_nil_or_mem packing.bins bin with hnil | hmem
    · rw [hnil]
      exact ⟨List.nodup_nil, List.forall_mem_nil _⟩
    · exact ⟨(List.nodup_flatten.mp h.nodup_flatten).1 _ hmem, h.known _ hmem⟩
  rw [List.perm_ext_iff_of_nodup nodup_members hbin.1]
  intro item
  rw [mem_members, placed_ofPacking, List.contains_iff_mem]
  exact ⟨And.right, fun hitem => ⟨hbin.2 item hitem, hitem⟩⟩

theorem forall₂_members_ofPacking (h : packing.Valid sizes capacity)
    (hcount : packing.binCount ≤ count) :
    List.Forall₂ List.Perm ((List.range count).map ((ofPacking packing).members sizes.length))
      (packing.bins ++ .replicate (count - packing.binCount) []) := by
  rw [Packing.binCount, ← map_getD_range hcount, List.forall₂_map_left_iff,
    List.forall₂_map_right_iff, List.forall₂_same]
  exact fun bin _ => members_ofPacking_perm h bin

theorem feasible_ofPacking (h : packing.Valid sizes capacity) :
    (ofPacking packing).Feasible sizes capacity := by
  refine ⟨?_, ?_, ?_⟩
  · intro item hitem
    rw [← count_flatten_members hitem,
      (List.Perm.flatten_congr (forall₂_members_ofPacking h h.binCount_le)).count_eq,
      List.flatten_append, List.flatten_replicate_nil, List.append_nil]
    exact h.once item hitem
  · intro bin _
    rw [Packing.load_perm (members_ofPacking_perm h bin), List.getD_eq_getElem?_getD]
    by_cases hbin : bin < packing.bins.length
    · have hused : (ofPacking packing).used bin = true := decide_eq_true hbin
      rw [List.getElem?_eq_getElem hbin, Option.getD_some, hused, Bool.toNat_true, Nat.one_mul]
      exact h.fits _ (List.getElem_mem hbin)
    · rw [List.getElem?_eq_none (Nat.not_lt.mp hbin)]
      exact Nat.zero_le _
  · intro bin _ hused
    simp only [ofPacking, decide_eq_true_eq] at hused ⊢
    omega

/-- The values of the heuristic are a start for an engine unless an item exceeds the capacity. -/
theorem feasible_ofPacking_pack_iff :
    (ofPacking (FirstFit.pack sizes capacity)).Feasible sizes capacity ↔
      ∀ size ∈ sizes, size ≤ capacity :=
  ⟨Feasible.size_le, fun h => feasible_ofPacking (FirstFit.pack_valid h)⟩

theorem decode_ofPacking (h : packing.Valid sizes capacity) (hcertified : packing.certified = true) :
    (ofPacking packing).decode sizes.length = packing := by
  have hitems := forall₂_members_ofPacking h (Nat.le_refl _)
  rw [Nat.sub_self, List.replicate_zero, List.append_nil] at hitems
  refine Packing.ext_bins ?_ hcertified.symm
  rw [decode, bins, usedBins_ofPacking h.binCount_le, ← packing.normal.normalize_eq]
  refine ((Packing.normalize_eq_iff (List.nodup_flatten.mp h.nodup_flatten).2).mpr ?_).symm
  rw [Packing.unordered_eq (.refl _) hitems]

theorem sizeOf_eq_zero (htotal : total sizes = 0) (item : Nat) :
    Packing.sizeOf sizes item = 0 := by
  rw [Packing.sizeOf, List.getD_eq_getElem?_getD]
  cases hsize : sizes[item]? with
  | none => rfl
  | some size => exact total_eq_zero_iff.mp htotal size (List.mem_of_getElem? hsize)

theorem usedBins_apart : apart.usedBins count = [] := by
  simp [usedBins, apart]

theorem feasible_apart (htotal : total sizes = 0) : apart.Feasible sizes capacity := by
  refine ⟨?_, ?_, ?_⟩
  · intro item hitem
    exact List.count_eq_one_of_mem List.nodup_range (List.mem_range.mpr hitem)
  · intro bin _
    have hload : Packing.load sizes (apart.members sizes.length bin) = 0 := by
      rw [Packing.load, total_eq_zero_iff, List.forall_mem_map]
      intro item _
      exact sizeOf_eq_zero htotal item
    rw [hload]
    exact Nat.zero_le _
  · intro bin _ hused
    exact absurd hused Bool.false_ne_true

end Assignment

end StorageSlots
