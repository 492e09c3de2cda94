import StorageSlots.Packing.Tally
import StorageSlots.Proofs.Validation

/-!
The first violation of a packing, and the pass that comes upon it.

Bins are judged in their order, each by its first item that does not exist or else by its load. Only
if all of them fit are the items judged, each by the number of its placements. One pass over the bins
comes to the same verdict: its counts are at every point the numbers of placements so far, so that
it finds a count wherever it looks for one.
-/

namespace StorageSlots

namespace Packing

variable {sizes placed : List Nat} {capacity : Nat}

/-- A bin of existing items that does not exceed the capacity. -/
def Fits (sizes : List Nat) (capacity : Nat) (bin : List Nat) : Prop :=
  (∀ item ∈ bin, item < sizes.length) ∧ load sizes bin ≤ capacity

/-- The first item that does not exist, or else the load. -/
inductive BinViolation (sizes : List Nat) (capacity index : Nat) : List Nat → Violation → Prop
  | unknownItem {known item rest} :
      (∀ i ∈ known, i < sizes.length) → sizes.length ≤ item →
      BinViolation sizes capacity index (known ++ item :: rest) (.unknownItem item)
  | overfull {bin} :
      (∀ item ∈ bin, item < sizes.length) → capacity < load sizes bin →
      BinViolation sizes capacity index bin (.overfull index (load sizes bin) capacity)

/-- The violation of the first bin that does not fit, or else the first item that is not placed
exactly once. -/
inductive FirstViolation (packing : Packing) (sizes : List Nat) (capacity : Nat) : Violation → Prop
  | bin {before bin after violation} :
      packing.bins = before ++ bin :: after → (∀ b ∈ before, Fits sizes capacity b) →
      BinViolation sizes capacity before.length bin violation →
      FirstViolation packing sizes capacity violation
  | item {item} :
      (∀ bin ∈ packing.bins, Fits sizes capacity bin) → item < sizes.length →
      (∀ i < item, packing.bins.flatten.count i = 1) → packing.bins.flatten.count item ≠ 1 →
      FirstViolation packing sizes capacity (.miscounted item (packing.bins.flatten.count item))

theorem findSome?_range_eq_some_iff {α : Type} {f : Nat → Option α} {n : Nat} {a : α} :
    (List.range n).findSome? f = some a ↔ ∃ i < n, f i = some a ∧ ∀ j < i, f j = none := by
  induction n with
  | zero => simp
  | succ n ih =>
    rw [List.range_succ, List.findSome?_append, Option.or_eq_some_iff, ih,
      List.findSome?_eq_none_iff, List.findSome?_singleton]
    simp only [List.mem_range]
    constructor
    · rintro (⟨i, hi, h⟩ | ⟨hbelow, h⟩)
      · exact ⟨i, Nat.lt_succ_of_lt hi, h⟩
      · exact ⟨n, Nat.lt_succ_self n, h, hbelow⟩
    · rintro ⟨i, hi, h, hbelow⟩
      rcases Nat.lt_succ_iff_lt_or_eq.mp hi with hi | rfl
      · exact .inl ⟨i, hi, h, hbelow⟩
      · exact .inr ⟨hbelow, h⟩

theorem itemViolation?_eq_some_iff {bins : List (List Nat)} {item : Nat} {violation : Violation} :
    itemViolation? bins item = some violation ↔
      bins.flatten.count item ≠ 1 ∧ violation = .miscounted item (bins.flatten.count item) := by
  rw [itemViolation?]
  split
  · next h => simp [h]
  · next h => simp [h, eq_comm]

theorem itemViolation?_eq_none_iff {bins : List (List Nat)} {item : Nat} :
    itemViolation? bins item = none ↔ bins.flatten.count item = 1 := by
  simp [itemViolation?]

theorem binViolation?_eq_some_iff {index : Nat} {bin : List Nat} {violation : Violation} :
    binViolation? sizes capacity index bin = some violation ↔
      BinViolation sizes capacity index bin violation := by
  constructor
  · intro h
    rw [binViolation?] at h
    cases hfind : bin.find? fun item => decide (sizes.length ≤ item) with
    | some item =>
      rw [hfind] at h
      cases h
      obtain ⟨hitem, known, rest, rfl, hknown⟩ := List.find?_eq_some_iff_append.mp hfind
      exact .unknownItem (by simpa using hknown) (of_decide_eq_true hitem)
    | none =>
      rw [hfind] at h
      have hknown : ∀ item ∈ bin, item < sizes.length := by
        simpa using List.find?_eq_none.mp hfind
      obtain ⟨hload, ⟨⟩⟩ := Option.ite_none_left_eq_some.mp h
      exact .overfull hknown (Nat.not_le.mp hload)
  · intro h
    rw [binViolation?]
    cases h with
    | @unknownItem known item rest hknown hitem =>
      have hfind : (known ++ item :: rest).find? (fun i => decide (sizes.length ≤ i)) =
          some item :=
        List.find?_eq_some_iff_append.mpr
          ⟨decide_eq_true hitem, known, rest, rfl, by simpa using hknown⟩
      rw [hfind]
    | overfull hknown hload =>
      rw [List.find?_eq_none.mpr (by simpa using hknown)]
      exact if_neg (Nat.not_le.mpr hload)

theorem firstBinViolation?_eq_some_iff {index : Nat} {bins : List (List Nat)}
    {violation : Violation} :
    firstBinViolation? sizes capacity index bins = some violation ↔
      ∃ before bin after, bins = before ++ bin :: after ∧ (∀ b ∈ before, Fits sizes capacity b) ∧
        binViolation? sizes capacity (index + before.length) bin = some violation := by
  induction bins generalizing index with
  | nil => simp [firstBinViolation?]
  | cons bin bins ih =>
    rw [firstBinViolation?]
    cases hbin : binViolation? sizes capacity index bin with
    | some first =>
      constructor
      · rintro ⟨⟩
        exact ⟨[], bin, bins, rfl, List.forall_mem_nil _, hbin⟩
      · rintro ⟨before, found, after, hsplit, hbefore, hfound⟩
        cases before with
        | nil =>
          cases hsplit
          exact hbin.symm.trans hfound
        | cons b before =>
          cases hsplit
          rw [(binViolation?_eq_none_iff index).mpr (hbefore bin List.mem_cons_self)] at hbin
          cases hbin
    | none =>
      rw [ih]
      constructor
      · rintro ⟨before, found, after, rfl, hbefore, hfound⟩
        refine ⟨bin :: before, found, after, rfl, ?_, ?_⟩
        · exact List.forall_mem_cons.mpr ⟨(binViolation?_eq_none_iff index).mp hbin, hbefore⟩
        · rwa [List.length_cons, Nat.add_comm before.length, ← Nat.add_assoc]
      · rintro ⟨before, found, after, hsplit, hbefore, hfound⟩
        cases before with
        | nil =>
          cases hsplit
          rw [List.length_nil, Nat.add_zero, hbin] at hfound
          cases hfound
        | cons b before =>
          cases hsplit
          rw [List.length_cons, Nat.add_comm before.length, ← Nat.add_assoc] at hfound
          exact ⟨before, found, after, rfl, (List.forall_mem_cons.mp hbefore).2, hfound⟩

theorem violation?_eq_some_iff {packing : Packing} {violation : Violation} :
    packing.violation? sizes capacity = some violation ↔
      packing.FirstViolation sizes capacity violation := by
  rw [violation?]
  constructor
  · intro h
    cases hbins : firstBinViolation? sizes capacity 0 packing.bins with
    | some found =>
      rw [hbins] at h
      cases h
      obtain ⟨before, bin, after, hsplit, hbefore, hbin⟩ := firstBinViolation?_eq_some_iff.mp hbins
      rw [Nat.zero_add] at hbin
      exact .bin hsplit hbefore (binViolation?_eq_some_iff.mp hbin)
    | none =>
      rw [hbins] at h
      obtain ⟨item, hitem, hfound, hbelow⟩ := findSome?_range_eq_some_iff.mp h
      obtain ⟨hcount, rfl⟩ := itemViolation?_eq_some_iff.mp hfound
      exact .item ((firstBinViolation?_eq_none_iff 0).mp hbins) hitem
        (fun i hi => itemViolation?_eq_none_iff.mp (hbelow i hi)) hcount
  · intro h
    cases h with
    | @bin before bin after _ hsplit hbefore hbin =>
      have hfirst : firstBinViolation? sizes capacity 0 packing.bins = some violation := by
        refine firstBinViolation?_eq_some_iff.mpr ⟨before, bin, after, hsplit, hbefore, ?_⟩
        rw [Nat.zero_add]
        exact binViolation?_eq_some_iff.mpr hbin
      rw [hfirst]
    | @item item hbins hitem hbelow hcount =>
      rw [(firstBinViolation?_eq_none_iff 0).mpr hbins]
      refine findSome?_range_eq_some_iff.mpr ⟨item, hitem, ?_, ?_⟩
      · exact itemViolation?_eq_some_iff.mpr ⟨hcount, rfl⟩
      · intro i hi
        exact itemViolation?_eq_none_iff.mpr (hbelow i hi)

theorem validate_eq_error_iff {packing : Packing} {fault : SolverFault} :
    packing.validate sizes capacity = .error fault ↔
      ∃ violation, packing.FirstViolation sizes capacity violation ∧
        fault = .invalidPacking violation.message := by
  simp only [← violation?_eq_some_iff]
  rw [validate]
  cases packing.violation? sizes capacity with
  | some found =>
    constructor
    · rintro ⟨⟩
      exact ⟨found, rfl, rfl⟩
    · rintro ⟨_, ⟨⟩, rfl⟩
      rfl
  | none =>
    constructor
    · rintro ⟨⟩
    · rintro ⟨_, ⟨⟩, _⟩

section Pass

/-- How often each of the first `n` items is among those placed. -/
def counted (n : Nat) (placed : List Nat) : List Nat :=
  (List.range n).map fun item => placed.count item

theorem length_counted (n : Nat) (placed : List Nat) : (counted n placed).length = n := by
  rw [counted, List.length_map, List.length_range]

theorem getElem?_counted {n item : Nat} (h : item < n) :
    (counted n placed)[item]? = some (placed.count item) := by
  rw [counted, List.getElem?_map, List.getElem?_range h, Option.map_some]

theorem counted_nil (n : Nat) : counted n [] = .replicate n 0 := by
  simp only [counted, List.count_nil, List.map_const', List.length_range]

theorem increment?_counted {n item : Nat} (h : item < n) :
    increment? (counted n placed) item = some (counted n (placed ++ [item])) := by
  rw [increment?, length_counted, if_pos h]
  congr 1
  apply List.ext_getElem
  · simp [length_counted]
  · intro i hi _
    simp only [counted, List.getElem_modify, List.getElem_map, List.getElem_range,
      List.count_append, List.count_singleton, beq_iff_eq]
    split <;> rfl

theorem place_of_lt {item bytes : Nat} (h : item < sizes.length) :
    Tally.place sizes ⟨counted sizes.length placed, bytes⟩ item =
      pure ⟨counted sizes.length (placed ++ [item]), bytes + sizeOf sizes item⟩ := by
  rw [Tally.place, List.getElem?_eq_getElem h]
  dsimp only
  rw [increment?_counted h, sizeOf, List.getD_eq_getElem?_getD, List.getElem?_eq_getElem h]
  rfl

theorem place_of_le {item : Nat} {tally : Tally} (h : sizes.length ≤ item) :
    tally.place sizes item = throw (.unknownItem item) := by
  rw [Tally.place, List.getElem?_eq_none h]

theorem foldlM_place (bin : List Nat) (bytes : Nat) :
    bin.foldlM (Tally.place sizes) ⟨counted sizes.length placed, bytes⟩ =
      match bin.find? fun item => decide (sizes.length ≤ item) with
      | some item => throw (.unknownItem item)
      | none => pure ⟨counted sizes.length (placed ++ bin), bytes + load sizes bin⟩ := by
  induction bin generalizing placed bytes with
  | nil => simp [load]
  | cons item bin ih =>
    rw [List.foldlM_cons, List.find?_cons]
    by_cases h : sizes.length ≤ item
    · rw [place_of_le h, decide_eq_true h]
      rfl
    · rw [place_of_lt (Nat.not_le.mp h), decide_eq_false h, pure_bind, ih]
      simp [load, Nat.add_assoc]

theorem placeBin_counted (bin : List Nat) (index : Nat) :
    placeBin sizes capacity (counted sizes.length placed) (bin, index) =
      match binViolation? sizes capacity index bin with
      | some violation => throw violation
      | none => pure (counted sizes.length (placed ++ bin)) := by
  rw [placeBin, binViolation?, foldlM_place]
  cases bin.find? fun item => decide (sizes.length ≤ item) with
  | some item => rfl
  | none =>
    simp only [pure_bind, Nat.zero_add]
    by_cases h : load sizes bin ≤ capacity
    · rw [if_pos h, if_neg (Nat.not_lt.mpr h)]
    · rw [if_neg h, if_pos (Nat.not_le.mp h)]
      rfl

theorem foldlM_placeBin (bins : List (List Nat)) (index : Nat) :
    (bins.zipIdx index).foldlM (placeBin sizes capacity) (counted sizes.length placed) =
      match firstBinViolation? sizes capacity index bins with
      | some violation => throw violation
      | none => pure (counted sizes.length (placed ++ bins.flatten)) := by
  induction bins generalizing placed index with
  | nil => simp [firstBinViolation?]
  | cons bin bins ih =>
    rw [List.zipIdx_cons, List.foldlM_cons, placeBin_counted, firstBinViolation?]
    cases binViolation? sizes capacity index bin with
    | some violation => rfl
    | none => rw [pure_bind, ih, List.flatten_cons, List.append_assoc]

theorem settle_counted (n : Nat) (bins : List (List Nat)) :
    settle (counted n bins.flatten) =
      match (List.range n).findSome? (itemViolation? bins) with
      | some violation => throw violation
      | none => pure () := by
  rw [settle]
  cases hfind : (counted n bins.flatten).findIdx? (· != 1) with
  | none =>
    have hnone : (List.range n).findSome? (itemViolation? bins) = none := by
      simpa [counted, List.findIdx?_eq_none_iff, itemViolation?_eq_none_iff] using hfind
    rw [hnone]
  | some item =>
    obtain ⟨hitem, hcount, hbelow⟩ := List.findIdx?_eq_some_iff_getElem.mp hfind
    rw [length_counted] at hitem
    have hsome : (List.range n).findSome? (itemViolation? bins) =
        some (.miscounted item (bins.flatten.count item)) := by
      refine findSome?_range_eq_some_iff.mpr ⟨item, hitem, ?_, ?_⟩
      · rw [itemViolation?_eq_some_iff]
        exact ⟨by simpa [counted] using hcount, rfl⟩
      · intro i hi
        rw [itemViolation?_eq_none_iff]
        simpa [counted] using hbelow i hi
    rw [hsome]
    dsimp only
    rw [getElem?_counted hitem]
    rfl

theorem pass_eq (packing : Packing) (sizes : List Nat) (capacity : Nat) :
    packing.pass sizes capacity =
      match packing.violation? sizes capacity with
      | some violation => throw violation
      | none => pure () := by
  rw [pass, ← counted_nil, foldlM_placeBin, violation?]
  cases firstBinViolation? sizes capacity 0 packing.bins with
  | some violation => rfl
  | none => exact settle_counted sizes.length packing.bins

theorem check?_eq_some_validate (packing : Packing) (sizes : List Nat) (capacity : Nat) :
    packing.check? sizes capacity = some (packing.validate sizes capacity) := by
  rw [check?, pass_eq, validate]
  cases packing.violation? sizes capacity with
  | some violation => rfl
  | none => rfl

end Pass

/-- The pass never leaves the range of its counts, and tells the first violation if there is one. -/
theorem validate_finds_first (packing : Packing) (sizes : List Nat) (capacity : Nat) :
    packing.check? sizes capacity = some (packing.validate sizes capacity) ∧
    (packing.validate sizes capacity = .ok () ↔ packing.Valid sizes capacity) ∧
    ∀ fault, packing.validate sizes capacity = .error fault ↔
      ∃ violation, packing.FirstViolation sizes capacity violation ∧
        fault = .invalidPacking violation.message :=
  ⟨check?_eq_some_validate packing sizes capacity, validate_eq_ok_iff,
    fun _ => validate_eq_error_iff⟩

/-- A bin that exceeds the capacity is told before an item that is in no bin. -/
example : (ofBins [[0, 1], [0]] false).violation? [16, 32, 16] 32 = some (.overfull 0 48 32) := by
  cbv

end Packing

end StorageSlots
