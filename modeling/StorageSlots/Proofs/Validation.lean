import StorageSlots.Packing.FirstFit
import StorageSlots.Packing.Packable
import StorageSlots.Packing.Validity
import Mathlib.Data.List.Nodup

/-!
Valid packings: the check finds nothing exactly if a packing is valid, and a valid packing is a way
to pack the sizes.

Packings made from entries are valid if the entries are those of the sizes and no bin is overfull.
-/

namespace StorageSlots

namespace Packing

variable {packing : Packing} {sizes : List Nat} {capacity : Nat}

theorem binViolation?_eq_none_iff (index : Nat) {bin : List Nat} :
    binViolation? sizes capacity index bin = none ↔
      (∀ item ∈ bin, item < sizes.length) ∧ load sizes bin ≤ capacity := by
  unfold binViolation?
  split
  · next item h =>
    obtain ⟨hmem, hle⟩ : item ∈ bin ∧ sizes.length ≤ item :=
      ⟨List.mem_of_find?_eq_some h, by simpa using List.find?_some h⟩
    constructor
    · intro hnone
      simp at hnone
    · intro hall
      exact absurd (hall.1 item hmem) (Nat.not_lt.mpr hle)
  · next h =>
    have hknown : ∀ item ∈ bin, item < sizes.length := by
      simpa using List.find?_eq_none.mp h
    split
    · next hfits => exact ⟨fun _ => ⟨hknown, hfits⟩, fun _ => rfl⟩
    · next hover =>
      constructor
      · intro hnone
        simp at hnone
      · intro hall
        exact absurd hall.2 hover

theorem firstBinViolation?_eq_none_iff (index : Nat) {bins : List (List Nat)} :
    firstBinViolation? sizes capacity index bins = none ↔
      ∀ bin ∈ bins, (∀ item ∈ bin, item < sizes.length) ∧ load sizes bin ≤ capacity := by
  induction bins generalizing index with
  | nil => simp [firstBinViolation?]
  | cons bin bins ih =>
    rw [List.forall_mem_cons, ← binViolation?_eq_none_iff index, ← ih (index + 1),
      firstBinViolation?]
    split
    · next violation h => simp [h]
    · next h => simp [h]

theorem violation?_eq_none_iff : packing.violation? sizes capacity = none ↔
    packing.Valid sizes capacity := by
  have hitems : (List.range sizes.length).findSome? (itemViolation? packing.bins) = none ↔
      ∀ item < sizes.length, packing.bins.flatten.count item = 1 := by
    simp [List.findSome?_eq_none_iff, itemViolation?]
  unfold violation?
  split
  · next violation h =>
    constructor
    · intro hnone
      simp at hnone
    · intro hvalid
      have hbins := (firstBinViolation?_eq_none_iff 0).mpr fun bin hbin =>
        ⟨hvalid.known bin hbin, hvalid.fits bin hbin⟩
      rw [h] at hbins
      simp at hbins
  · next h =>
    have hbins := (firstBinViolation?_eq_none_iff 0).mp h
    rw [hitems]
    constructor
    · intro honce
      exact ⟨fun bin hbin => (hbins bin hbin).1, honce, fun bin hbin => (hbins bin hbin).2⟩
    · intro hvalid
      exact hvalid.once

theorem validate_eq_ok_iff : packing.validate sizes capacity = .ok () ↔
    packing.Valid sizes capacity := by
  rw [← violation?_eq_none_iff]
  unfold validate
  split
  · next violation h => simp [h]
  · next h => simp [h]

theorem map_sizeOf_range (sizes : List Nat) :
    (List.range sizes.length).map (sizeOf sizes) = sizes := by
  apply List.ext_getElem
  · simp
  · intro i _ hi
    simp [sizeOf, hi]

theorem valid_iff : packing.Valid sizes capacity ↔
    packing.bins.flatten.Perm (List.range sizes.length) ∧
      ∀ bin ∈ packing.bins, load sizes bin ≤ capacity := by
  constructor
  · intro h
    have hmem : ∀ item, item ∈ packing.bins.flatten ↔ item ∈ List.range sizes.length := by
      intro item
      rw [List.mem_range]
      constructor
      · intro hitem
        obtain ⟨bin, hbin, hin⟩ := List.mem_flatten.mp hitem
        exact h.known bin hbin item hin
      · intro hitem
        exact List.count_pos_iff.mp (by rw [h.once item hitem]; exact Nat.one_pos)
    have hnodup : packing.bins.flatten.Nodup := by
      rw [List.nodup_iff_count_le_one]
      intro item
      by_cases hitem : item < sizes.length
      · exact Nat.le_of_eq (h.once item hitem)
      · rw [← List.mem_range, ← hmem] at hitem
        rw [List.count_eq_zero_of_not_mem hitem]
        exact Nat.zero_le 1
    exact ⟨(List.perm_ext_iff_of_nodup hnodup List.nodup_range).mpr hmem, h.fits⟩
  · rintro ⟨hperm, hfits⟩
    refine ⟨?_, ?_, hfits⟩
    · intro bin hbin item hitem
      exact List.mem_range.mp (hperm.mem_iff.mp (List.mem_flatten.mpr ⟨bin, hbin, hitem⟩))
    · intro item hitem
      rw [hperm.count_eq]
      exact List.count_eq_one_of_mem List.nodup_range (List.mem_range.mpr hitem)

theorem Valid.packable (h : packing.Valid sizes capacity) :
    Packable capacity packing.binCount sizes := by
  obtain ⟨hperm, hfits⟩ := valid_iff.mp h
  refine ⟨packing.bins.map (List.map (sizeOf sizes)), ?_, ?_, ?_⟩
  · simp [binCount]
  · rw [← List.map_flatten]
    have hmap := hperm.map (sizeOf sizes)
    rwa [map_sizeOf_range] at hmap
  · intro bin hbin
    obtain ⟨raw, hraw, rfl⟩ := List.mem_map.mp hbin
    exact hfits raw hraw

theorem load_perm {bin other : List Nat} (h : bin.Perm other) : load sizes bin = load sizes other :=
  total_perm (h.map _)

theorem mem_normalize {bins : List (List Nat)} {bin : List Nat} :
    bin ∈ normalize bins ↔ ∃ raw ∈ bins, raw ≠ [] ∧ sortBin raw = bin := by
  unfold normalize
  rw [(sortBins_perm _).mem_iff]
  simp [and_assoc]

theorem flatten_map_sortBin_perm (bins : List (List Nat)) :
    (bins.map sortBin).flatten.Perm bins.flatten := by
  induction bins with
  | nil => exact .refl _
  | cons bin bins ih =>
    rw [List.map_cons, List.flatten_cons, List.flatten_cons]
    exact (sortBin_perm bin).append ih

theorem flatten_normalize_perm (bins : List (List Nat)) :
    (normalize bins).flatten.Perm bins.flatten := by
  have hsort := (sortBins_perm ((bins.filter fun bin => !bin.isEmpty).map sortBin)).flatten
  have hmap := flatten_map_sortBin_perm (bins.filter fun bin => !bin.isEmpty)
  rw [List.flatten_filter_not_isEmpty] at hmap
  exact hsort.trans hmap

theorem length_normalize_le (bins : List (List Nat)) : (normalize bins).length ≤ bins.length := by
  unfold normalize
  rw [(sortBins_perm _).length_eq, List.length_map]
  exact List.length_filter_le _ bins

end Packing

namespace FirstFit

theorem map_item_entriesFrom (start : Nat) (sizes : List Nat) :
    (entriesFrom start sizes).map Entry.item = List.range' start sizes.length := by
  induction sizes generalizing start with
  | nil => rfl
  | cons size sizes ih =>
    rw [entriesFrom, List.map_cons, ih, List.length_cons, List.range'_succ]

theorem map_size_entriesFrom (start : Nat) (sizes : List Nat) :
    (entriesFrom start sizes).map Entry.size = sizes := by
  induction sizes generalizing start with
  | nil => rfl
  | cons size sizes ih => rw [entriesFrom, List.map_cons, ih]

theorem getElem?_of_mem_entriesFrom {start : Nat} {sizes : List Nat} {entry : Entry}
    (h : entry ∈ entriesFrom start sizes) :
    start ≤ entry.item ∧ sizes[entry.item - start]? = some entry.size := by
  induction sizes generalizing start with
  | nil => simp [entriesFrom] at h
  | cons size sizes ih =>
    rcases List.mem_cons.mp h with rfl | h
    · simp
    · obtain ⟨hle, hget⟩ := ih h
      refine ⟨by omega, ?_⟩
      rwa [show entry.item - start = entry.item - (start + 1) + 1 by omega,
        List.getElem?_cons_succ]

theorem sizeOf_of_mem_entriesFrom {sizes : List Nat} {entry : Entry}
    (h : entry ∈ entriesFrom 0 sizes) : Packing.sizeOf sizes entry.item = entry.size := by
  have hget := (getElem?_of_mem_entriesFrom h).2
  rw [Nat.sub_zero] at hget
  rw [Packing.sizeOf, List.getD_eq_getElem?_getD, hget, Option.getD_some]

theorem map_sizeOf_map_item {sizes : List Nat} {bin : List Entry}
    (h : ∀ entry ∈ bin, entry ∈ entriesFrom 0 sizes) :
    (bin.map Entry.item).map (Packing.sizeOf sizes) = bin.map Entry.size := by
  rw [List.map_map]
  exact List.map_congr_left fun entry hentry => sizeOf_of_mem_entriesFrom (h entry hentry)

end FirstFit

namespace Packing

open FirstFit (Entry entriesFrom)

theorem valid_ofBins {bins : List (List Entry)} {sizes : List Nat} {capacity : Nat}
    (certified : Bool) (hperm : bins.flatten.Perm (entriesFrom 0 sizes))
    (hfits : ∀ bin ∈ bins, FirstFit.load bin ≤ capacity) :
    (ofBins (bins.map (List.map Entry.item)) certified).Valid sizes capacity := by
  have hentry : ∀ bin ∈ bins, ∀ entry ∈ bin, entry ∈ entriesFrom 0 sizes := by
    intro bin hbin entry hentry
    exact hperm.mem_iff.mp (List.mem_flatten.mpr ⟨bin, hbin, hentry⟩)
  rw [valid_iff]
  constructor
  · refine (flatten_normalize_perm _).trans ?_
    rw [← List.map_flatten, List.range_eq_range', ← FirstFit.map_item_entriesFrom]
    exact hperm.map Entry.item
  · intro bin hbin
    obtain ⟨raw, hraw, _, rfl⟩ := mem_normalize.mp hbin
    obtain ⟨source, hsource, rfl⟩ := List.mem_map.mp hraw
    rw [load_perm (sortBin_perm _), load, FirstFit.map_sizeOf_map_item (hentry source hsource)]
    exact hfits source hsource

end Packing

end StorageSlots
