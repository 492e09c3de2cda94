import StorageSlots.Proofs.Validation
import Mathlib.Data.List.Pairwise
import Mathlib.Data.Multiset.Filter
import Mathlib.Data.Multiset.Sort

/-!
The normal form of bins.

Bins in normal form hold the items that the given bins hold, and are their own normal form. Where no
two bins share an item, the normal form does not depend on the order of the bins or of their items:
bins are ordered by their first items, and these differ.
-/

namespace StorageSlots

namespace Packing

/-- The bins, in no order, with the items of each in no order. -/
def unordered (bins : List (List Nat)) : Multiset (Multiset Nat) :=
  .ofList (bins.map .ofList)

theorem sort_coe (bin : List Nat) : (Multiset.ofList bin).sort (· ≤ ·) = sortBin bin := by
  rw [Multiset.coe_sort]
  rfl

theorem filter_unordered (bins : List (List Nat)) :
    (unordered bins).filter (· ≠ 0) = unordered (bins.filter fun bin => !bin.isEmpty) := by
  rw [unordered, unordered, Multiset.filter_coe, List.filter_map]
  congr 3
  funext bin
  cases bin <;> rfl

theorem coe_normalize (bins : List (List Nat)) :
    Multiset.ofList (normalize bins) =
      ((unordered bins).filter (· ≠ 0)).map fun bin => bin.sort (· ≤ ·) := by
  rw [filter_unordered, unordered, Multiset.map_coe, List.map_map, normalize,
    Multiset.coe_eq_coe.mpr (sortBins_perm _)]
  exact congrArg _ (List.map_congr_left fun bin _ => (sort_coe bin).symm)

theorem unordered_normalize (bins : List (List Nat)) :
    unordered (normalize bins) = (unordered bins).filter (· ≠ 0) := by
  rw [unordered, ← Multiset.map_coe, coe_normalize, Multiset.map_map]
  exact (Multiset.map_congr rfl fun bin _ => bin.sort_eq _).trans (Multiset.map_id _)

theorem Normal.normalize_eq {bins : List (List Nat)} (h : Normal bins) : normalize bins = bins := by
  have hfilter : (bins.filter fun bin => !bin.isEmpty) = bins := by
    rw [List.filter_eq_self]
    intro bin hbin
    simpa using h.nonempty bin hbin
  have hmap : bins.map sortBin = bins := by
    refine (List.map_congr_left fun bin hbin => ?_).trans (List.map_id bins)
    exact List.mergeSort_of_pairwise (by simpa using h.ascending bin hbin)
  rw [normalize, hfilter, hmap]
  exact List.mergeSort_of_pairwise (by simpa using h.ordered)

theorem first_mem {bin : List Nat} (h : bin ≠ []) : first bin ∈ bin := by
  obtain ⟨item, rest, rfl⟩ := List.exists_cons_of_ne_nil h
  exact List.mem_cons_self

theorem disjoint_normalize {bins : List (List Nat)} (h : bins.Pairwise List.Disjoint) :
    (normalize bins).Pairwise List.Disjoint := by
  rw [normalize, (sortBins_perm _).pairwise_iff fun hdisjoint => hdisjoint.symm, List.pairwise_map]
  refine (h.filter _).imp fun hdisjoint => ?_
  intro item ha hb
  exact hdisjoint ((sortBin_perm _).mem_iff.mp ha) ((sortBin_perm _).mem_iff.mp hb)

theorem eq_of_first_eq {bins : List (List Nat)} (h : bins.Pairwise List.Disjoint)
    {a b : List Nat} (ha : a ∈ normalize bins) (hb : b ∈ normalize bins)
    (hfirst : first a = first b) : a = b := by
  have hnonempty := (normalize_normal bins).nonempty
  have : Std.Symm (@List.Disjoint Nat) := ⟨fun _ _ hdisjoint => hdisjoint.symm⟩
  by_contra hne
  have hdisjoint := (disjoint_normalize h).forall ha hb hne
  refine hdisjoint (first_mem (hnonempty a ha)) ?_
  rw [hfirst]
  exact first_mem (hnonempty b hb)

theorem normalize_eq_iff {bins other : List (List Nat)} (h : bins.Pairwise List.Disjoint) :
    normalize bins = normalize other ↔
      (unordered bins).filter (· ≠ 0) = (unordered other).filter (· ≠ 0) := by
  constructor
  · intro heq
    rw [← unordered_normalize, ← unordered_normalize, heq]
  · intro heq
    have hperm : (normalize bins).Perm (normalize other) := by
      rw [← Multiset.coe_eq_coe, coe_normalize, coe_normalize, heq]
    have hantisymm : ∀ a b, a ∈ normalize bins → b ∈ normalize other →
        first a ≤ first b → first b ≤ first a → a = b := by
      intro a b ha hb hab hba
      exact eq_of_first_eq h ha (hperm.mem_iff.mpr hb) (Nat.le_antisymm hab hba)
    exact hperm.eq_of_pairwise hantisymm (normalize_normal bins).ordered
      (normalize_normal other).ordered

theorem unordered_eq {bins shuffled other : List (List Nat)} (hbins : bins.Perm shuffled)
    (hitems : List.Forall₂ List.Perm shuffled other) : unordered bins = unordered other := by
  have hmap : shuffled.map Multiset.ofList = other.map Multiset.ofList := by
    clear hbins
    induction hitems with
    | nil => rfl
    | cons hperm _ ih => rw [List.map_cons, List.map_cons, ih, Multiset.coe_eq_coe.mpr hperm]
  rw [unordered, unordered, ← hmap, Multiset.coe_eq_coe]
  exact hbins.map Multiset.ofList

theorem ofBins_eq_iff {bins other : List (List Nat)} {certified : Bool} :
    ofBins bins certified = ofBins other certified ↔ normalize bins = normalize other := by
  constructor
  · intro h
    exact congrArg Packing.bins h
  · intro h
    exact ext_bins h rfl

theorem ofBins_canonical (bins other : List (List Nat)) (certified : Bool) :
    Normal (ofBins bins certified).bins ∧
    unordered (ofBins bins certified).bins = (unordered bins).filter (· ≠ 0) ∧
    ofBins (ofBins bins certified).bins certified = ofBins bins certified ∧
    (bins.Pairwise List.Disjoint →
      (ofBins bins certified = ofBins other certified ↔
        (unordered bins).filter (· ≠ 0) = (unordered other).filter (· ≠ 0)) ∧
      ∀ shuffled, bins.Perm shuffled → List.Forall₂ List.Perm shuffled other →
        ofBins bins certified = ofBins other certified) := by
  refine ⟨normalize_normal bins, unordered_normalize bins, ?_, ?_⟩
  · exact ext_bins (normalize_normal bins).normalize_eq rfl
  · intro hdisjoint
    refine ⟨ofBins_eq_iff.trans (normalize_eq_iff hdisjoint), ?_⟩
    intro shuffled hbins hitems
    rw [ofBins_eq_iff, normalize_eq_iff hdisjoint, unordered_eq hbins hitems]

theorem ofBins_canonical_shuffled :
    [[4, 1], [], [2, 0]].Pairwise List.Disjoint ∧
    [[4, 1], [], [2, 0]].Perm [[2, 0], [4, 1], []] ∧
    List.Forall₂ List.Perm [[2, 0], [4, 1], []] [[0, 2], [1, 4], []] ∧
    ofBins [[4, 1], [], [2, 0]] true = ofBins [[0, 2], [1, 4], []] true := by
  have hdisjoint : [[4, 1], [], [2, 0]].Pairwise List.Disjoint := by simp
  have hbins : [[4, 1], [], [2, 0]].Perm [[2, 0], [4, 1], []] := by decide
  have hitems : List.Forall₂ List.Perm [[2, 0], [4, 1], []] [[0, 2], [1, 4], []] := by decide
  obtain ⟨-, -, -, hsame⟩ := ofBins_canonical [[4, 1], [], [2, 0]] [[0, 2], [1, 4], []] true
  exact ⟨hdisjoint, hbins, hitems, (hsame hdisjoint).2 _ hbins hitems⟩

/-- Bins that share their first item keep the order in which they are given. -/
example : (ofBins [[0, 2], [0, 1]] false).bins = [[0, 2], [0, 1]] := by
  cbv

end Packing

end StorageSlots
