import StorageSlots.Total

/-!
Packings: which items share a bin.

Items are known by their place in a list of sizes. A packing is kept in normal form: no bin is
empty, the items of a bin ascend, and bins are ordered by their first item. `Packing.ofBins` brings
any bins into that form.
-/

namespace StorageSlots

namespace Packing

/-- The first item of a bin; an empty bin counts as if it began with item 0. -/
def first (bin : List Nat) : Nat :=
  bin.headD 0

def sortBin (bin : List Nat) : List Nat :=
  bin.mergeSort fun a b => decide (a ≤ b)

def sortBins (bins : List (List Nat)) : List (List Nat) :=
  bins.mergeSort fun a b => decide (first a ≤ first b)

/-- Drops the empty bins and sorts the others; bins with the same first item keep their order. -/
def normalize (bins : List (List Nat)) : List (List Nat) :=
  sortBins ((bins.filter fun bin => !bin.isEmpty).map sortBin)

structure Normal (bins : List (List Nat)) : Prop where
  nonempty : ∀ bin ∈ bins, bin ≠ []
  ascending : ∀ bin ∈ bins, bin.Pairwise (· ≤ ·)
  ordered : bins.Pairwise fun a b => first a ≤ first b

theorem sortBin_perm (bin : List Nat) : (sortBin bin).Perm bin :=
  List.mergeSort_perm bin _

theorem sortBins_perm (bins : List (List Nat)) : (sortBins bins).Perm bins :=
  List.mergeSort_perm bins _

theorem sortBin_ascending (bin : List Nat) : (sortBin bin).Pairwise (· ≤ ·) := by
  have h := @List.pairwise_mergeSort Nat (fun a b => decide (a ≤ b))
    (by simpa using fun a b c => Nat.le_trans) (by simpa using Nat.le_total) bin
  simpa [sortBin] using h

theorem sortBins_ordered (bins : List (List Nat)) :
    (sortBins bins).Pairwise fun a b => first a ≤ first b := by
  have h := @List.pairwise_mergeSort (List Nat) (fun a b => decide (first a ≤ first b))
    (by simpa using fun a b c => Nat.le_trans) (by simpa using fun a b => Nat.le_total _ _) bins
  simpa [sortBins] using h

theorem normalize_normal (bins : List (List Nat)) : Normal (normalize bins) := by
  have member {bin : List Nat} (h : bin ∈ normalize bins) :
      ∃ raw ∈ bins, raw ≠ [] ∧ sortBin raw = bin := by
    simpa [and_assoc] using (sortBins_perm _).mem_iff.mp h
  refine ⟨fun bin h => ?_, fun bin h => ?_, sortBins_ordered _⟩
  · obtain ⟨raw, _, hne, rfl⟩ := member h
    intro hnil
    exact hne (by simpa [hnil] using sortBin_perm raw)
  · obtain ⟨raw, _, _, rfl⟩ := member h
    exact sortBin_ascending raw

end Packing

structure Packing where
  bins : List (List Nat)
  /-- Whether the number of bins is known to be the least possible. -/
  certified : Bool
  normal : Packing.Normal bins

namespace Packing

def ofBins (bins : List (List Nat)) (certified : Bool) : Packing :=
  ⟨normalize bins, certified, normalize_normal bins⟩

def binCount (packing : Packing) : Nat :=
  packing.bins.length

theorem ext_bins {p q : Packing} (hb : p.bins = q.bins) (hc : p.certified = q.certified) :
    p = q := by
  cases p
  cases q
  simp_all

instance : DecidableEq Packing := fun p q =>
  if h : p.bins = q.bins ∧ p.certified = q.certified then .isTrue (ext_bins h.1 h.2)
  else .isFalse fun e => h (by simp [e])

end Packing

/-- The number of bins that the total size calls for, whatever shares a bin. A capacity of 0 counts
as 1. -/
def lowerBound (sizes : List Nat) (capacity : Nat) : Nat :=
  let bin := max capacity 1
  (total sizes + (bin - 1)) / bin

end StorageSlots
