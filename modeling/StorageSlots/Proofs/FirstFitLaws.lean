import StorageSlots.Proofs.Crowding
import StorageSlots.Proofs.Validation

/-!
What first-fit decreasing makes of the sizes.

The packing is valid if no size exceeds the capacity, its bins are crowded, and the sizes that share
a bin do not depend on the order in which the sizes are given.
-/

namespace StorageSlots

namespace FirstFit

variable {capacity : Nat} {sizes : List Nat}

theorem insert_cases (capacity : Nat) (entry : Entry) (bins : List (List Entry)) :
    (∃ before bin after, bins = before ++ bin :: after ∧ load bin + entry.size ≤ capacity ∧
      insert capacity entry bins = before ++ (bin ++ [entry]) :: after) ∨
    ((∀ bin ∈ bins, capacity < load bin + entry.size) ∧
      insert capacity entry bins = bins ++ [[entry]]) := by
  induction bins with
  | nil => exact .inr ⟨by simp, rfl⟩
  | cons bin bins ih =>
    unfold insert
    by_cases hfits : load bin + entry.size ≤ capacity
    · rw [if_pos hfits]
      exact .inl ⟨[], bin, bins, rfl, hfits, rfl⟩
    · rw [if_neg hfits]
      rcases ih with ⟨before, b, after, rfl, hb, hins⟩ | ⟨hfull, hins⟩
      · exact .inl ⟨bin :: before, b, after, rfl, hb, by rw [hins]; rfl⟩
      · refine .inr ⟨?_, by rw [hins]; rfl⟩
        intro b hb
        rcases List.mem_cons.mp hb with rfl | hb
        · exact Nat.not_le.mp hfits
        · exact hfull b hb

theorem forall_mem_insert {P : List Entry → Prop} {entry : Entry} {bins : List (List Entry)}
    (h : ∀ bin ∈ bins, P bin)
    (hjoin : ∀ bin ∈ bins, load bin + entry.size ≤ capacity → P (bin ++ [entry]))
    (hopen : P [entry]) : ∀ bin ∈ insert capacity entry bins, P bin := by
  rcases insert_cases capacity entry bins with ⟨before, bin, after, rfl, hfits, hins⟩ | ⟨_, hins⟩
  · rw [hins]
    intro b hb
    rcases List.mem_append.mp hb with hb | hb
    · exact h b (List.mem_append_left _ hb)
    · rcases List.mem_cons.mp hb with rfl | hb
      · exact hjoin bin (by simp) hfits
      · exact h b (by simp [hb])
  · rw [hins]
    intro b hb
    rcases List.mem_append.mp hb with hb | hb
    · exact h b hb
    · rwa [List.mem_singleton.mp hb]

theorem foldl_insert_induction (capacity : Nat) {P : List (List Entry) → List Entry → Prop}
    (step : ∀ bins entry entries, P bins (entry :: entries) →
      P (insert capacity entry bins) entries)
    (entries : List Entry) (bins : List (List Entry)) (h : P bins entries) :
    P (entries.foldl (fun bins entry => insert capacity entry bins) bins) [] := by
  induction entries generalizing bins with
  | nil => exact h
  | cons entry entries ih => exact ih _ (step bins entry entries h)

theorem decreasing_perm (sizes : List Nat) : (decreasing sizes).Perm (entriesFrom 0 sizes) :=
  List.mergeSort_perm _ _

theorem decreasing_ordered (sizes : List Nat) :
    (decreasing sizes).Pairwise fun a b => b.size ≤ a.size := by
  have h := @List.pairwise_mergeSort Entry (fun a b => decide (b.size ≤ a.size))
    (by simpa using fun a b c hab hbc => Nat.le_trans hbc hab)
    (by simpa using fun a b => Nat.le_total _ _) (entriesFrom 0 sizes)
  simpa [decreasing] using h

theorem decreasing_of_pairwise (h : sizes.Pairwise (· ≥ ·)) :
    decreasing sizes = entriesFrom 0 sizes := by
  rw [← map_size_entriesFrom 0 sizes, List.pairwise_map] at h
  exact List.mergeSort_of_pairwise (by simpa using h)

theorem map_size_decreasing_perm (sizes : List Nat) :
    ((decreasing sizes).map Entry.size).Perm sizes := by
  have h := (decreasing_perm sizes).map Entry.size
  rwa [map_size_entriesFrom] at h

theorem size_mem_of_mem_decreasing {entry : Entry} (h : entry ∈ decreasing sizes) :
    entry.size ∈ sizes :=
  (map_size_decreasing_perm sizes).mem_iff.mp (List.mem_map_of_mem h)

theorem flatten_bins_perm (sizes : List Nat) (capacity : Nat) :
    (bins sizes capacity).flatten.Perm (entriesFrom 0 sizes) := by
  have h := foldl_insert_induction capacity
    (P := fun bins entries => (bins.flatten ++ entries).Perm (entriesFrom 0 sizes))
    (fun bins entry entries h =>
      (((flatten_insert capacity entry bins).append_right entries).trans
        List.perm_middle.symm).trans h)
    (decreasing sizes) [] (decreasing_perm sizes)
  rwa [List.append_nil] at h

theorem map_size_flatten_bins_perm (sizes : List Nat) (capacity : Nat) :
    ((bins sizes capacity).flatten.map Entry.size).Perm sizes := by
  have h := (flatten_bins_perm sizes capacity).map Entry.size
  rwa [map_size_entriesFrom] at h

theorem mem_entriesFrom_of_mem_bins {bin : List Entry} (hbin : bin ∈ bins sizes capacity) :
    ∀ entry ∈ bin, entry ∈ entriesFrom 0 sizes := by
  intro entry hentry
  exact (flatten_bins_perm sizes capacity).mem_iff.mp (List.mem_flatten.mpr ⟨bin, hbin, hentry⟩)

theorem bins_ne_nil : ∀ bin ∈ bins sizes capacity, bin ≠ [] := by
  refine foldl_insert_induction capacity (P := fun bins _ => ∀ bin ∈ bins, bin ≠ []) ?_
    (decreasing sizes) [] (by simp)
  intro bins entry entries h
  exact forall_mem_insert h (by simp) (by simp)

theorem load_bins_le (h : ∀ size ∈ sizes, size ≤ capacity) :
    ∀ bin ∈ bins sizes capacity, load bin ≤ capacity := by
  have hfold := foldl_insert_induction capacity
    (P := fun bins entries => (∀ entry ∈ entries, entry.size ≤ capacity) ∧
      ∀ bin ∈ bins, load bin ≤ capacity)
    (fun bins entry entries ⟨hentries, hbins⟩ => by
      obtain ⟨hentry, hentries⟩ := List.forall_mem_cons.mp hentries
      refine ⟨hentries, forall_mem_insert hbins ?_ ?_⟩
      · intro bin _ hfits
        simpa using hfits
      · simpa using hentry)
    (decreasing sizes) [] ⟨fun e he => h _ (size_mem_of_mem_decreasing he), by simp⟩
  exact hfold.2

theorem forall_size_le_insert {entry : Entry} {entries : List Entry} {bins : List (List Entry)}
    (hordered : (entry :: entries).Pairwise fun a b => b.size ≤ a.size)
    (h : ∀ bin ∈ bins, ∀ e ∈ bin, ∀ other ∈ entry :: entries, other.size ≤ e.size) :
    ∀ bin ∈ insert capacity entry bins, ∀ e ∈ bin, ∀ other ∈ entries, other.size ≤ e.size := by
  have hnew := (List.pairwise_cons.mp hordered).1
  have hold : ∀ bin ∈ bins, ∀ e ∈ bin, ∀ other ∈ entries, other.size ≤ e.size :=
    fun bin hbin e he => (List.forall_mem_cons.mp (h bin hbin e he)).2
  refine forall_mem_insert hold ?_ (List.forall_mem_singleton.mpr hnew)
  intro bin hbin _
  exact List.forall_mem_append.mpr ⟨hold bin hbin, List.forall_mem_singleton.mpr hnew⟩

/-- What holds while entries from the largest to the smallest are inserted into bins. -/
structure Run (capacity : Nat) (bins : List (List Entry)) (entries : List Entry) : Prop where
  nonempty : ∀ bin ∈ bins, bin ≠ []
  positive : ∀ entry ∈ entries, 0 < entry.size
  ordered : entries.Pairwise fun a b => b.size ≤ a.size
  large : ∀ bin ∈ bins, ∀ e ∈ bin, ∀ entry ∈ entries, entry.size ≤ e.size
  crowded : ∃ least, Crowded capacity least (bins.map (List.map Entry.size))

namespace Run

variable {entry : Entry} {entries : List Entry} {bins : List (List Entry)}

theorem crowded_open (h : Run capacity bins (entry :: entries))
    (hfull : ∀ bin ∈ bins, capacity < load bin + entry.size) :
    Crowded capacity entry.size ((bins ++ [[entry]]).map (List.map Entry.size)) := by
  have hlarge : ∀ bin ∈ bins, ∀ e ∈ bin, entry.size ≤ e.size :=
    fun bin hbin e he => h.large bin hbin e he entry (by simp)
  have hheavy : ∀ bin ∈ bins, Heavy capacity entry.size (bin.map Entry.size) := by
    intro bin hbin
    have hall : (bin.map Entry.size).filter (entry.size ≤ ·) = bin.map Entry.size :=
      List.filter_eq_self.mpr (by simpa using hlarge bin hbin)
    rw [Heavy, hall]
    exact hfull bin hbin
  refine ⟨h.positive entry (by simp), ?_, ?_⟩
  · intro sizes hsizes
    obtain ⟨bin, hbin, rfl⟩ := List.mem_map.mp hsizes
    rcases List.mem_append.mp hbin with hbin | hbin
    · obtain ⟨e, he⟩ := List.exists_mem_of_ne_nil bin (h.nonempty bin hbin)
      exact ⟨e.size, List.mem_map_of_mem he, hlarge bin hbin e he⟩
    · rw [List.mem_singleton.mp hbin]
      exact ⟨entry.size, by simp, Nat.le_refl _⟩
  · rw [List.pairwise_map, List.pairwise_append]
    refine ⟨?_, List.pairwise_singleton _ _, ?_⟩
    · exact List.pairwise_of_forall_mem_list fun a ha b _ => .inl (hheavy a ha)
    · exact fun a ha b _ => .inl (hheavy a ha)

theorem crowded_insert (h : Run capacity bins (entry :: entries)) :
    ∃ least, Crowded capacity least
      ((insert capacity entry bins).map (List.map Entry.size)) := by
  rcases insert_cases capacity entry bins with
    ⟨before, bin, after, rfl, _, hins⟩ | ⟨hfull, hins⟩
  · -- The entry joins a bin, and may be smaller than `least`.
    obtain ⟨least, hleast⟩ := h.crowded
    refine ⟨least, ?_⟩
    rw [hins]
    simp only [List.map_append, List.map_cons] at hleast ⊢
    exact hleast.grow _
  · rw [hins]
    exact ⟨entry.size, h.crowded_open hfull⟩

theorem insert (h : Run capacity bins (entry :: entries)) :
    Run capacity (FirstFit.insert capacity entry bins) entries where
  nonempty := forall_mem_insert h.nonempty (by simp) (by simp)
  positive := (List.forall_mem_cons.mp h.positive).2
  ordered := (List.pairwise_cons.mp h.ordered).2
  large := forall_size_le_insert h.ordered h.large
  crowded := h.crowded_insert

end Run

theorem run_bins (capacity : Nat) (hpos : ∀ size ∈ sizes, 0 < size) :
    Run capacity (bins sizes capacity) [] := by
  refine foldl_insert_induction capacity (fun _ _ _ h => h.insert) (decreasing sizes) [] ?_
  exact ⟨by simp, fun e he => hpos _ (size_mem_of_mem_decreasing he), decreasing_ordered sizes,
    by simp, 1, .nil⟩

theorem pack_valid (h : ∀ size ∈ sizes, size ≤ capacity) :
    (pack sizes capacity).Valid sizes capacity :=
  Packing.valid_ofBins _ (flatten_bins_perm sizes capacity) (load_bins_le h)

theorem bins_pack_perm (sizes : List Nat) (capacity : Nat) :
    (pack sizes capacity).bins.Perm
      ((bins sizes capacity).map fun bin => Packing.sortBin (bin.map Entry.item)) := by
  have hall : ((bins sizes capacity).map (List.map Entry.item)).filter (fun bin => !bin.isEmpty) =
      (bins sizes capacity).map (List.map Entry.item) := by
    rw [List.filter_eq_self]
    intro raw hraw
    obtain ⟨bin, hbin, rfl⟩ := List.mem_map.mp hraw
    simpa using bins_ne_nil bin hbin
  change (Packing.normalize _).Perm _
  unfold Packing.normalize
  rw [hall, List.map_map]
  exact Packing.sortBins_perm _

theorem map_sizeOf_sortBin_perm {bin : List Entry} (hbin : bin ∈ bins sizes capacity) :
    ((Packing.sortBin (bin.map Entry.item)).map (Packing.sizeOf sizes)).Perm
      (bin.map Entry.size) := by
  rw [← map_sizeOf_map_item (mem_entriesFrom_of_mem_bins hbin)]
  exact (Packing.sortBin_perm _).map _

theorem binCount_pack (sizes : List Nat) (capacity : Nat) :
    (pack sizes capacity).binCount = (bins sizes capacity).length := by
  rw [Packing.binCount, (bins_pack_perm sizes capacity).length_eq, List.length_map]

theorem crowded_pack (hpos : ∀ size ∈ sizes, 0 < size) (capacity : Nat) :
    ∃ least, Crowded capacity least
      ((pack sizes capacity).bins.map (List.map (Packing.sizeOf sizes))) := by
  obtain ⟨least, hleast⟩ := (run_bins capacity hpos).crowded
  refine ⟨least, Crowded.perm ?_ ((bins_pack_perm sizes capacity).map _).symm⟩
  refine hleast.of_forall₂ ?_
  rw [List.map_map, List.forall₂_map_left_iff, List.forall₂_map_right_iff, List.forall₂_same]
  exact fun bin hbin => (map_sizeOf_sortBin_perm hbin).symm

/-! ### The order of the sizes -/

def insertSize (capacity size : Nat) : List (List Nat) → List (List Nat)
  | [] => [[size]]
  | bin :: bins =>
    if total bin + size ≤ capacity then (bin ++ [size]) :: bins
    else bin :: insertSize capacity size bins

theorem map_size_insert (capacity : Nat) (entry : Entry) (bins : List (List Entry)) :
    (insert capacity entry bins).map (List.map Entry.size) =
      insertSize capacity entry.size (bins.map (List.map Entry.size)) := by
  induction bins with
  | nil => rfl
  | cons bin bins ih =>
    unfold insert
    rw [List.map_cons, insertSize, ← load]
    split
    · simp
    · rw [List.map_cons, ih]

theorem map_size_foldl_insert (capacity : Nat) (entries : List Entry)
    (bins : List (List Entry)) :
    (entries.foldl (fun bins entry => insert capacity entry bins) bins).map
        (List.map Entry.size) =
      (entries.map Entry.size).foldl (fun bins size => insertSize capacity size bins)
        (bins.map (List.map Entry.size)) := by
  induction entries generalizing bins with
  | nil => rfl
  | cons entry entries ih =>
    rw [List.foldl_cons, ih, map_size_insert, List.map_cons, List.foldl_cons]

theorem map_size_decreasing_eq {other : List Nat} (h : sizes.Perm other) :
    (decreasing sizes).map Entry.size = (decreasing other).map Entry.size := by
  have hperm := ((map_size_decreasing_perm sizes).trans h).trans
    (map_size_decreasing_perm other).symm
  have hordered (sizes : List Nat) : ((decreasing sizes).map Entry.size).Pairwise (· ≥ ·) :=
    List.pairwise_map.mpr (decreasing_ordered sizes)
  exact hperm.eq_of_pairwise (fun a b _ _ hab hba => Nat.le_antisymm hba hab) (hordered sizes)
    (hordered other)

theorem map_size_bins_eq {other : List Nat} (h : sizes.Perm other) (capacity : Nat) :
    (bins sizes capacity).map (List.map Entry.size) =
      (bins other capacity).map (List.map Entry.size) := by
  unfold bins
  rw [map_size_foldl_insert, map_size_foldl_insert, map_size_decreasing_eq h]

theorem length_bins_eq {other : List Nat} (h : sizes.Perm other) (capacity : Nat) :
    (bins sizes capacity).length = (bins other capacity).length := by
  have hlength := congrArg List.length (map_size_bins_eq h capacity)
  rwa [List.length_map, List.length_map] at hlength

theorem binCount_pack_eq {other : List Nat} (h : sizes.Perm other) (capacity : Nat) :
    (pack sizes capacity).binCount = (pack other capacity).binCount := by
  rw [binCount_pack, binCount_pack, length_bins_eq h]

theorem certified_pack_eq {other : List Nat} (h : sizes.Perm other) (capacity : Nat) :
    (pack sizes capacity).certified = (pack other capacity).certified := by
  change ((bins sizes capacity).length == lowerBound sizes capacity) =
    ((bins other capacity).length == lowerBound other capacity)
  rw [length_bins_eq h, lowerBound, lowerBound, total_perm h]

end FirstFit

end StorageSlots
