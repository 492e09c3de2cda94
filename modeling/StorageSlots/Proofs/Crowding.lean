import StorageSlots.Proofs.Offset
import Mathlib.Data.List.Forall2

/-!
Bins that cannot be merged by laying them out in sequence.

Bins are crowded from a size on if all but one of them have no room for that size even when smaller
sizes are left out, and each of them holds a size that large. However crowded bins and their members
are ordered, the filling rule opens a slot for each of them.
-/

namespace StorageSlots

theorem exists_mem_of_forall₂ {α β : Type} {R : α → β → Prop} {xs : List α} {ys : List β}
    (h : List.Forall₂ R xs ys) {y : β} (hy : y ∈ ys) : ∃ x ∈ xs, R x y := by
  induction h with
  | nil => cases hy
  | cons hxy _ ih =>
    rcases List.mem_cons.mp hy with rfl | hy
    · exact ⟨_, List.mem_cons_self, hxy⟩
    · obtain ⟨x, hx, hxy⟩ := ih hy
      exact ⟨x, List.mem_cons_of_mem _ hx, hxy⟩

/-- Without the sizes below `least`, there is no room in the bin for a size of `least`. -/
def Heavy (capacity least : Nat) (bin : List Nat) : Prop :=
  capacity < total (bin.filter (least ≤ ·)) + least

structure Crowded (capacity least : Nat) (bins : List (List Nat)) : Prop where
  positive : 0 < least
  reached : ∀ bin ∈ bins, ∃ size ∈ bin, least ≤ size
  heavy : bins.Pairwise fun a b => Heavy capacity least a ∨ Heavy capacity least b

namespace Crowded

open Offset

variable {least : Nat}

/-- The last slot before an offset holds at least `least` bytes. -/
def Loaded (least offset : Nat) : Prop :=
  slotBytes * slots offset + least ≤ offset + slotBytes

theorem loaded_next {o s : Nat} (hleast : least ≤ s) (hs : s ≤ slotBytes) :
    Loaded least (next o s) := by
  unfold Loaded next
  split <;> simp only [slots, slotBytes] at * <;> omega

/-- There are sizes, and all of them are of at least `least` bytes and fit in a slot. -/
def Large (least : Nat) (sizes : List Nat) : Prop :=
  sizes ≠ [] ∧ ∀ s ∈ sizes, least ≤ s ∧ s ≤ slotBytes

theorem large_flatten {bin : List Nat} {bins : List (List Nat)}
    (h : ∀ b ∈ bin :: bins, Large least b) : Large least (bin :: bins).flatten := by
  constructor
  · have hne := (h bin (by simp)).1
    simp [hne]
  · intro s hs
    obtain ⟨b, hb, hmem⟩ := List.mem_flatten.mp hs
    exact (h b hb).2 s hmem

theorem loaded_after {o : Nat} {sizes : List Nat} (h : Large least sizes) :
    Loaded least (after o sizes) := by
  obtain ⟨hne, hall⟩ := h
  induction sizes generalizing o with
  | nil => exact absurd rfl hne
  | cons s sizes ih =>
    obtain ⟨⟨hleast, hs⟩, hsizes⟩ := List.forall_mem_cons.mp hall
    rw [after_cons]
    cases sizes with
    | nil => exact loaded_next hleast hs
    | cons s' sizes => exact ih (by simp) hsizes

theorem slots_after_pos {sizes : List Nat} (hpos : 0 < least) (h : Large least sizes) :
    0 < slots (after 0 sizes) := by
  obtain ⟨s, hmem⟩ := List.exists_mem_of_ne_nil sizes h.1
  have hleast := (h.2 s hmem).1
  have hsum := add_total_le_after 0 sizes
  have hsize := le_total_of_mem hmem
  rw [← Nat.not_le, slots_le_iff]
  omega

theorem slots_lt_slots_after {o : Nat} {bin : List Nat} (ho : Loaded least o)
    (hbin : slotBytes < total bin + least) : slots o < slots (after o bin) := by
  have hsum := add_total_le_after o bin
  unfold Loaded at ho
  rw [← Nat.not_le, slots_le_iff]
  omega

theorem slots_add_length_le {o : Nat} {bins : List (List Nat)} (ho : Loaded least o)
    (h : ∀ bin ∈ bins, Large least bin) (hheavy : ∀ bin ∈ bins, slotBytes < total bin + least) :
    slots o + bins.length ≤ slots (after o bins.flatten) := by
  induction bins generalizing o with
  | nil => exact Nat.le_refl _
  | cons bin bins ih =>
    obtain ⟨hbin, hbins⟩ := List.forall_mem_cons.mp h
    obtain ⟨hfull, hothers⟩ := List.forall_mem_cons.mp hheavy
    have hstep := slots_lt_slots_after ho hfull
    have hrest := ih (loaded_after (o := o) hbin) hbins hothers
    rw [List.flatten_cons, after_append, List.length_cons]
    omega

theorem after_add_slotBytes_le {o : Nat} {sizes : List Nat} (ho : slotBytes < o + least)
    (h : Large least sizes) : after 0 sizes + slotBytes ≤ after o sizes := by
  cases sizes with
  | nil => exact absurd rfl h.1
  | cons s sizes =>
    obtain ⟨hlarge, hsize⟩ := h.2 s (by simp)
    have hfirst : next 0 s + slotBytes ≤ next o s := by
      unfold next
      split <;> split <;> simp only [slots, slotBytes] at * <;> omega
    rw [after_cons, after_cons, ← after_add_slotBytes]
    exact after_mono hfirst sizes

theorem slots_after_add_one_le {o : Nat} {sizes : List Nat} (ho : slotBytes < o + least)
    (h : Large least sizes) : slots (after 0 sizes) + 1 ≤ slots (after o sizes) := by
  rw [← slots_add_slotBytes]
  exact slots_mono (after_add_slotBytes_le ho h)

theorem length_le_slots_of_large {bins : List (List Nat)} (hpos : 0 < least)
    (h : ∀ bin ∈ bins, Large least bin)
    (hheavy : bins.Pairwise fun a b => slotBytes < total a + least ∨ slotBytes < total b + least) :
    bins.length ≤ slots (after 0 bins.flatten) := by
  induction bins with
  | nil => exact Nat.zero_le _
  | cons bin bins ih =>
    obtain ⟨hbin, hbins⟩ := List.forall_mem_cons.mp h
    obtain ⟨hpairs, hothers⟩ := List.pairwise_cons.mp hheavy
    have hopen := slots_after_pos hpos hbin
    rw [List.flatten_cons, after_append, List.length_cons]
    by_cases hfull : slotBytes < total bin + least
    · cases bins with
      | nil => exact hopen
      | cons b bs =>
        have hsum := add_total_le_after 0 bin
        have ho : slotBytes < after 0 bin + least := by omega
        have hstep := slots_after_add_one_le ho (large_flatten hbins)
        have hrest := ih hbins hothers
        omega
    · -- The one bin that may have room comes first, so all bins behind it are heavy.
      have hrest := slots_add_length_le (loaded_after (o := 0) hbin) hbins
        (fun b hb => (hpairs b hb).resolve_left hfull)
      omega

theorem sublist_flatten_filter (p : Nat → Bool) (bins : List (List Nat)) :
    (bins.map (List.filter p)).flatten.Sublist bins.flatten := by
  induction bins with
  | nil => exact .slnil
  | cons bin bins ih =>
    rw [List.map_cons, List.flatten_cons, List.flatten_cons]
    exact List.filter_sublist.append ih

theorem length_le_slots {bins : List (List Nat)} (h : Crowded slotBytes least bins)
    (hs : ∀ bin ∈ bins, ∀ s ∈ bin, s ≤ slotBytes) :
    bins.length ≤ slots (after 0 bins.flatten) := by
  have hlarge : (bins.map (List.filter (least ≤ ·))).length ≤
      slots (after 0 (bins.map (List.filter (least ≤ ·))).flatten) := by
    refine length_le_slots_of_large h.positive ?_ ?_
    · intro bin hbin
      obtain ⟨raw, hraw, rfl⟩ := List.mem_map.mp hbin
      obtain ⟨s, hmem, hle⟩ := h.reached raw hraw
      constructor
      · exact List.ne_nil_of_mem (List.mem_filter.mpr ⟨hmem, by simpa using hle⟩)
      · intro t ht
        obtain ⟨htmem, htle⟩ := List.mem_filter.mp ht
        exact ⟨by simpa using htle, hs raw hraw t htmem⟩
    · rw [List.pairwise_map]
      exact h.heavy
  rw [List.length_map] at hlarge
  exact Nat.le_trans hlarge (slots_mono (after_mono_sublist (sublist_flatten_filter _ bins) 0))

variable {capacity : Nat}

theorem heavy_append {bin : List Nat} (h : Heavy capacity least bin) (more : List Nat) :
    Heavy capacity least (bin ++ more) := by
  unfold Heavy at h ⊢
  rw [List.filter_append, total_append]
  omega

theorem heavy_perm {bin other : List Nat} (h : bin.Perm other) :
    Heavy capacity least bin ↔ Heavy capacity least other := by
  rw [Heavy, Heavy, total_perm (h.filter _)]

theorem grow {before after : List (List Nat)} {bin : List Nat}
    (h : Crowded capacity least (before ++ bin :: after)) (more : List Nat) :
    Crowded capacity least (before ++ (bin ++ more) :: after) where
  positive := h.positive
  reached := by
    intro b hb
    rcases List.mem_append.mp hb with hb | hb
    · exact h.reached b (List.mem_append_left _ hb)
    · rcases List.mem_cons.mp hb with rfl | hb
      · obtain ⟨s, hs, hle⟩ := h.reached bin (by simp)
        exact ⟨s, List.mem_append_left _ hs, hle⟩
      · exact h.reached b (by simp [hb])
  heavy := by
    obtain ⟨hbefore, hrest, hcross⟩ := List.pairwise_append.mp h.heavy
    obtain ⟨hbin, hafter⟩ := List.pairwise_cons.mp hrest
    refine List.pairwise_append.mpr ⟨hbefore, List.pairwise_cons.mpr ⟨?_, hafter⟩, ?_⟩
    · intro b hb
      exact (hbin b hb).imp_left fun hheavy => heavy_append hheavy more
    · intro a ha b hb
      rcases List.mem_cons.mp hb with rfl | hb
      · exact (hcross a ha bin (by simp)).imp_right fun hheavy => heavy_append hheavy more
      · exact hcross a ha b (by simp [hb])

theorem nil : Crowded capacity 1 [] :=
  ⟨Nat.one_pos, by simp, .nil⟩

theorem perm {bins other : List (List Nat)} (h : Crowded capacity least bins)
    (hp : bins.Perm other) : Crowded capacity least other where
  positive := h.positive
  reached bin hbin := h.reached bin (hp.mem_iff.mpr hbin)
  heavy := (hp.pairwise_iff fun hab => hab.symm).mp h.heavy

theorem of_forall₂ {bins other : List (List Nat)} (h : Crowded capacity least bins)
    (hp : List.Forall₂ List.Perm bins other) : Crowded capacity least other := by
  have hmap : bins.map (Heavy capacity least) = other.map (Heavy capacity least) := by
    clear h
    induction hp with
    | nil => rfl
    | cons hab _ ih => rw [List.map_cons, List.map_cons, ih, propext (heavy_perm hab)]
  refine ⟨h.positive, ?_, ?_⟩
  · intro b hb
    obtain ⟨a, ha, hperm⟩ := exists_mem_of_forall₂ hp hb
    obtain ⟨s, hs, hle⟩ := h.reached a ha
    exact ⟨s, hperm.mem_iff.mp hs, hle⟩
  · have hheavy : (bins.map (Heavy capacity least)).Pairwise Or := List.pairwise_map.mpr h.heavy
    rw [hmap] at hheavy
    exact List.pairwise_map.mp hheavy

theorem append_full {bins : List (List Nat)} (h : Crowded capacity least bins)
    (hle : least ≤ capacity) (n : Nat) :
    Crowded capacity least (bins ++ List.replicate n [capacity]) where
  positive := h.positive
  reached := by
    intro bin hbin
    rcases List.mem_append.mp hbin with hbin | hbin
    · exact h.reached bin hbin
    · rw [(List.mem_replicate.mp hbin).2]
      exact ⟨capacity, by simp, hle⟩
  heavy := by
    have hfull : Heavy capacity least [capacity] := by
      have hpos := h.positive
      simp only [Heavy, List.filter_cons, hle, decide_true, if_true, List.filter_nil, total_cons,
        total_nil]
      omega
    refine List.pairwise_append.mpr ⟨h.heavy, ?_, ?_⟩
    · exact List.pairwise_replicate.mpr (.inr (.inl hfull))
    · intro a _ b hb
      rw [(List.mem_replicate.mp hb).2]
      exact .inr hfull

theorem exists_append_full {bins : List (List Nat)} (h : ∃ least, Crowded capacity least bins)
    (hs : ∀ bin ∈ bins, ∀ s ∈ bin, s ≤ capacity) (hpos : 0 < capacity) (n : Nat) :
    ∃ least, Crowded capacity least (bins ++ List.replicate n [capacity]) := by
  obtain ⟨least, hleast⟩ := h
  cases bins with
  | nil => exact ⟨capacity, append_full ⟨hpos, by simp, .nil⟩ (Nat.le_refl _) n⟩
  | cons bin bins =>
    obtain ⟨s, hmem, hle⟩ := hleast.reached bin (by simp)
    exact ⟨least, hleast.append_full (Nat.le_trans hle (hs bin (by simp) s hmem)) n⟩

end Crowded

end StorageSlots
