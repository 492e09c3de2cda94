import StorageSlots.Proofs.Optimality
import Mathlib.Data.List.Perm.Basic

/-!
The layout that a packing gives.

The layout of a valid packing holds the items, each once, and declaring them in its order takes no
more slots than it has. No order of the items takes fewer slots than the layout of an optimal
packing, and the order of a layout whose bins are crowded takes exactly its slots.
-/

namespace StorageSlots

theorem elementarySizes_pos (items : List Item) : ∀ size ∈ elementarySizes items, 0 < size := by
  intro size hsize
  obtain ⟨item, _, rfl⟩ := List.mem_map.mp hsize
  exact item.byteSize_pos

theorem elementarySizes_le (items : List Item) :
    ∀ size ∈ elementarySizes items, size ≤ slotBytes := by
  intro size hsize
  obtain ⟨item, _, rfl⟩ := List.mem_map.mp hsize
  exact item.byteSize_le

theorem elementary_append_composite_perm (items : List Item) :
    (elementaryItems items ++ compositeItems items).Perm items :=
  List.filter_append_perm _ items

theorem byteSize_of_mem_compositeItems {items : List Item} {item : Item}
    (h : item ∈ compositeItems items) : item.byteSize = slotBytes := by
  have hkind := (List.mem_filter.mp h).2
  exact item.byteSize_of_not_isElementary (by simpa using hkind)

theorem map_byteSize_compositeItems (items : List Item) :
    (compositeItems items).map Item.byteSize =
      List.replicate (compositeItems items).length slotBytes := by
  rw [List.map_eq_replicate_iff]
  exact fun item hitem => byteSize_of_mem_compositeItems hitem

theorem elementarySizes_append_replicate_perm (items : List Item) :
    (elementarySizes items ++ List.replicate (compositeItems items).length slotBytes).Perm
      (items.map Item.byteSize) := by
  rw [← map_byteSize_compositeItems, elementarySizes, ← List.map_append]
  exact (elementary_append_composite_perm items).map _

theorem elementarySizes_perm {items other : List Item} (h : items.Perm other) :
    (elementarySizes items).Perm (elementarySizes other) :=
  (h.filter _).map _

theorem length_compositeItems_perm {items other : List Item} (h : items.Perm other) :
    (compositeItems items).length = (compositeItems other).length :=
  (h.filter _).length_eq

theorem Packable.of_append_replicate {capacity bins n : Nat} {sizes : List Nat}
    (hpos : ∀ size ∈ sizes, 0 < size) (hcapacity : 0 < capacity)
    (h : Packable capacity bins (sizes ++ List.replicate n capacity)) :
    ∃ rest, bins = rest + n ∧ Packable capacity rest sizes := by
  induction n generalizing bins with
  | zero => exact ⟨bins, rfl, by simpa using h⟩
  | succ n ih =>
    rw [List.replicate_succ] at h
    have hfirst := h.perm List.perm_middle
    cases bins with
    | zero => exact absurd hfirst Packable.not_zero_cons
    | succ bins =>
      obtain ⟨taken, refused, hperm, hle, hrest⟩ := hfirst.split
      have htaken : taken = [] := by
        rw [List.eq_nil_iff_forall_not_mem]
        intro size hsize
        have hbelow := le_total_of_mem hsize
        have hmem := hperm.mem_iff.mp (List.mem_append_left _ hsize)
        rcases List.mem_append.mp hmem with hmem | hmem
        · have := hpos size hmem
          omega
        · rw [(List.mem_replicate.mp hmem).2] at hbelow
          omega
      subst htaken
      obtain ⟨rest, rfl, hsizes⟩ := ih (hrest.perm hperm)
      exact ⟨rest, rfl, hsizes⟩

namespace Layout

/-- The same groups with the groups and the members of each in any order. -/
def Regrouped (groups other : List (List Item)) : Prop :=
  ∃ middle, List.Forall₂ List.Perm groups middle ∧ middle.Perm other

theorem length_groups (layout : Layout) : layout.groups.length = layout.slotCount := by
  rw [groups, List.length_map, slotCount]

namespace Regrouped

variable {groups other : List (List Item)}

theorem refl (groups : List (List Item)) : Regrouped groups groups :=
  ⟨groups, List.forall₂_same.mpr fun _ _ => .refl _, .refl _⟩

theorem length_eq (h : Regrouped groups other) : groups.length = other.length := by
  obtain ⟨middle, hmembers, hperm⟩ := h
  rw [hmembers.length_eq, hperm.length_eq]

theorem flatten_perm (h : Regrouped groups other) : groups.flatten.Perm other.flatten := by
  obtain ⟨middle, hmembers, hperm⟩ := h
  exact (List.Perm.flatten_congr hmembers).trans hperm.flatten

theorem exists_perm (h : Regrouped groups other) {group : List Item} (hgroup : group ∈ other) :
    ∃ g ∈ groups, g.Perm group := by
  obtain ⟨middle, hmembers, hperm⟩ := h
  exact exists_mem_of_forall₂ hmembers (hperm.mem_iff.mpr hgroup)

theorem map_byteSize (h : Regrouped groups other) :
    ∃ middle, List.Forall₂ List.Perm (groups.map (List.map Item.byteSize)) middle ∧
      middle.Perm (other.map (List.map Item.byteSize)) := by
  obtain ⟨middle, hmembers, hperm⟩ := h
  refine ⟨middle.map (List.map Item.byteSize), ?_, hperm.map _⟩
  rw [List.forall₂_map_left_iff, List.forall₂_map_right_iff]
  exact hmembers.imp fun _ _ hab => hab.map _

end Regrouped

theorem length_le_slotCount_ofOrder {least : Nat} {groups other : List (List Item)}
    (h : Crowded slotBytes least (groups.map (List.map Item.byteSize)))
    (hother : Regrouped groups other) : groups.length ≤ (ofOrder other.flatten).slotCount := by
  obtain ⟨middle, hmembers, hperm⟩ := hother.map_byteSize
  have hcrowded := (h.of_forall₂ hmembers).perm hperm
  have hle := hcrowded.length_le_slots (by
    intro bin hbin size hsize
    obtain ⟨group, _, rfl⟩ := List.mem_map.mp hbin
    obtain ⟨item, _, rfl⟩ := List.mem_map.mp hsize
    exact item.byteSize_le)
  rwa [List.length_map, ← hother.length_eq, ← List.map_flatten, ← slotCount_ofOrder] at hle

end Layout

namespace Packing

def pick (items : List Item) (bin : List Nat) : List Item :=
  bin.filterMap fun i => items[i]?

theorem pick_range (items : List Item) : pick items (List.range items.length) = items := by
  induction items with
  | nil => rfl
  | cons item items ih =>
    rw [List.length_cons, List.range_succ_eq_map, pick, List.filterMap_cons, List.filterMap_map]
    exact congrArg (List.cons item) ih

theorem flatten_map_pick (items : List Item) (bins : List (List Nat)) :
    (bins.map (pick items)).flatten = pick items bins.flatten := by
  rw [pick, List.filterMap_flatten]
  rfl

theorem map_byteSize_pick {items : List Item} {bin : List Nat}
    (h : ∀ i ∈ bin, i < items.length) :
    (pick items bin).map Item.byteSize = bin.map (sizeOf (items.map Item.byteSize)) := by
  induction bin with
  | nil => rfl
  | cons i bin ih =>
    obtain ⟨hi, hbin⟩ := List.forall_mem_cons.mp h
    have hget : items[i]? = some items[i] := List.getElem?_eq_getElem hi
    have hsize : sizeOf (items.map Item.byteSize) i = items[i].byteSize := by
      simp [sizeOf, hi]
    rw [pick, List.filterMap_cons, hget, List.map_cons, List.map_cons, hsize]
    exact congrArg (List.cons _) (ih hbin)

theorem layout_eq (packing : Packing) (items : List Item) :
    packing.layout items = .ofGroups (packing.bins.map (pick (elementaryItems items)) ++
      (compositeItems items).map fun item => [item]) := rfl

theorem slotCount_layout (packing : Packing) (items : List Item) :
    (packing.layout items).slotCount = packing.binCount + (compositeItems items).length := by
  rw [layout_eq, Layout.slotCount_ofGroups, List.length_append, List.length_map, List.length_map,
    binCount]

theorem items_layout (packing : Packing) (items : List Item) :
    (packing.layout items).items =
      pick (elementaryItems items) packing.bins.flatten ++ compositeItems items := by
  rw [layout_eq, Layout.items_ofGroups, List.flatten_append, flatten_map_pick,
    ← List.flatMap_def, List.flatMap_singleton']

theorem groups_layout (packing : Packing) (items : List Item) :
    (packing.layout items).groups = packing.bins.map (pick (elementaryItems items)) ++
      (compositeItems items).map fun item => [item] := by
  rw [layout_eq, Layout.groups_ofGroups]

section Valid

variable {packing : Packing} {items : List Item}

theorem lt_length_of_valid (h : packing.Valid (elementarySizes items) slotBytes) :
    ∀ bin ∈ packing.bins, ∀ i ∈ bin, i < (elementaryItems items).length := by
  intro bin hbin i hi
  have hknown := h.known bin hbin i hi
  rwa [elementarySizes, List.length_map] at hknown

theorem items_layout_perm (h : packing.Valid (elementarySizes items) slotBytes) :
    (packing.layout items).items.Perm items := by
  have hbins := (valid_iff.mp h).1
  rw [elementarySizes, List.length_map] at hbins
  have hpick : (pick (elementaryItems items) packing.bins.flatten).Perm (elementaryItems items) := by
    have hfilter := hbins.filterMap fun i => (elementaryItems items)[i]?
    have hrange := pick_range (elementaryItems items)
    rw [pick] at hrange ⊢
    rwa [hrange] at hfilter
  rw [items_layout]
  exact (hpick.append_right _).trans (elementary_append_composite_perm items)

theorem map_byteSize_groups_layout (h : packing.Valid (elementarySizes items) slotBytes) :
    (packing.layout items).groups.map (List.map Item.byteSize) =
      packing.bins.map (List.map (sizeOf (elementarySizes items))) ++
        List.replicate (compositeItems items).length [slotBytes] := by
  have hbins : (packing.bins.map (pick (elementaryItems items))).map (List.map Item.byteSize) =
      packing.bins.map (List.map (sizeOf (elementarySizes items))) := by
    rw [List.map_map]
    exact List.map_congr_left fun bin hbin => map_byteSize_pick (lt_length_of_valid h bin hbin)
  have htail := congrArg (List.map fun size => [size]) (map_byteSize_compositeItems items)
  rw [List.map_map, List.map_replicate] at htail
  rw [groups_layout, List.map_append, hbins, List.map_map, ← htail]
  rfl

theorem total_le_of_mem_groups_layout (h : packing.Valid (elementarySizes items) slotBytes) :
    ∀ group ∈ (packing.layout items).groups, total (group.map Item.byteSize) ≤ slotBytes := by
  intro group hgroup
  have hmem := List.mem_map_of_mem (f := List.map Item.byteSize) hgroup
  rw [map_byteSize_groups_layout h] at hmem
  rcases List.mem_append.mp hmem with hmem | hmem
  · obtain ⟨bin, hbin, heq⟩ := List.mem_map.mp hmem
    rw [← heq]
    exact h.fits bin hbin
  · rw [(List.mem_replicate.mp hmem).2]
    exact Nat.le_refl _

theorem ne_nil_of_mem_groups_layout (h : packing.Valid (elementarySizes items) slotBytes) :
    ∀ group ∈ (packing.layout items).groups, group ≠ [] := by
  intro group hgroup
  have hmem := List.mem_map_of_mem (f := List.map Item.byteSize) hgroup
  rw [map_byteSize_groups_layout h] at hmem
  rintro rfl
  rcases List.mem_append.mp hmem with hmem | hmem
  · obtain ⟨bin, hbin, heq⟩ := List.mem_map.mp hmem
    exact packing.normal.nonempty bin hbin (by simpa using heq)
  · simpa using (List.mem_replicate.mp hmem).2

theorem slotCount_ofOrder_layout_le (h : packing.Valid (elementarySizes items) slotBytes) :
    (Layout.ofOrder (packing.layout items).items).slotCount ≤
      (packing.layout items).slotCount := by
  have hle := Layout.slotCount_ofOrder_flatten_le (total_le_of_mem_groups_layout h)
  rwa [Layout.length_groups] at hle

end Valid

theorem Optimal.slotCount_layout_le {packing : Packing} {items order : List Item}
    (h : packing.Optimal (elementarySizes items) slotBytes) (hperm : order.Perm items) :
    (packing.layout items).slotCount ≤ (Layout.ofOrder order).slotCount := by
  have hsizes := (hperm.map Item.byteSize).trans (elementarySizes_append_replicate_perm items).symm
  obtain ⟨rest, hcount, hrest⟩ := ((Layout.packable_ofOrder order).perm hsizes).of_append_replicate
    (elementarySizes_pos items) (by decide)
  have hfewest := h.fewest rest hrest
  rw [slotCount_layout]
  omega

end Packing

end StorageSlots
