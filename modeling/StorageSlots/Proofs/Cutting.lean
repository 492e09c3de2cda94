import StorageSlots.Proofs.Concatenation
import Mathlib.Order.Bounds.Defs

/-!
The filling rule among all ways of cutting an order of items into slots.

Whatever cutting is chosen, its first slots never hold more items than as many slots that are filled
by the rule. So no cutting has fewer slots, and the rule is one of the cuttings.
-/

namespace StorageSlots

namespace Fill

variable {items part : List Item} {cut : List (List Item)} {k : Nat}

structure Cuts (cut : List (List Item)) (items : List Item) : Prop where
  flatten_eq : cut.flatten = items
  shares : ∀ group ∈ cut, Shares group

theorem cuts_groups (items : List Item) : Cuts (groups items) items :=
  ⟨flatten_groups items, fun _ => shares_of_mem_groups⟩

namespace Cuts

theorem flatten_take_append (h : Cuts cut items) (k : Nat) :
    (cut.take k).flatten ++ (cut.drop k).flatten = items := by
  rw [← List.flatten_append, List.take_append_drop, h.flatten_eq]

theorem length_groups_take_le (h : Cuts cut items) (k : Nat) :
    (groups (cut.take k).flatten).length ≤ k := by
  have hfits : ∀ group ∈ cut.take k, total (group.map Item.byteSize) ≤ slotBytes :=
    fun group hgroup => (h.shares group (List.mem_of_mem_take hgroup)).fits
  have hle := Layout.slotCount_ofOrder_flatten_le hfits
  rw [Layout.slotCount_ofOrder_eq_length] at hle
  exact Nat.le_trans hle (List.length_take_le k cut)

theorem length_le (h : Cuts cut items) : (groups items).length ≤ cut.length := by
  have hle := h.length_groups_take_le cut.length
  rwa [List.take_length, h.flatten_eq] at hle

end Cuts

theorem lt_length_groups_of_beyond (hpart : part <+: items)
    (hbeyond : ((groups items).take k).flatten.length < part.length) :
    k < (groups part).length := by
  have hitems := (cuts_groups items).flatten_take_append k
  obtain ⟨more, rfl⟩ := List.prefix_of_prefix_length_le ⟨_, hitems⟩ hpart hbeyond.le
  obtain ⟨rest, hrest⟩ := hpart
  have hmore : more ≠ [] := by
    rintro rfl
    simp at hbeyond
  have hbehind : ((groups items).drop k).flatten = more ++ rest := by
    rw [List.append_assoc] at hrest
    exact List.append_cancel_left (hitems.trans hrest.symm)
  have hdrop : (groups items).drop k ≠ [] := by
    intro hnone
    rw [hnone] at hbehind
    simp [hmore] at hbehind
  -- The first item behind the `k` slots opens another, whatever follows it.
  have hhead : more.head? = ((groups items).drop k).flatten.head? := by
    rw [hbehind, List.head?_append_of_ne_nil _ hmore]
  have hopened := List.length_pos_of_ne_nil (groups_ne_nil hmore)
  rw [groups_append_of_split (List.take_append_drop k _).symm hhead, List.length_append,
    List.length_take_of_le (Nat.le_of_lt (by simpa using hdrop))]
  omega

theorem Cuts.flatten_take_le (h : Cuts cut items) (k : Nat) :
    (cut.take k).flatten <+: ((groups items).take k).flatten := by
  have hcut : (cut.take k).flatten <+: items := ⟨_, h.flatten_take_append k⟩
  have hfill : ((groups items).take k).flatten <+: items :=
    ⟨_, (cuts_groups items).flatten_take_append k⟩
  refine List.prefix_of_prefix_length_le hcut hfill ?_
  by_contra hbeyond
  have hmore := lt_length_groups_of_beyond hcut (Nat.not_le.mp hbeyond)
  exact absurd (h.length_groups_take_le k) (Nat.not_le.mpr hmore)

end Fill

namespace Layout

def cutCounts (items : List Item) : Set Nat :=
  {n | ∃ cut, Fill.Cuts cut items ∧ cut.length = n}

/-- Of all cuttings the filling rule has the fewest slots, and it is never behind another. -/
theorem isLeast_cutCounts (items : List Item) :
    IsLeast (cutCounts items) (ofOrder items).slotCount ∧
    ∀ cut, Fill.Cuts cut items → ∀ k,
      (cut.take k).flatten <+: ((ofOrder items).groups.take k).flatten := by
  rw [slotCount_ofOrder_eq_length, ofOrder, groups_ofGroups]
  refine ⟨⟨⟨_, Fill.cuts_groups items, rfl⟩, ?_⟩, fun cut hcut => hcut.flatten_take_le⟩
  rintro n ⟨cut, hcut, rfl⟩
  exact hcut.length_le

end Layout

end StorageSlots
