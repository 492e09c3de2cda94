import StorageSlots.Layout.Fill
import StorageSlots.Packing.Packable

/-!
How far the filling rule has got, as one number.

The offset behind the last item tells how many slots are open and how much of the last one is free.
An item of 32 bytes never joins a slot, so offsets depend on the sizes of the items alone, and the
rule is monotone in them.
-/

namespace StorageSlots

namespace Offset

/-- The number of slots that begin before an offset. -/
def slots (offset : Nat) : Nat :=
  (offset + (slotBytes - 1)) / slotBytes

/-- The offset behind an item that is declared at `offset`. -/
def next (offset size : Nat) : Nat :=
  if offset + size ≤ slotBytes * slots offset then offset + size
  else slotBytes * slots offset + size

def after : (offset : Nat) → (sizes : List Nat) → Nat
  | offset, [] => offset
  | offset, size :: sizes => after (next offset size) sizes

theorem slots_mono {o o' : Nat} (h : o ≤ o') : slots o ≤ slots o' :=
  Nat.div_le_div_right (Nat.add_le_add_right h _)

theorem le_slotBytes_mul_slots (o : Nat) : o ≤ slotBytes * slots o := by
  simp only [slots, slotBytes]
  omega

theorem slots_le_iff {o n : Nat} : slots o ≤ n ↔ o ≤ slotBytes * n := by
  simp only [slots, slotBytes]
  omega

theorem next_mono {o o' s s' : Nat} (ho : o ≤ o') (hs : s ≤ s') : next o s ≤ next o' s' := by
  unfold next
  split <;> split <;> simp only [slots, slotBytes] at * <;> omega

theorem add_le_next (o s : Nat) : o + s ≤ next o s := by
  have h := le_slotBytes_mul_slots o
  unfold next
  split <;> omega

theorem le_next (o s : Nat) : o ≤ next o s :=
  Nat.le_trans (Nat.le_add_right o s) (add_le_next o s)

theorem slots_add_slotBytes (o : Nat) : slots (o + slotBytes) = slots o + 1 := by
  simp only [slots, slotBytes]
  omega

theorem next_add_slotBytes (o s : Nat) : next (o + slotBytes) s = next o s + slotBytes := by
  unfold next
  split <;> split <;> simp only [slots, slotBytes] at * <;> omega

theorem next_of_fits {o s n : Nat} (ho : slotBytes * n ≤ o) (hs : o + s ≤ slotBytes * (n + 1)) :
    next o s = o + s := by
  unfold next
  split
  · rfl
  · simp only [slots, slotBytes] at *
    omega

theorem slots_next_slotBytes (o : Nat) : slots (next o slotBytes) = slots o + 1 := by
  unfold next
  split <;> simp only [slots, slotBytes] at * <;> omega

@[simp] theorem after_nil (o : Nat) : after o [] = o := rfl

@[simp] theorem after_cons (o s : Nat) (sizes : List Nat) :
    after o (s :: sizes) = after (next o s) sizes := rfl

theorem after_append (o : Nat) (xs ys : List Nat) :
    after o (xs ++ ys) = after (after o xs) ys := by
  induction xs generalizing o with
  | nil => rfl
  | cons x xs ih => simp [ih]

theorem after_mono {o o' : Nat} (h : o ≤ o') (sizes : List Nat) :
    after o sizes ≤ after o' sizes := by
  induction sizes generalizing o o' with
  | nil => exact h
  | cons s sizes ih => exact ih (next_mono h (Nat.le_refl s))

theorem add_total_le_after (o : Nat) (sizes : List Nat) : o + total sizes ≤ after o sizes := by
  induction sizes generalizing o with
  | nil => exact Nat.le_refl o
  | cons s sizes ih =>
    have hs := add_le_next o s
    have hrest := ih (next o s)
    simp only [total_cons, after_cons]
    omega

theorem after_add_slotBytes (o : Nat) (sizes : List Nat) :
    after (o + slotBytes) sizes = after o sizes + slotBytes := by
  induction sizes generalizing o with
  | nil => rfl
  | cons s sizes ih => rw [after_cons, after_cons, next_add_slotBytes, ih]

theorem after_mono_sublist {xs ys : List Nat} (h : xs.Sublist ys) (o : Nat) :
    after o xs ≤ after o ys := by
  induction h generalizing o with
  | slnil => exact Nat.le_refl o
  | cons y _ ih => exact Nat.le_trans (ih o) (after_mono (le_next o y) _)
  | cons_cons y _ ih => exact ih (next o y)

theorem after_of_fits {o n : Nat} {sizes : List Nat} (ho : slotBytes * n ≤ o)
    (hs : o + total sizes ≤ slotBytes * (n + 1)) : after o sizes = o + total sizes := by
  induction sizes generalizing o with
  | nil => rfl
  | cons s sizes ih =>
    rw [total_cons] at hs ⊢
    rw [after_cons, next_of_fits ho (by omega), ih (by omega) (by omega), Nat.add_assoc]

theorem after_flatten_le {groups : List (List Nat)} (h : ∀ g ∈ groups, total g ≤ slotBytes)
    (n : Nat) : after (slotBytes * n) groups.flatten ≤ slotBytes * (n + groups.length) := by
  induction groups generalizing n with
  | nil => exact Nat.le_refl _
  | cons g groups ih =>
    have hg : total g ≤ slotBytes := h g (by simp)
    have hfit : after (slotBytes * n) g ≤ slotBytes * (n + 1) := by
      rw [after_of_fits (Nat.le_refl _) (by rw [Nat.mul_succ]; omega), Nat.mul_succ]
      omega
    have hrest := ih (fun g' hg' => h g' (by simp [hg'])) (n + 1)
    rw [List.flatten_cons, after_append, List.length_cons]
    refine Nat.le_trans (after_mono hfit _) ?_
    rwa [Nat.add_comm groups.length 1, ← Nat.add_assoc]

theorem slots_after_flatten_le {groups : List (List Nat)}
    (h : ∀ g ∈ groups, total g ≤ slotBytes) : slots (after 0 groups.flatten) ≤ groups.length := by
  have hle := after_flatten_le h 0
  rw [Nat.mul_zero, Nat.zero_add] at hle
  exact slots_le_iff.mpr hle

end Offset

namespace Fill

open Offset

theorem slots_add_length_place (free offset : Nat)
    (h : offset + free = slotBytes * slots offset) (items : List Item) :
    slots offset + (place free items).2.length =
      slots (after offset (items.map Item.byteSize)) := by
  induction items generalizing free offset with
  | nil => rfl
  | cons item items ih =>
    have hpos := item.byteSize_pos
    have hle := item.byteSize_le
    rw [List.map_cons, after_cons]
    unfold place
    split
    · split
      · next hfits =>
        have hn : next offset item.byteSize = offset + item.byteSize := if_pos (by omega)
        have hs : slots (offset + item.byteSize) = slots offset := by
          simp only [slots, slotBytes] at h ⊢
          omega
        rw [hn, ← ih (free - item.byteSize) _ (by rw [hs]; omega), hs]
      · next hfits =>
        have hn : next offset item.byteSize = slotBytes * slots offset + item.byteSize :=
          if_neg (by omega)
        have hs : slots (slotBytes * slots offset + item.byteSize) = slots offset + 1 := by
          simp only [slots, slotBytes] at hle ⊢
          omega
        rw [hn, ← ih (slotBytes - item.byteSize) _ (by rw [hs, Nat.mul_succ]; omega), hs,
          List.length_cons]
        omega
    · next hkind =>
      have hsize := item.byteSize_of_not_isElementary (by simpa using hkind)
      have hs := slots_next_slotBytes offset
      have hfull : next offset slotBytes = slotBytes * (slots offset + 1) := by
        unfold next
        split <;> simp only [slots, slotBytes] at * <;> omega
      rw [hsize, ← ih 0 _ (by rw [hs, hfull]; rfl), hs, List.length_cons]
      omega

theorem total_place_le (free : Nat) (items : List Item) :
    total ((place free items).1.map Item.byteSize) ≤ free ∧
      ∀ group ∈ (place free items).2, total (group.map Item.byteSize) ≤ slotBytes := by
  induction items generalizing free with
  | nil => simp [place]
  | cons item items ih =>
    have hle := item.byteSize_le
    unfold place
    split
    · split
      · have hrest := ih (free - item.byteSize)
        refine ⟨?_, hrest.2⟩
        rw [List.map_cons, total_cons]
        omega
      · have hrest := ih (slotBytes - item.byteSize)
        refine ⟨Nat.zero_le _, ?_⟩
        intro group hgroup
        rcases List.mem_cons.mp hgroup with rfl | hgroup
        · rw [List.map_cons, total_cons]
          omega
        · exact hrest.2 group hgroup
    · have hrest := ih 0
      refine ⟨Nat.zero_le _, ?_⟩
      intro group hgroup
      rcases List.mem_cons.mp hgroup with rfl | hgroup
      · rw [List.map_cons, total_cons]
        omega
      · exact hrest.2 group hgroup

end Fill

namespace Layout

theorem slotCount_ofOrder (items : List Item) :
    (ofOrder items).slotCount = Offset.slots (Offset.after 0 (items.map Item.byteSize)) := by
  have h := Fill.slots_add_length_place 0 0 rfl items
  have hnone : Offset.slots 0 = 0 := rfl
  rw [← h, hnone, Nat.zero_add, ofOrder, slotCount_ofGroups, Fill.groups]

theorem packable_ofOrder (items : List Item) :
    Packable slotBytes (ofOrder items).slotCount (items.map Item.byteSize) := by
  refine ⟨(Fill.groups items).map (List.map Item.byteSize), ?_, ?_, ?_⟩
  · simp [ofOrder]
  · rw [← List.map_flatten, Fill.flatten_groups]
  · intro bin hbin
    obtain ⟨group, hgroup, rfl⟩ := List.mem_map.mp hbin
    exact (Fill.total_place_le 0 items).2 group hgroup

theorem slotCount_ofOrder_flatten_le {groups : List (List Item)}
    (h : ∀ group ∈ groups, total (group.map Item.byteSize) ≤ slotBytes) :
    (ofOrder groups.flatten).slotCount ≤ groups.length := by
  have hsizes : ∀ sizes ∈ groups.map (List.map Item.byteSize), total sizes ≤ slotBytes := by
    intro sizes hmem
    obtain ⟨group, hgroup, rfl⟩ := List.mem_map.mp hmem
    exact h group hgroup
  have hle := Offset.slots_after_flatten_le hsizes
  rwa [← List.map_flatten, ← slotCount_ofOrder, List.length_map] at hle

end Layout

end StorageSlots
