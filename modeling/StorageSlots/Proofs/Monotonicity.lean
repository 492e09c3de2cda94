import StorageSlots.Proofs.Offset

/-!
How the number of slots of an order changes with its items.

Fewer and smaller items never take more slots, though every slot behind a change may begin with
another item. One more item, wherever it stands, takes at most two more slots: its own, and one for
the item behind it. Orders are compared through offsets, which are monotone in each size.
-/

namespace StorageSlots

/-- The items that are left when some are deleted and others are replaced by items no larger. A
record or an array counts as an item of a whole slot. -/
inductive Reduces : List Item → List Item → Prop
  | nil : Reduces [] []
  | delete (item : Item) {fewer items : List Item} (rest : Reduces fewer items) :
      Reduces fewer (item :: items)
  | shrink {small item : Item} {fewer items : List Item} (size : small.byteSize ≤ item.byteSize)
      (rest : Reduces fewer items) : Reduces (small :: fewer) (item :: items)

namespace Reduces

variable {fewer items : List Item}

theorem of_sublist (h : fewer.Sublist items) : Reduces fewer items := by
  induction h with
  | slnil => exact .nil
  | cons item _ ih => exact .delete item ih
  | cons_cons item _ ih => exact .shrink (Nat.le_refl _) ih

theorem after_le (h : Reduces fewer items) (o : Nat) :
    Offset.after o (fewer.map Item.byteSize) ≤ Offset.after o (items.map Item.byteSize) := by
  induction h generalizing o with
  | nil => exact Nat.le_refl o
  | delete item _ ih => exact Nat.le_trans (ih o) (Offset.after_mono (Offset.le_next o _) _)
  | shrink size _ ih =>
    exact Nat.le_trans (ih _) (Offset.after_mono (Offset.next_mono (Nat.le_refl o) size) _)

end Reduces

namespace Offset

theorem next_le_add {s : Nat} (hs : s ≤ slotBytes) (o : Nat) :
    next o s ≤ o + slotBytes + slotBytes := by
  unfold next
  split <;> simp only [slots, slotBytes] at * <;> omega

theorem slots_after_insert_le {s : Nat} (hs : s ≤ slotBytes) (before behind : List Nat) :
    slots (after 0 (before ++ s :: behind)) ≤ slots (after 0 (before ++ behind)) + 2 := by
  rw [after_append, after_append, after_cons]
  calc slots (after (next (after 0 before) s) behind)
      ≤ slots (after (after 0 before + slotBytes + slotBytes) behind) :=
        slots_mono (after_mono (next_le_add hs _) behind)
    _ = slots (after (after 0 before) behind) + 2 := by
        rw [after_add_slotBytes, after_add_slotBytes, slots_add_slotBytes, slots_add_slotBytes]

end Offset

namespace Layout

theorem slotCount_ofOrder_mono {fewer items : List Item} (h : Reduces fewer items) :
    (ofOrder fewer).slotCount ≤ (ofOrder items).slotCount := by
  rw [slotCount_ofOrder, slotCount_ofOrder]
  exact Offset.slots_mono (h.after_le 0)

theorem slotCount_ofOrder_edit :
    (∀ fewer items, Reduces fewer items → (ofOrder fewer).slotCount ≤ (ofOrder items).slotCount) ∧
    ∀ before item behind, (ofOrder (before ++ item :: behind)).slotCount ≤
      (ofOrder (before ++ behind)).slotCount + 2 := by
  constructor
  · intro fewer items h
    exact slotCount_ofOrder_mono h
  · intro before item behind
    rw [slotCount_ofOrder, slotCount_ofOrder, List.map_append, List.map_append, List.map_cons]
    exact Offset.slots_after_insert_le item.byteSize_le _ _

/-- Two items that fill a slot, and one that is smaller than either. -/
def halves : List Item :=
  [("low", 16), ("high", 16), ("flag", 1)].zipIdx.filterMap
    fun v => (Item.elementary v.1.1 "bytes" v.1.2 v.2).toOption

theorem slotCount_ofOrder_edit_halves :
    Reduces (halves.drop 2) (halves.take 2) ∧
    (ofOrder (halves.drop 2)).slotCount ≤ (ofOrder (halves.take 2)).slotCount ∧
    (ofOrder (halves.take 1 ++ .record "between" "Pair" 3 :: (halves.drop 1).take 1)).slotCount =
      (ofOrder (halves.take 2)).slotCount + 2 := by
  have hreduces : Reduces (halves.drop 2) (halves.take 2) :=
    .delete _ (.shrink (by decide) .nil)
  refine ⟨hreduces, slotCount_ofOrder_edit.1 _ _ hreduces, ?_⟩
  apply Nat.le_antisymm
  · exact slotCount_ofOrder_edit.2 (halves.take 1) _ ((halves.drop 1).take 1)
  · decide

end Layout

end StorageSlots
