import StorageSlots.Layout

/-!
The layout that an order of declarations gets.

Items are placed one after the other. An elementary item joins the current slot if it fits in the
bytes that are free there, and opens a slot otherwise. A record or an array has a slot of its own,
and the item behind it opens a slot again.
-/

namespace StorageSlots

namespace Fill

/-- Places items behind a slot with `free` bytes left: first the items that join that slot, then
the groups of the slots opened after it. -/
def place : (free : Nat) → List Item → List Item × List (List Item)
  | _, [] => ([], [])
  | free, item :: items =>
    if item.isElementary then
      if item.byteSize ≤ free then
        let later := place (free - item.byteSize) items
        (item :: later.1, later.2)
      else
        let later := place (slotBytes - item.byteSize) items
        ([], (item :: later.1) :: later.2)
    else
      let later := place 0 items
      ([], (item :: later.1) :: later.2)

def groups (items : List Item) : List (List Item) :=
  (place 0 items).2

end Fill

def Layout.ofOrder (items : List Item) : Layout :=
  .ofGroups (Fill.groups items)

namespace Fill

theorem place_append_flatten (free : Nat) (items : List Item) :
    (place free items).1 ++ (place free items).2.flatten = items := by
  induction items generalizing free with
  | nil => rfl
  | cons item items ih =>
    unfold place
    split
    · split <;> simp [ih]
    · simp [ih]

theorem place_zero_fst (items : List Item) : (place 0 items).1 = [] := by
  cases items with
  | nil => rfl
  | cons item items =>
    have h : ¬ item.byteSize ≤ 0 := Nat.not_le_of_gt item.byteSize_pos
    unfold place
    split <;> simp

theorem flatten_groups (items : List Item) : (groups items).flatten = items := by
  simpa [groups, place_zero_fst] using place_append_flatten 0 items

end Fill

@[simp] theorem Layout.items_ofOrder (items : List Item) : (ofOrder items).items = items := by
  simp [ofOrder, Fill.flatten_groups]

theorem Layout.slotCount_ofOrder_eq_length (items : List Item) :
    (ofOrder items).slotCount = (Fill.groups items).length :=
  slotCount_ofGroups _

end StorageSlots
