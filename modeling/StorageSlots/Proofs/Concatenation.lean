import StorageSlots.Proofs.FillingRule
import StorageSlots.Proofs.Monotonicity

/-!
The slots of two sequences of items declared one behind the other.

What is declared later never reaches into a slot before the last one. So the slots of the first
sequence stay, except for the last, and at most one slot is saved. The slots of the second sequence
follow unchanged exactly if its first item finds no room in the last slot, as it is with a record or
an array on either side of the border.
-/

namespace StorageSlots

namespace Fill

variable {items xs ys : List Item}

theorem groups_cons (item : Item) (items : List Item) :
    ∃ members rest, groups (item :: items) = (item :: members) :: rest := by
  have hfull : ¬ item.byteSize ≤ 0 := Nat.not_le_of_gt item.byteSize_pos
  rw [groups, place, if_neg hfull]
  split <;> exact ⟨_, _, rfl⟩

theorem shares_of_mem_append {group : List Item} (h : group ∈ groups xs ++ groups ys) :
    Shares group :=
  (List.mem_append.mp h).elim shares_of_mem_groups shares_of_mem_groups

theorem settled_append_iff {front back : List (List Item)} :
    Settled (front ++ back) ↔ Settled front ∧ Settled back ∧
      ∀ last ∈ front.getLast?, ∀ next ∈ back.head?, ∀ item ∈ next.head?,
        room last < item.byteSize :=
  List.isChain_append

/-- Items behind others get the slots that they have on their own exactly if the first of them finds
no room in the last slot of the others. -/
theorem groups_append_iff :
    groups (xs ++ ys) = groups xs ++ groups ys ↔
      ∀ last ∈ (groups xs).getLast?, ∀ item ∈ ys.head?, room last < item.byteSize := by
  have hiff := groups_flatten_iff fun group (h : group ∈ groups xs ++ groups ys) =>
    shares_of_mem_append h
  rw [List.flatten_append, flatten_groups, flatten_groups] at hiff
  rw [hiff, settled_append_iff, and_iff_right (settled_groups xs), and_iff_right (settled_groups ys)]
  cases ys with
  | nil => simp [groups, place]
  | cons item ys =>
    obtain ⟨members, rest, hgroups⟩ := groups_cons item ys
    simp [hgroups]

theorem groups_flatten_of_split {front back : List (List Item)} (h : groups items = front ++ back) :
    groups front.flatten = front ∧ groups back.flatten = back := by
  have hshares : ∀ group ∈ front ++ back, Shares group := by
    rw [← h]
    exact fun _ => shares_of_mem_groups
  have hsettled := settled_groups items
  rw [h, settled_append_iff] at hsettled
  rw [groups_flatten_iff fun _ hgroup => hshares _ (List.mem_append_left _ hgroup),
    groups_flatten_iff fun _ hgroup => hshares _ (List.mem_append_right _ hgroup)]
  exact ⟨hsettled.1, hsettled.2.1⟩

/-- Where one slot ends and the next begins is decided by what stands before the border and by the
item behind it. -/
theorem groups_append_of_split {front back : List (List Item)} (h : groups items = front ++ back)
    (hhead : ys.head? = back.flatten.head?) : groups (front.flatten ++ ys) = front ++ groups ys := by
  obtain ⟨hfront, hback⟩ := groups_flatten_of_split h
  have hsplit : groups (front.flatten ++ back.flatten) =
      groups front.flatten ++ groups back.flatten := by
    rw [hfront, hback, ← List.flatten_append, ← h, flatten_groups]
  rw [groups_append_iff, ← hhead, ← groups_append_iff, hfront] at hsplit
  exact hsplit

theorem groups_append_of_concat {init : List (List Item)} {last : List Item}
    (h : groups xs = init ++ [last]) (ys : List Item) :
    groups (xs ++ ys) = init ++ groups (last ++ ys) := by
  have hmem : last ∈ groups xs := by simp [h]
  have hlast : last ≠ [] := (shares_of_mem_groups hmem).nonempty
  have hxs : xs = init.flatten ++ last := by
    rw [← flatten_groups xs, h, List.flatten_append, List.flatten_singleton]
  have hhead : (last ++ ys).head? = [last].flatten.head? := by
    rw [List.flatten_singleton, List.head?_append_of_ne_nil _ hlast]
  rw [← groups_append_of_split h hhead, ← List.append_assoc, ← hxs]

theorem Shares.room_eq_zero {group : List Item} (h : Shares group) {item : Item}
    (hlast : item ∈ group.getLast?) (hkind : item.isElementary = false) : room group = 0 := by
  rcases h.kinds with hall | ⟨only, rfl⟩
  · rw [hall item (List.mem_of_getLast? hlast)] at hkind
    cases hkind
  · obtain rfl : only = item := by simpa using hlast
    simp [room, Item.byteSize_of_not_isElementary hkind]

/-- A slot cannot be shared across a border with a record or an array on one of its sides. -/
def Closed (xs ys : List Item) : Prop :=
  (∃ item ∈ xs.getLast?, item.isElementary = false) ∨ ∃ item ∈ ys.head?, item.isElementary = false

theorem Closed.groups_append (h : Closed xs ys) : groups (xs ++ ys) = groups xs ++ groups ys := by
  rw [groups_append_iff]
  intro last hlast item hitem
  have hshares : Shares last := shares_of_mem_groups (List.mem_of_getLast? hlast)
  rcases h with ⟨closing, hclosing, hkind⟩ | ⟨opening, hopening, hkind⟩
  · have hxs : xs.getLast? = last.getLast? := by
      obtain ⟨init, hinit⟩ := List.getLast?_eq_some_iff.mp hlast
      rw [← flatten_groups xs, hinit, List.flatten_append, List.flatten_singleton,
        List.getLast?_append_of_ne_nil _ hshares.nonempty]
    rw [hxs] at hclosing
    rw [hshares.room_eq_zero hclosing hkind]
    exact item.byteSize_pos
  · cases hitem.symm.trans hopening
    rw [Item.byteSize_of_not_isElementary hkind]
    exact hshares.room_lt

end Fill

def Slot.shift (n : Nat) (slot : Slot) : Slot :=
  { slot with index := slot.index + n }

namespace Layout

theorem numbered_add (first n : Nat) (groups : List (List Item)) :
    numbered (first + n) groups = (numbered first groups).map (Slot.shift n) := by
  induction groups generalizing first with
  | nil => rfl
  | cons group groups ih =>
    rw [numbered, numbered, List.map_cons, ← ih, Nat.add_right_comm]
    rfl

theorem take_numbered (first : Nat) (front back : List (List Item)) :
    (numbered first (front ++ back)).take front.length = numbered first front := by
  rw [numbered_append, List.take_left' (length_numbered first front)]

theorem slots_ofOrder (items : List Item) :
    (ofOrder items).slots = numbered 1 (Fill.groups items) := rfl

variable {xs ys : List Item}

theorem slots_ofOrder_append (h : Fill.Closed xs ys) :
    (ofOrder (xs ++ ys)).slots =
      (ofOrder xs).slots ++ (ofOrder ys).slots.map (Slot.shift (ofOrder xs).slotCount) := by
  rw [slots_ofOrder, h.groups_append, numbered_append, numbered_add, slotCount_ofOrder_eq_length]
  rfl

theorem slotCount_ofOrder_append_le (xs ys : List Item) :
    (ofOrder (xs ++ ys)).slotCount ≤ (ofOrder xs).slotCount + (ofOrder ys).slotCount := by
  have hle := slotCount_ofOrder_flatten_le fun group
    (h : group ∈ Fill.groups xs ++ Fill.groups ys) => (Fill.shares_of_mem_append h).fits
  rwa [List.flatten_append, Fill.flatten_groups, Fill.flatten_groups, List.length_append,
    ← slotCount_ofOrder_eq_length, ← slotCount_ofOrder_eq_length] at hle

theorem slotCount_ofOrder_add_le (xs ys : List Item) :
    (ofOrder xs).slotCount + (ofOrder ys).slotCount ≤ (ofOrder (xs ++ ys)).slotCount + 1 := by
  rcases List.eq_nil_or_concat' (Fill.groups xs) with hnone | ⟨init, last, hgroups⟩
  · have hmono := slotCount_ofOrder_mono (.of_sublist (List.sublist_append_right xs ys))
    rw [slotCount_ofOrder_eq_length xs, hnone, List.length_nil]
    omega
  · have hmono := slotCount_ofOrder_mono (.of_sublist (List.sublist_append_right last ys))
    rw [slotCount_ofOrder_eq_length xs, slotCount_ofOrder_eq_length (xs ++ ys),
      Fill.groups_append_of_concat hgroups, hgroups, List.length_append, List.length_append,
      List.length_singleton, ← slotCount_ofOrder_eq_length]
    omega

theorem take_slots_ofOrder_append (xs ys : List Item) :
    (ofOrder (xs ++ ys)).slots.take ((ofOrder xs).slotCount - 1) =
      (ofOrder xs).slots.take ((ofOrder xs).slotCount - 1) := by
  rw [slotCount_ofOrder_eq_length, slots_ofOrder, slots_ofOrder]
  rcases List.eq_nil_or_concat' (Fill.groups xs) with hnone | ⟨init, last, hgroups⟩
  · rw [hnone]
    rfl
  · rw [Fill.groups_append_of_concat hgroups, hgroups, List.length_append, List.length_singleton,
      Nat.add_sub_cancel, take_numbered, take_numbered]

theorem ofOrder_append (xs ys : List Item) :
    (ofOrder xs).slotCount + (ofOrder ys).slotCount ≤ (ofOrder (xs ++ ys)).slotCount + 1 ∧
    (ofOrder (xs ++ ys)).slotCount ≤ (ofOrder xs).slotCount + (ofOrder ys).slotCount ∧
    (ofOrder (xs ++ ys)).slots.take ((ofOrder xs).slotCount - 1) =
      (ofOrder xs).slots.take ((ofOrder xs).slotCount - 1) ∧
    (Fill.Closed xs ys → (ofOrder (xs ++ ys)).slots =
      (ofOrder xs).slots ++ (ofOrder ys).slots.map (Slot.shift (ofOrder xs).slotCount)) := by
  refine ⟨?_, ?_, ?_, ?_⟩
  · exact slotCount_ofOrder_add_le xs ys
  · exact slotCount_ofOrder_append_le xs ys
  · exact take_slots_ofOrder_append xs ys
  · intro hclosed
    exact slots_ofOrder_append hclosed

theorem ofOrder_append_scattered :
    Fill.Closed (scattered.take 2) (scattered.drop 2) ∧
    (ofOrder scattered).slots = (ofOrder (scattered.take 2)).slots ++
      (ofOrder (scattered.drop 2)).slots.map (Slot.shift (ofOrder (scattered.take 2)).slotCount) := by
  have hclosed : Fill.Closed (scattered.take 2) (scattered.drop 2) :=
    .inl ⟨.record "first" "Data" 1, by decide, rfl⟩
  have happend := (ofOrder_append (scattered.take 2) (scattered.drop 2)).2.2.2 hclosed
  rw [List.take_append_drop] at happend
  exact ⟨hclosed, happend⟩

end Layout

end StorageSlots
