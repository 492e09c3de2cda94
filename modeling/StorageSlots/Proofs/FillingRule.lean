import StorageSlots.Layout.Filling
import StorageSlots.Proofs.Refill

/-!
The filling rule, and the layouts that follow it.

A layout follows the rule for some items if it reads as them in their order, its slots are numbered
from 1 and hold items that may share one, and no slot of elementary items had room for the first
item of the next. Exactly one layout follows the rule. Filling slots one item at a time keeps the
rule, with the free bytes of the last slot as the number that is carried along; so it never spends
bytes that are not there, and ends with that layout.
-/

namespace StorageSlots

namespace Slot

def Alone (slot : Slot) : Prop :=
  ∃ item, slot.members = [item] ∧ item.isElementary = false

def Shared (slot : Slot) : Prop :=
  ∀ item ∈ slot.members, item.isElementary = true

variable {slot : Slot}

theorem usedBytes_push (slot : Slot) (item : Item) :
    (slot.push item).usedBytes = slot.usedBytes + item.byteSize := by
  simp [push, usedBytes]

theorem Alone.usedBytes_eq (h : slot.Alone) : slot.usedBytes = slotBytes := by
  obtain ⟨item, hmembers, hkind⟩ := h
  simp [usedBytes, hmembers, Item.byteSize_of_not_isElementary hkind]

theorem Alone.freeBytes_eq (h : slot.Alone) : slot.freeBytes = 0 := by
  rw [freeBytes, h.usedBytes_eq, Nat.sub_self]

theorem Alone.byteSize_head (h : slot.Alone) :
    ∀ item ∈ slot.members.head?, item.byteSize = slotBytes := by
  obtain ⟨only, hmembers, hkind⟩ := h
  rintro item hitem
  rw [hmembers] at hitem
  cases hitem
  exact Item.byteSize_of_not_isElementary hkind

end Slot

namespace Layout

/-- The layout is what the filling rule makes of the items in their order. -/
structure FollowsRule (layout : Layout) (items : List Item) : Prop where
  order : layout.items = items
  indices : layout.slots.map Slot.index = List.range' 1 layout.slotCount
  nonempty : ∀ slot ∈ layout.slots, slot.members ≠ []
  members : ∀ slot ∈ layout.slots, slot.Alone ∨ slot.Shared ∧ slot.usedBytes ≤ slotBytes
  full : layout.slots.IsChain fun slot next => slot.Shared → next.Shared →
    ∀ item ∈ next.members.head?, slot.freeBytes < item.byteSize

section Unique

variable {layout : Layout} {items : List Item}

theorem numbered_map_members {first : Nat} {slots : List Slot}
    (h : slots.map Slot.index = List.range' first slots.length) :
    numbered first (slots.map Slot.members) = slots := by
  induction slots generalizing first with
  | nil => rfl
  | cons slot slots ih =>
    rw [List.map_cons, List.length_cons, List.range'_succ, List.cons.injEq] at h
    rw [List.map_cons, numbered, ih h.2, ← h.1]

theorem ofGroups_groups (h : layout.slots.map Slot.index = List.range' 1 layout.slotCount) :
    ofGroups layout.groups = layout := by
  rw [ofGroups, groups, numbered_map_members h]

theorem FollowsRule.shares (h : layout.FollowsRule items) :
    ∀ group ∈ layout.groups, Fill.Shares group := by
  intro group hgroup
  obtain ⟨slot, hslot, rfl⟩ := List.mem_map.mp hgroup
  refine ⟨h.nonempty slot hslot, ?_, ?_⟩
  · rcases h.members slot hslot with halone | ⟨-, hfits⟩
    · exact halone.usedBytes_eq.le
    · exact hfits
  · rcases h.members slot hslot with ⟨item, hmembers, -⟩ | ⟨hshared, -⟩
    · exact .inr ⟨item, hmembers⟩
    · exact .inl hshared

theorem FollowsRule.settled (h : layout.FollowsRule items) : layout.Settled := by
  refine List.IsChain.imp_of_mem_imp ?_ h.full
  intro slot next hslot hnext hfull item hitem
  rcases h.members slot hslot with halone | ⟨hslotShared, -⟩
  · rw [halone.freeBytes_eq]
    exact item.byteSize_pos
  rcases h.members next hnext with halone | ⟨hnextShared, -⟩
  · rw [halone.byteSize_head item hitem]
    exact (h.shares _ (List.mem_map_of_mem hslot)).room_lt
  · exact hfull hslotShared hnextShared item hitem

theorem FollowsRule.eq_ofOrder (h : layout.FollowsRule items) : layout = ofOrder items := by
  have hgroups := ofGroups_groups h.indices
  have hsettled := h.settled
  rw [← hgroups] at hsettled
  have hfill := (ofOrder_items_ofGroups_iff h.shares).mpr hsettled
  rw [hgroups, h.order] at hfill
  exact hfill.symm

end Unique

section Steps

variable {layout : Layout} {items : List Item} {last : Slot} {item : Item}

theorem FollowsRule.empty : FollowsRule ⟨[]⟩ [] := by
  constructor <;> simp [Layout.items, groups, slotCount]

theorem FollowsRule.pushSlot {members : List Item} (h : layout.FollowsRule items)
    (hnonempty : members ≠ [])
    (hmembers : Slot.Alone ⟨layout.slotCount + 1, members⟩ ∨
      Slot.Shared ⟨layout.slotCount + 1, members⟩ ∧ total (members.map Item.byteSize) ≤ slotBytes)
    (hfull : ∀ last ∈ layout.slots.getLast?, Slot.Shared ⟨layout.slotCount + 1, members⟩ →
      ∀ item ∈ members.head?, last.freeBytes < item.byteSize) :
    (layout.pushSlot members).FollowsRule (items ++ members) where
  order := by simp [Layout.pushSlot, Layout.items, groups, ← h.order]
  indices := by
    have hcount : (layout.pushSlot members).slotCount = layout.slotCount + 1 := List.length_append
    rw [hcount, List.range'_1_concat, ← h.indices, Layout.pushSlot, List.map_append, Nat.add_comm]
    rfl
  nonempty := by
    intro slot hslot
    rcases List.mem_append.mp hslot with hslot | hslot
    · exact h.nonempty slot hslot
    · rw [List.mem_singleton.mp hslot]
      exact hnonempty
  members := by
    intro slot hslot
    rcases List.mem_append.mp hslot with hslot | hslot
    · exact h.members slot hslot
    · rw [List.mem_singleton.mp hslot]
      exact hmembers
  full := by
    refine List.isChain_append.mpr ⟨h.full, .singleton _, ?_⟩
    rintro last hlast _ ⟨⟩ - hshared
    exact hfull last hlast hshared

theorem pushToLast_openSlot (layout : Layout) (item : Item) :
    layout.openSlot.pushToLast item = layout.pushSlot [item] := by
  simp [openSlot, pushToLast, pushSlot, isEmpty, slotCount, Slot.push, List.modify_eq_set_getElem?]

theorem pushToLast_concat {slots : List Slot} :
    pushToLast ⟨slots ++ [last]⟩ item = ⟨slots ++ [last.push item]⟩ := by
  simp [pushToLast, isEmpty, slotCount, List.modify_eq_set_getElem?]

theorem FollowsRule.push_last {slots : List Slot} (h : FollowsRule ⟨slots ++ [last]⟩ items)
    (hshared : (last.push item).Shared) (hfits : (last.push item).usedBytes ≤ slotBytes) :
    FollowsRule ⟨slots ++ [last.push item]⟩ (items ++ [item]) where
  order := by simp [Layout.items, groups, Slot.push, ← h.order]
  indices := by simpa [slotCount, Slot.push] using h.indices
  nonempty := by
    intro slot hslot
    rcases List.mem_append.mp hslot with hslot | hslot
    · exact h.nonempty slot (List.mem_append_left _ hslot)
    · simp [List.mem_singleton.mp hslot, Slot.push]
  members := by
    intro slot hslot
    rcases List.mem_append.mp hslot with hslot | hslot
    · exact h.members slot (List.mem_append_left _ hslot)
    · rw [List.mem_singleton.mp hslot]
      exact .inr ⟨hshared, hfits⟩
  full := by
    obtain ⟨hslots, -, hlast⟩ := List.isChain_append.mp h.full
    refine List.isChain_append.mpr ⟨hslots, .singleton _, ?_⟩
    -- The last slot begins with the same item as before, for it was not empty.
    obtain ⟨first, rest, hmembers⟩ := List.exists_cons_of_ne_nil
      (h.nonempty last (List.mem_append_right _ (List.mem_singleton_self _)))
    rintro slot hslot _ ⟨⟩ hslotShared - opening hopening
    rw [Slot.push, hmembers] at hopening
    refine hlast slot hslot last rfl hslotShared ?_ opening (by rw [hmembers]; exact hopening)
    exact fun other hother => hshared other (List.mem_append_left _ hother)

end Steps

end Layout

namespace Filling

open Layout

/-- The layout follows the rule so far, and the bytes that may be shared are those free in its last
slot. -/
structure Sound (filling : Filling) (items : List Item) : Prop where
  rule : filling.layout.FollowsRule items
  free_eq : filling.free = filling.layout.slots.getLast?.elim 0 Slot.freeBytes

variable {filling : Filling} {items : List Item} {item : Item}

theorem Sound.start : Sound {} [] :=
  ⟨.empty, rfl⟩

theorem Sound.freeBytes_eq (h : filling.Sound items) {last : Slot}
    (hlast : last ∈ filling.layout.slots.getLast?) : last.freeBytes = filling.free := by
  rw [h.free_eq, Option.mem_def.mp hlast, Option.elim_some]

theorem Sound.open_slot (h : filling.Sound items) (hkind : item.isElementary = true)
    (hfull : filling.free < item.byteSize) :
    Sound ⟨filling.layout.openSlot.pushToLast item, slotBytes - item.byteSize⟩
      (items ++ [item]) := by
  rw [pushToLast_openSlot]
  refine ⟨h.rule.pushSlot (by simp) (.inr ⟨by simpa [Slot.Shared], ?_⟩) ?_, ?_⟩
  · simpa using item.byteSize_le
  · rintro last hlast - _ ⟨⟩
    rwa [h.freeBytes_eq hlast]
  · simp [Layout.pushSlot, Slot.freeBytes, Slot.usedBytes]

theorem Sound.share (h : filling.Sound items) (hkind : item.isElementary = true)
    (hfits : item.byteSize ≤ filling.free) :
    Sound ⟨filling.layout.pushToLast item, filling.free - item.byteSize⟩ (items ++ [item]) := by
  obtain ⟨⟨slots⟩, free⟩ := filling
  have hpos := item.byteSize_pos
  cases hlast : slots.getLast? with
  | none =>
    have hnone : free = 0 := by simpa [hlast] using h.free_eq
    simp only at hfits
    omega
  | some last =>
    have hfree : last.freeBytes = free := h.freeBytes_eq hlast
    obtain ⟨init, rfl⟩ := List.getLast?_eq_some_iff.mp hlast
    have hmem : last ∈ init ++ [last] := by simp
    -- A record or an array leaves nothing free, so the slot is one of elementary items.
    have hshared : last.Shared := by
      rcases h.rule.members last hmem with halone | ⟨hshared, -⟩
      · rw [halone.freeBytes_eq] at hfree
        simp only at hfits
        omega
      · exact hshared
    have hpush : (last.push item).Shared := by
      intro other hother
      rcases List.mem_append.mp hother with hother | hother
      · exact hshared other hother
      · rwa [List.mem_singleton.mp hother]
    rw [Slot.freeBytes] at hfree
    simp only at hfits
    refine ⟨?_, ?_⟩
    · rw [pushToLast_concat]
      refine h.rule.push_last hpush ?_
      rw [Slot.usedBytes_push]
      omega
    · rw [pushToLast_concat, List.getLast?_concat, Option.elim_some, Slot.freeBytes,
        Slot.usedBytes_push, ← Nat.sub_sub, hfree]

theorem Sound.close (h : filling.Sound items) (hkind : item.isElementary = false) :
    Sound ⟨filling.layout.pushSlot [item], 0⟩ (items ++ [item]) := by
  have halone : Slot.Alone ⟨filling.layout.slotCount + 1, [item]⟩ := ⟨item, rfl, hkind⟩
  refine ⟨h.rule.pushSlot (by simp) (.inl halone) ?_, ?_⟩
  · intro last hlast hshared
    simp [hshared item (by simp)] at hkind
  · rw [Layout.pushSlot, List.getLast?_concat, Option.elim_some, halone.freeBytes_eq]

theorem Sound.place? (h : filling.Sound items) (item : Item) :
    ∃ next, filling.place? item = some next ∧ next.Sound (items ++ [item]) := by
  rw [Filling.place?]
  cases hkind : item.isElementary with
  | false => exact ⟨_, rfl, h.close hkind⟩
  | true =>
    by_cases hfull : filling.free < item.byteSize
    · rw [if_pos rfl, if_pos hfull, spend?_of_le item.byteSize_le]
      exact ⟨_, rfl, h.open_slot hkind hfull⟩
    · rw [if_pos rfl, if_neg hfull, spend?_of_le (Nat.not_lt.mp hfull)]
      exact ⟨_, rfl, h.share hkind (Nat.not_lt.mp hfull)⟩

theorem Sound.foldlM (h : filling.Sound items) (later : List Item) :
    ∃ last, later.foldlM Filling.place? filling = some last ∧ last.Sound (items ++ later) := by
  induction later generalizing filling items with
  | nil => exact ⟨filling, rfl, by simpa using h⟩
  | cons item later ih =>
    obtain ⟨next, hnext, hsound⟩ := h.place? item
    rw [List.foldlM_cons, hnext, List.append_cons]
    exact ih hsound

end Filling

namespace Layout

theorem followsRule_ofOrder (items : List Item) :
    ∃ free, Filling.run? items = some ⟨ofOrder items, free⟩ ∧ (ofOrder items).FollowsRule items := by
  obtain ⟨last, hrun, hsound⟩ := Filling.Sound.start.foldlM items
  rw [List.nil_append] at hsound
  rw [← hsound.rule.eq_ofOrder]
  exact ⟨last.free, hrun, hsound.rule⟩

theorem hasSlot_iff (layout : Layout) (n : Nat) :
    layout.hasSlot n = true ↔ 1 ≤ n ∧ n ≤ layout.slotCount := by
  cases n with
  | zero =>
    constructor
    · rintro ⟨⟩
    · rintro ⟨⟨⟩, -⟩
  | succ n =>
    rw [hasSlot, get?, isSome_getElem?, slotCount, ← Nat.succ_le_iff]
    exact (and_iff_right (Nat.le_add_left 1 n)).symm

theorem FollowsRule.index_of_get? {layout : Layout} {items : List Item}
    (h : layout.FollowsRule items) {n : Nat} {slot : Slot} (hget : layout.get? n = some slot) :
    slot.index = n := by
  cases n with
  | zero => cases hget
  | succ n =>
    have hslot : layout.slots[n]? = some slot := hget
    have hlt : n < layout.slotCount := (List.getElem?_eq_some_iff.mp hslot).1
    have hindex := congrArg (·[n]?) h.indices
    simp only [List.getElem?_map, hslot, Option.map_some, List.getElem?_range' hlt] at hindex
    have := Option.some.inj hindex
    omega

/-- Filling never runs out of bytes, and ends with the only layout that follows the rule. -/
theorem followsRule_iff_eq_ofOrder (items : List Item) :
    (∃ free, Filling.run? items = some ⟨ofOrder items, free⟩) ∧
    (∀ layout, layout.FollowsRule items ↔ layout = ofOrder items) ∧
    ∀ n, ((ofOrder items).hasSlot n = true ↔ 1 ≤ n ∧ n ≤ (ofOrder items).slotCount) ∧
      ∀ slot, (ofOrder items).get? n = some slot → slot.index = n := by
  obtain ⟨free, hrun, hrule⟩ := followsRule_ofOrder items
  refine ⟨⟨free, hrun⟩, ?_, ?_⟩
  · intro layout
    constructor
    · exact FollowsRule.eq_ofOrder
    · rintro rfl
      exact hrule
  · intro n
    exact ⟨hasSlot_iff _ n, fun slot => hrule.index_of_get?⟩

end Layout

namespace Fill

variable {items : List Item}

theorem groups_ne_nil (h : items ≠ []) : groups items ≠ [] := by
  intro hnone
  rw [← flatten_groups items, hnone] at h
  exact h rfl

theorem shares_of_mem_groups {group : List Item} (h : group ∈ groups items) : Shares group := by
  obtain ⟨_, -, hrule⟩ := Layout.followsRule_ofOrder items
  refine hrule.shares group ?_
  rwa [Layout.ofOrder, Layout.groups_ofGroups]

theorem settled_groups (items : List Item) : Settled (groups items) :=
  (groups_flatten_iff fun _ => shares_of_mem_groups).mp (by rw [flatten_groups])

end Fill

end StorageSlots
