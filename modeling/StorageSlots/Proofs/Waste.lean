import StorageSlots.Proofs.FillingRule
import Mathlib.Data.List.Induction

/-!
How much an order of items can waste.

Two slots in sequence hold more than 32 bytes together, since the first item of the second found no
room in the first. Pairs of slots therefore bound the total size of the items from below, and any
other order has slots for that size. So no order takes twice as many slots as another, and no
outcome spares as many slots as its layout has.
-/

namespace StorageSlots

namespace Fill

theorem Shares.total_pos {group : List Item} (h : Shares group) :
    0 < total (group.map Item.byteSize) := by
  have hroom := h.room_lt
  rw [room] at hroom
  omega

theorem Shares.lt_total_add {group next : List Item} (h : Shares next)
    (hroom : ∀ item ∈ next.head?, room group < item.byteSize) :
    slotBytes < total (group.map Item.byteSize) + total (next.map Item.byteSize) := by
  obtain ⟨item, members, rfl⟩ := List.exists_cons_of_ne_nil h.nonempty
  have hitem := hroom item rfl
  rw [room] at hitem
  rw [List.map_cons, total_cons]
  omega

theorem Settled.half_le_total {groups : List (List Item)} (h : Settled groups)
    (hshares : ∀ group ∈ groups, Shares group) :
    slotBytes * (groups.length / 2) + (groups.length + 1) / 2 ≤
      total (groups.flatten.map Item.byteSize) := by
  induction groups using List.twoStepInduction with
  | nil => exact Nat.le_refl 0
  | singleton group =>
    have hpos := (hshares group (by simp)).total_pos
    simpa [Nat.succ_le_iff] using hpos
  | cons_cons group next rest ih _ =>
    obtain ⟨hborder, hsettled⟩ := List.isChain_cons_cons.mp h
    obtain ⟨-, hnext, hothers⟩ := by simpa using hshares
    have hpair := hnext.lt_total_add hborder
    have hrest := ih hsettled.tail hothers
    have hhalf : (rest.length + 1 + 1) / 2 = rest.length / 2 + 1 := by omega
    simp only [List.length_cons, List.flatten_cons, List.map_append, total_append]
    rw [hhalf, Nat.mul_succ]
    omega

end Fill

namespace Layout

theorem half_slotCount_lt_total {items : List Item} (h : items ≠ []) :
    slotBytes * ((ofOrder items).slotCount / 2) < total (items.map Item.byteSize) := by
  have hhalf := (Fill.settled_groups items).half_le_total fun _ => Fill.shares_of_mem_groups
  have hopened := List.length_pos_of_ne_nil (Fill.groups_ne_nil h)
  rw [Fill.flatten_groups, ← slotCount_ofOrder_eq_length] at hhalf
  rw [← slotCount_ofOrder_eq_length] at hopened
  omega

theorem slotCount_ofOrder_lt_of_perm {items order : List Item} (hperm : order.Perm items)
    (h : items ≠ []) : (ofOrder items).slotCount < 2 * (ofOrder order).slotCount := by
  have hhalf := half_slotCount_lt_total h
  have htotal := (packable_ofOrder order).total_le
  rw [total_perm (hperm.map Item.byteSize), Nat.mul_comm] at htotal
  have hlt := Nat.lt_of_mul_lt_mul_left (Nat.lt_of_lt_of_le hhalf htotal)
  omega

end Layout

theorem slotCount_ofOrder_lt_two_mul (items : List Item) :
    (items ≠ [] → ∀ order : List Item, order.Perm items →
      (Layout.ofOrder items).slotCount < 2 * (Layout.ofOrder order).slotCount) ∧
    ∀ solver layout, (compare items solver).optimized = some layout →
      (compare items solver).sparedSlots < layout.slotCount := by
  constructor
  · intro hitems order hperm
    exact Layout.slotCount_ofOrder_lt_of_perm hperm hitems
  · intro solver layout h
    obtain ⟨packing, -, hvalid, rfl, hfewer, hspared⟩ := compare_optimized h
    have hitems : items ≠ [] := by
      rintro rfl
      exact Nat.not_lt_zero _ hfewer
    have hwaste := Layout.slotCount_ofOrder_lt_of_perm (Packing.items_layout_perm hvalid) hitems
    have hobtained := Packing.slotCount_ofOrder_layout_le hvalid
    omega

def staggered : List Item :=
  valuesOf [1] ++ [.array "pair" "bytes[2]" 1] ++ valuesOf [1]

/-- Three slots and two: the bound on the slots of an order cannot be lowered. -/
theorem slotCount_ofOrder_lt_two_mul_staggered :
    staggered ≠ [] ∧ ∃ order : List Item, order.Perm staggered ∧
      (Layout.ofOrder staggered).slotCount + 1 = 2 * (Layout.ofOrder order).slotCount ∧
      ∃ layout, (compare staggered .firstFit).optimized = some layout ∧
        (compare staggered .firstFit).sparedSlots < layout.slotCount := by
  have hitems : staggered ≠ [] := by decide
  have hperm : (valuesOf [1] ++ valuesOf [1] ++ [Item.array "pair" "bytes[2]" 1]).Perm staggered :=
    by decide
  obtain ⟨hslots, hspared⟩ := slotCount_ofOrder_lt_two_mul staggered
  have hfound : (compare staggered .firstFit).optimized.isSome = true := by cbv
  obtain ⟨layout, hlayout⟩ := Option.isSome_iff_exists.mp hfound
  refine ⟨hitems, _, hperm, ?_, layout, hlayout, hspared _ _ hlayout⟩
  exact Nat.le_antisymm (hslots hitems _ hperm) (by decide)

end StorageSlots
