import StorageSlots.Proofs.Fallback
import StorageSlots.Proofs.OpeningOrder
import Mathlib.Data.List.Chain

/-!
When declaring the items of a layout in its order gives the layout back.

The filling rule keeps groups as they are exactly if none of them has room for the first item of the
next. A layout made from a packing need not be like that, because its slots follow the order in
which items were declared: the number of slots is what it says, but an item may end up in an earlier
slot. The order in which first-fit decreasing opens its bins would not have this flaw, since an item
goes into a bin only if no earlier one has room for it.
-/

namespace StorageSlots

namespace Fill

/-- Items that can have a slot to themselves. -/
structure Shares (group : List Item) : Prop where
  nonempty : group ≠ []
  fits : total (group.map Item.byteSize) ≤ slotBytes
  kinds : (∀ item ∈ group, item.isElementary = true) ∨ ∃ item, group = [item]

def room (group : List Item) : Nat :=
  slotBytes - total (group.map Item.byteSize)

def Settled (groups : List (List Item)) : Prop :=
  groups.IsChain fun group next => ∀ item ∈ next.head?, room group < item.byteSize

theorem Shares.room_lt {group : List Item} (h : Shares group) : room group < slotBytes := by
  obtain ⟨item, hitem⟩ := List.exists_mem_of_ne_nil group h.nonempty
  have hpos := item.byteSize_pos
  have hle := le_total_of_mem (List.mem_map_of_mem (f := Item.byteSize) hitem)
  have hfits := h.fits
  unfold room
  omega

theorem place_join {free : Nat} {item : Item} (hkind : item.isElementary = true)
    (hfits : item.byteSize ≤ free) (rest : List Item) :
    place free (item :: rest) = (item :: (place (free - item.byteSize) rest).1,
      (place (free - item.byteSize) rest).2) := by
  rw [place, if_pos hkind, if_pos hfits]

theorem place_append {free : Nat} {members : List Item}
    (hkind : ∀ item ∈ members, item.isElementary = true)
    (hfits : total (members.map Item.byteSize) ≤ free) (rest : List Item) :
    place free (members ++ rest) =
      (members ++ (place (free - total (members.map Item.byteSize)) rest).1,
        (place (free - total (members.map Item.byteSize)) rest).2) := by
  induction members generalizing free with
  | nil => rfl
  | cons item members ih =>
    obtain ⟨hitem, hmembers⟩ := List.forall_mem_cons.mp hkind
    rw [List.map_cons, total_cons] at hfits ⊢
    rw [List.cons_append, place_join hitem (by omega), ih hmembers (by omega), Nat.sub_sub]
    rfl

theorem place_open {free : Nat} {item : Item} {members : List Item}
    (h : Shares (item :: members)) (hfull : free < item.byteSize) (rest : List Item) :
    place free (item :: members ++ rest) =
      ([], (item :: members ++ (place (room (item :: members)) rest).1) ::
        (place (room (item :: members)) rest).2) := by
  have hfits := h.fits
  rw [List.map_cons, total_cons] at hfits
  rw [List.cons_append, place, room, List.map_cons, total_cons, ← Nat.sub_sub]
  by_cases hkind : item.isElementary = true
  · have hmembers : ∀ other ∈ members, other.isElementary = true := by
      rcases h.kinds with hall | ⟨only, honly⟩
      · exact (List.forall_mem_cons.mp hall).2
      · obtain ⟨rfl, rfl⟩ := List.cons.inj honly
        simp
    rw [if_pos hkind, if_neg (Nat.not_le.mpr hfull), place_append hmembers (by omega)]
    rfl
  · obtain rfl : members = [] := by
      rcases h.kinds with hall | ⟨only, honly⟩
      · exact absurd (hall item (by simp)) hkind
      · exact (List.cons.inj honly).2
    have hsize := item.byteSize_of_not_isElementary (by simpa using hkind)
    rw [if_neg hkind, hsize, Nat.sub_self]
    rfl

theorem place_flatten_iff {free : Nat} {groups : List (List Item)} (hfree : free < slotBytes)
    (h : ∀ group ∈ groups, Shares group) :
    place free groups.flatten = ([], groups) ↔
      (∀ group ∈ groups.head?, ∀ item ∈ group.head?, free < item.byteSize) ∧ Settled groups := by
  induction groups generalizing free with
  | nil => simp [place, Settled]
  | cons group groups ih =>
    obtain ⟨hgroup, hgroups⟩ := List.forall_mem_cons.mp h
    obtain ⟨item, members, rfl⟩ := List.exists_cons_of_ne_nil hgroup.nonempty
    have hrest := ih hgroup.room_lt hgroups
    rw [Settled, List.isChain_cons, ← Settled, ← hrest, List.flatten_cons]
    by_cases hfull : free < item.byteSize
    · rw [place_open hgroup hfull]
      simp [Prod.ext_iff, hfull]
    · -- A record or an array is never in this case: it is larger than what is free.
      have hkind : item.isElementary = true := by
        by_contra hkind
        have hsize := item.byteSize_of_not_isElementary (by simpa using hkind)
        omega
      rw [List.cons_append, place_join hkind (Nat.not_lt.mp hfull)]
      simp [hfull]

theorem groups_flatten_iff {items : List (List Item)} (h : ∀ group ∈ items, Shares group) :
    groups items.flatten = items ↔ Settled items := by
  have hplace := place_flatten_iff (show 0 < slotBytes by decide) h
  have hfst := place_zero_fst items.flatten
  have hopen : ∀ group ∈ items.head?, ∀ item ∈ group.head?, 0 < item.byteSize :=
    fun _ _ item _ => item.byteSize_pos
  rw [Prod.ext_iff, hfst, and_iff_right rfl, and_iff_right hopen] at hplace
  exact hplace

end Fill

namespace Layout

/-- No slot has room for the first item of the next. -/
def Settled (layout : Layout) : Prop :=
  layout.slots.IsChain fun slot next => ∀ item ∈ next.members.head?, slot.freeBytes < item.byteSize

instance (layout : Layout) : Decidable layout.Settled :=
  inferInstanceAs (Decidable (List.IsChain _ layout.slots))

theorem settled_groups_iff (layout : Layout) : Fill.Settled layout.groups ↔ layout.Settled :=
  List.isChain_map Slot.members

theorem ofOrder_items_ofGroups_iff {groups : List (List Item)}
    (h : ∀ group ∈ groups, Fill.Shares group) :
    ofOrder (ofGroups groups).items = ofGroups groups ↔ (ofGroups groups).Settled := by
  rw [← settled_groups_iff, groups_ofGroups, ← Fill.groups_flatten_iff h, items_ofGroups]
  constructor
  · intro heq
    simpa [ofOrder] using congrArg Layout.groups heq
  · intro heq
    rw [ofOrder, heq]

end Layout

theorem Packing.shares_of_mem_groups_layout {packing : Packing} {items : List Item}
    (h : packing.Valid (elementarySizes items) slotBytes) :
    ∀ group ∈ (packing.layout items).groups, Fill.Shares group := by
  intro group hgroup
  refine ⟨ne_nil_of_mem_groups_layout h group hgroup, total_le_of_mem_groups_layout h group hgroup,
    ?_⟩
  rw [groups_layout] at hgroup
  rcases List.mem_append.mp hgroup with hgroup | hgroup
  · obtain ⟨bin, _, rfl⟩ := List.mem_map.mp hgroup
    exact .inl fun item hitem => isElementary_of_mem_pick hitem
  · obtain ⟨item, _, rfl⟩ := List.mem_map.mp hgroup
    exact .inr ⟨item, rfl⟩

theorem ofOrder_optimized_eq_iff {items : List Item} {solver : Solver} {layout : Layout}
    (h : (compare items solver).optimized = some layout) :
    Layout.ofOrder layout.items = layout ↔ layout.Settled := by
  obtain ⟨packing, -, hvalid, rfl, -, -⟩ := compare_optimized h
  have hshares := Packing.shares_of_mem_groups_layout hvalid
  rw [Packing.groups_layout] at hshares
  exact Layout.ofOrder_items_ofGroups_iff hshares

theorem ofOrder_optimized_eq_iff_scattered :
    ∃ layout, (compare scattered hurried.solver).optimized = some layout ∧
      (Layout.ofOrder layout.items = layout ↔ layout.Settled) := by
  obtain ⟨layout, h⟩ := optimized_scattered
  exact ⟨layout, h, ofOrder_optimized_eq_iff h⟩

/-- Items in three slots. Two are enough, but the first of these has room for an item of the
second. -/
def interleaved : List Item :=
  [("a", "uint32", 4), ("b", "uint64", 8), ("c", "uint192", 24), ("d", "uint96", 12)].zipIdx.filterMap
    fun v => (Item.elementary v.1.1 v.1.2.1 v.1.2.2 v.2).toOption

theorem ofOrder_optimized_ne_interleaved :
    ∃ layout, (compare interleaved ({} : ExactSolver).solver).optimized = some layout ∧
      (compare interleaved .firstFit).optimized = some layout ∧
      layout.groups.map (List.map Item.name) = [["a", "d"], ["b", "c"]] ∧
      (Layout.ofOrder layout.items).groups.map (List.map Item.name) = [["a", "d", "b"], ["c"]] ∧
      Layout.ofOrder layout.items ≠ layout := by
  have hcertified : (FirstFit.pack (elementarySizes interleaved) slotBytes).certified = true := by
    cbv
  have hfound : ((compare interleaved .firstFit).optimized.any fun layout =>
      layout.groups.map (List.map Item.name) == [["a", "d"], ["b", "c"]] &&
        (Layout.ofOrder layout.items).groups.map (List.map Item.name) ==
          [["a", "d", "b"], ["c"]]) = true := by
    cbv
  rw [Option.any_eq_true] at hfound
  obtain ⟨layout, hlayout, hnames⟩ := hfound
  rw [Bool.and_eq_true, beq_iff_eq, beq_iff_eq] at hnames
  obtain ⟨hshown, hobtained⟩ := hnames
  rw [Solver.compare_of_solve (ExactSolver.solve_of_certified hcertified)]
  refine ⟨layout, hlayout, hlayout, hshown, hobtained, fun heq => ?_⟩
  rw [heq, hshown] at hobtained
  simp at hobtained

/-! ### The order in which first-fit decreasing opens its bins -/

theorem Fill.settled_append_composites {groups : List (List Item)} {items : List Item}
    (hshares : ∀ group ∈ groups ++ (compositeItems items).map (fun item => [item]), Shares group)
    (h : groups.Pairwise fun group next => ∀ item ∈ next, room group < item.byteSize) :
    Settled (groups ++ (compositeItems items).map fun item => [item]) := by
  have hcomposite : ∀ next ∈ (compositeItems items).map fun item => [item],
      ∀ item ∈ next, item.byteSize = slotBytes := by
    intro next hnext item hitem
    obtain ⟨composite, hmem, rfl⟩ := List.mem_map.mp hnext
    rw [List.mem_singleton.mp hitem]
    exact byteSize_of_mem_compositeItems hmem
  have hpairwise : (groups ++ (compositeItems items).map fun item => [item]).Pairwise
      fun group next => ∀ item ∈ next, room group < item.byteSize := by
    rw [List.pairwise_append]
    refine ⟨h, ?_, ?_⟩
    · refine List.pairwise_of_forall_mem_list fun group hgroup next hnext item hitem => ?_
      rw [hcomposite next hnext item hitem]
      exact (hshares group (List.mem_append_right _ hgroup)).room_lt
    · intro group hgroup next hnext item hitem
      rw [hcomposite next hnext item hitem]
      exact (hshares group (List.mem_append_left _ hgroup)).room_lt
  exact hpairwise.isChain.imp fun group next hroom item hitem =>
    hroom item (List.mem_of_mem_head? hitem)

namespace FirstFit

variable {items : List Item} {bin : List Entry}

theorem map_byteSize_pick_perm (hbin : bin ∈ bins (elementarySizes items) slotBytes) :
    ((Packing.pick (elementaryItems items) (Packing.sortBin (bin.map Entry.item))).map
      Item.byteSize).Perm (bin.map Entry.size) := by
  have hsorted : Packing.sortBin (bin.map Entry.item) ∈
      (pack (elementarySizes items) slotBytes).bins :=
    (bins_pack_perm _ slotBytes).mem_iff.mpr (List.mem_map_of_mem hbin)
  have hlt := Packing.lt_length_of_valid (pack_valid (elementarySizes_le items)) _ hsorted
  rw [Packing.map_byteSize_pick hlt]
  exact map_sizeOf_sortBin_perm hbin

theorem pairwise_room_lt (items : List Item) :
    ((bins (elementarySizes items) slotBytes).map fun bin =>
        Packing.pick (elementaryItems items) (Packing.sortBin (bin.map Entry.item))).Pairwise
      fun group next => ∀ item ∈ next, Fill.room group < item.byteSize := by
  rw [List.pairwise_map]
  refine List.Pairwise.imp_of_mem ?_ (refuses_bins (elementarySizes items) slotBytes)
  intro bin later hbin hlater hrefused item hitem
  obtain ⟨entry, hentry, hsize⟩ := List.mem_map.mp
    ((map_byteSize_pick_perm hlater).mem_iff.mp (List.mem_map_of_mem hitem))
  have hfull := hrefused entry hentry
  have hpos := item.byteSize_pos
  rw [Fill.room, total_perm (map_byteSize_pick_perm hbin), ← load, ← hsize]
  omega

/-- The slots that first-fit decreasing gives can be put in an order that is reproduced, which is the
order in which it opened their bins. -/
theorem exists_perm_ofOrder_eq (items : List Item) :
    ∃ groups, groups.Perm ((pack (elementarySizes items) slotBytes).layout items).groups ∧
      Layout.ofOrder (Layout.ofGroups groups).items = Layout.ofGroups groups := by
  have hvalid := pack_valid (elementarySizes_le items)
  have hbins := (bins_pack_perm (elementarySizes items) slotBytes).map
    (Packing.pick (elementaryItems items))
  rw [List.map_map] at hbins
  have hperm := hbins.symm.append_right ((compositeItems items).map fun item => [item])
  rw [← Packing.groups_layout] at hperm
  have hshares : ∀ group ∈ _, Fill.Shares group := fun group hgroup =>
    Packing.shares_of_mem_groups_layout hvalid group (hperm.mem_iff.mp hgroup)
  refine ⟨_, hperm, (Layout.ofOrder_items_ofGroups_iff hshares).mpr ?_⟩
  rw [← Layout.settled_groups_iff, Layout.groups_ofGroups]
  exact Fill.settled_append_composites hshares (pairwise_room_lt items)

end FirstFit

end StorageSlots
