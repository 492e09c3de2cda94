import StorageSlots.Proofs.FirstFitLaws
import StorageSlots.Solver

/-!
The bins of first-fit decreasing in the order in which they are opened.

No bin has room for an entry of a later one, and each holds an entry that is as large. So any two bins
exceed the capacity together, and none could be merged.
-/

namespace StorageSlots

namespace FirstFit

def Refuses (capacity : Nat) (bins : List (List Entry)) : Prop :=
  bins.Pairwise fun bin later => ∀ entry ∈ later, capacity < load bin + entry.size

def Leads (bins : List (List Entry)) : Prop :=
  bins.Pairwise fun bin later => ∀ entry ∈ later, ∃ e ∈ bin, entry.size ≤ e.size

/-- What makes earlier bins lead while entries from the largest to the smallest are inserted. -/
structure Descending (bins : List (List Entry)) (entries : List Entry) : Prop where
  nonempty : ∀ bin ∈ bins, bin ≠ []
  ordered : entries.Pairwise fun a b => b.size ≤ a.size
  large : ∀ bin ∈ bins, ∀ e ∈ bin, ∀ entry ∈ entries, entry.size ≤ e.size
  leads : Leads bins

section Insertion

variable {capacity : Nat} {entry : Entry} {bins : List (List Entry)}

theorem pairwise_insert {Q : List Entry → Entry → Prop}
    (h : bins.Pairwise fun bin later => ∀ e ∈ later, Q bin e)
    (hgrow : ∀ bin e, Q bin e → Q (bin ++ [entry]) e)
    (hrefused : ∀ bin ∈ bins, capacity < load bin + entry.size → Q bin entry) :
    (insert capacity entry bins).Pairwise fun bin later => ∀ e ∈ later, Q bin e := by
  induction bins with
  | nil => exact List.pairwise_singleton _ _
  | cons bin bins ih =>
    obtain ⟨hbin, hbins⟩ := List.pairwise_cons.mp h
    obtain ⟨hfirst, hothers⟩ := List.forall_mem_cons.mp hrefused
    unfold insert
    split
    · refine List.pairwise_cons.mpr ⟨?_, hbins⟩
      exact fun later hlater e he => hgrow bin e (hbin later hlater e he)
    · next hfull =>
      have hentry := List.forall_mem_singleton.mpr (hfirst (Nat.not_le.mp hfull))
      refine List.pairwise_cons.mpr ⟨forall_mem_insert hbin ?_ hentry, ih hbins hothers⟩
      exact fun later hlater _ => List.forall_mem_append.mpr ⟨hbin later hlater, hentry⟩

theorem Refuses.insert (h : Refuses capacity bins) (entry : Entry) :
    Refuses capacity (FirstFit.insert capacity entry bins) := by
  refine pairwise_insert h ?_ fun _ _ hfull => hfull
  -- A bin that grows still refuses what it refused before.
  intro bin e hrefused
  rw [load_append]
  omega

theorem Descending.insert {entries : List Entry} (h : Descending bins (entry :: entries)) :
    Descending (FirstFit.insert capacity entry bins) entries where
  nonempty := forall_mem_insert h.nonempty (by simp) (by simp)
  ordered := (List.pairwise_cons.mp h.ordered).2
  large := forall_size_le_insert h.ordered h.large
  leads := by
    refine pairwise_insert h.leads ?_ ?_
    · rintro bin other ⟨e, he, hle⟩
      exact ⟨e, List.mem_append_left _ he, hle⟩
    · intro bin hbin _
      obtain ⟨e, he⟩ := List.exists_mem_of_ne_nil bin (h.nonempty bin hbin)
      exact ⟨e, he, h.large bin hbin e he entry (by simp)⟩

end Insertion

theorem refuses_bins (sizes : List Nat) (capacity : Nat) :
    Refuses capacity (bins sizes capacity) :=
  foldl_insert_induction capacity (P := fun bins _ => Refuses capacity bins)
    (fun _ entry _ h => h.insert entry) (decreasing sizes) [] List.Pairwise.nil

theorem leads_bins (sizes : List Nat) (capacity : Nat) : Leads (bins sizes capacity) := by
  have h : Descending (bins sizes capacity) [] :=
    foldl_insert_induction capacity (fun _ _ _ h => h.insert) (decreasing sizes) []
      ⟨by simp, decreasing_ordered sizes, by simp, List.Pairwise.nil⟩
  exact h.leads

theorem pairwise_load_bins (sizes : List Nat) (capacity : Nat) :
    (bins sizes capacity).Pairwise fun a b => capacity < load a + load b := by
  refine List.Pairwise.imp_of_mem ?_ (refuses_bins sizes capacity)
  intro bin later _ hlater hrefused
  obtain ⟨e, he⟩ := List.exists_mem_of_ne_nil later (bins_ne_nil later hlater)
  have hfull := hrefused e he
  have hle := size_le_load he
  omega

theorem pairwise_load_pack (sizes : List Nat) (capacity : Nat) :
    (pack sizes capacity).bins.Pairwise fun a b =>
      capacity < Packing.load sizes a + Packing.load sizes b := by
  have hload : ∀ bin ∈ bins sizes capacity,
      Packing.load sizes (Packing.sortBin (bin.map Entry.item)) = load bin :=
    fun bin hbin => total_perm (map_sizeOf_sortBin_perm hbin)
  refine ((bins_pack_perm sizes capacity).pairwise_iff fun h => by omega).mpr ?_
  rw [List.pairwise_map]
  refine List.Pairwise.imp_of_mem ?_ (pairwise_load_bins sizes capacity)
  intro a b ha hb hfull
  rwa [hload a ha, hload b hb]

end FirstFit

theorem firstFit_packs_unmergeable (sizes : List Nat) (capacity : Nat)
    (h : ∀ size ∈ sizes, size ≤ capacity) :
    ∃ packing, Solver.firstFit.solve sizes capacity = .ok packing ∧
      packing.validate sizes capacity = .ok () ∧
      packing.bins.Pairwise fun a b =>
        capacity < Packing.load sizes a + Packing.load sizes b := by
  have hvalid := FirstFit.pack_valid h
  refine ⟨FirstFit.pack sizes capacity, rfl, ?_, FirstFit.pairwise_load_pack sizes capacity⟩
  exact Packing.validate_eq_ok_iff.mpr hvalid

theorem firstFit_packs_unmergeable_weightless :
    (∀ size ∈ [20, 0, 12, 13, 0], size ≤ 32) ∧
    ∃ packing, Solver.firstFit.solve [20, 0, 12, 13, 0] 32 = .ok packing ∧
      packing.validate [20, 0, 12, 13, 0] 32 = .ok () ∧
      packing.bins.Pairwise fun a b =>
        32 < Packing.load [20, 0, 12, 13, 0] a + Packing.load [20, 0, 12, 13, 0] b := by
  have hsizes : ∀ size ∈ [20, 0, 12, 13, 0], size ≤ 32 := by decide
  exact ⟨hsizes, firstFit_packs_unmergeable [20, 0, 12, 13, 0] 32 hsizes⟩

end StorageSlots
