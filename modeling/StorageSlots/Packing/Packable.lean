import StorageSlots.Total

/-!
Which sizes fit into a number of bins, whatever items they belong to.

A bin around one of the sizes can always be chosen such that it has no room for any size outside of
it (`Packable.choice`); that is why a search may pass over the other choices.
-/

namespace StorageSlots

def Packable (capacity bins : Nat) (sizes : List Nat) : Prop :=
  ∃ packed : List (List Nat), packed.length ≤ bins ∧ packed.flatten.Perm sizes ∧
    ∀ bin ∈ packed, total bin ≤ capacity

namespace Packable

variable {capacity bins size : Nat} {sizes : List Nat}

theorem perm {other : List Nat} (h : Packable capacity bins sizes) (hp : sizes.Perm other) :
    Packable capacity bins other :=
  let ⟨packed, hlength, hflatten, hfits⟩ := h
  ⟨packed, hlength, hflatten.trans hp, hfits⟩

theorem mono {more : Nat} (h : Packable capacity bins sizes) (hle : bins ≤ more) :
    Packable capacity more sizes :=
  let ⟨packed, hlength, hflatten, hfits⟩ := h
  ⟨packed, Nat.le_trans hlength hle, hflatten, hfits⟩

theorem total_flatten_le {packed : List (List Nat)} (h : ∀ bin ∈ packed, total bin ≤ capacity) :
    total packed.flatten ≤ packed.length * capacity := by
  induction packed with
  | nil => simp
  | cons bin packed ih =>
    have hbin := h bin (by simp)
    have hrest := ih fun b hb => h b (by simp [hb])
    simp only [List.flatten_cons, total_append, List.length_cons, Nat.add_mul]
    omega

theorem total_le (h : Packable capacity bins sizes) : total sizes ≤ bins * capacity := by
  obtain ⟨packed, hlength, hflatten, hfits⟩ := h
  rw [← total_perm hflatten]
  exact Nat.le_trans (total_flatten_le hfits) (Nat.mul_le_mul_right capacity hlength)

theorem not_zero_cons : ¬ Packable capacity 0 (size :: sizes) := by
  rintro ⟨packed, hlength, hflatten, _⟩
  obtain rfl : packed = [] := by simpa using hlength
  simpa using hflatten.length_eq

/-- The bin of one of the sizes, taken out of a packing. -/
theorem split (h : Packable capacity (bins + 1) (size :: sizes)) :
    ∃ taken refused, (taken ++ refused).Perm sizes ∧ size + total taken ≤ capacity ∧
      Packable capacity bins refused := by
  obtain ⟨packed, hlength, hflatten, hfits⟩ := h
  have hsize : size ∈ packed.flatten := hflatten.mem_iff.mpr (by simp)
  obtain ⟨bin, hbin, hmem⟩ := List.mem_flatten.mp hsize
  obtain ⟨before, after, rfl⟩ := List.append_of_mem hbin
  have herase := List.perm_cons_erase hmem
  refine ⟨bin.erase size, (before ++ after).flatten, ?_, ?_, before ++ after, ?_, .refl _, ?_⟩
  · refine List.Perm.cons_inv ((herase.symm.append_right _).trans (.trans ?_ hflatten))
    simp only [List.flatten_append, List.flatten_cons, ← List.append_assoc]
    exact List.perm_append_comm.append_right _
  · have htotal := total_perm herase
    have hle := hfits bin (by simp)
    simp only [total_cons] at htotal
    omega
  · simp only [List.length_append, List.length_cons] at hlength ⊢
    omega
  · intro b hb
    rcases List.mem_append.mp hb with hb | hb <;> exact hfits b (by simp [hb])

theorem tail (h : Packable capacity bins (size :: sizes)) : Packable capacity bins sizes := by
  cases bins with
  | zero => exact absurd h not_zero_cons
  | succ bins =>
    obtain ⟨taken, refused, hp, hle, packed, hlength, hflatten, hfits⟩ := h.split
    refine ⟨taken :: packed, Nat.succ_le_succ hlength, ?_, ?_⟩
    · simpa using (hflatten.append_left taken).trans hp
    · simpa using ⟨by omega, hfits⟩

theorem choice (h : Packable capacity (bins + 1) (size :: sizes)) :
    ∃ taken refused, (taken ++ refused).Perm sizes ∧ size + total taken ≤ capacity ∧
      Packable capacity bins refused ∧ ∀ n ∈ refused, capacity < size + total taken + n := by
  obtain ⟨taken, refused, hp, hle, hrest⟩ := h.split
  clear h
  generalize hlength : refused.length = length
  induction length using Nat.strongRecOn generalizing taken refused with
  | _ length ih =>
    by_cases hfull : ∀ n ∈ refused, capacity < size + total taken + n
    · exact ⟨taken, refused, hp, hle, hrest, hfull⟩
    · simp only [Classical.not_forall, Nat.not_lt] at hfull
      obtain ⟨n, hn, hroom⟩ := hfull
      have herase := List.perm_cons_erase hn
      have hcount := herase.length_eq
      simp only [List.length_cons] at hcount
      refine ih (refused.erase n).length (by omega) (n :: taken) (refused.erase n) ?_ ?_
        (hrest.perm herase).tail rfl
      · exact (List.perm_middle.symm.trans (herase.symm.append_left _)).trans hp
      · simp only [total_cons]
        omega

end Packable

end StorageSlots
