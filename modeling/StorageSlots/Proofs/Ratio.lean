import StorageSlots.Proofs.Exactness
import StorageSlots.Proofs.OpeningOrder
import Mathlib.Algebra.Order.BigOperators.Group.List
import Mathlib.Algebra.Order.Group.Nat

/-!
How far first-fit decreasing is from the fewest bins.

A valid packing has no fewer bins than the total size calls for, so a certified packing has as few as
any. In every case first-fit decreasing takes at most half as many bins again. Cut its bins anywhere:
if the bin at the cut holds a size above half the capacity, so does each bin before it; otherwise the
bins from the cut on hold two sizes each, and none of these fits into a bin before the cut.
-/

namespace StorageSlots

/-! ### Certified packings -/

theorem lowerBound_le_binCount (sizes : List Nat) (capacity : Nat) (other : Packing)
    (h : other.validate sizes capacity = .ok ()) :
    lowerBound sizes capacity ≤ other.binCount ∧
    ∀ packing, Solver.firstFit.solve sizes capacity = .ok packing → packing.certified = true →
      packing.binCount ≤ other.binCount := by
  have hpackable := (Packing.validate_eq_ok_iff.mp h).packable
  refine ⟨hpackable.lowerBound_le, ?_⟩
  intro packing hsolve hcertified
  obtain rfl : FirstFit.pack sizes capacity = packing := Except.ok.inj hsolve
  exact FirstFit.binCount_le_of_certified hcertified hpackable

def halves : Packing :=
  ⟨[[0], [1, 2]], false, by decide, by decide, by decide⟩

theorem lowerBound_le_binCount_halves :
    halves.validate [32, 16, 16] 32 = .ok () ∧
    lowerBound [32, 16, 16] 32 ≤ halves.binCount ∧
    ∃ packing, Solver.firstFit.solve [32, 16, 16] 32 = .ok packing ∧ packing.certified = true ∧
      packing.binCount ≤ halves.binCount := by
  have hvalid : halves.validate [32, 16, 16] 32 = .ok () := by decide
  have hcertified : (FirstFit.pack [32, 16, 16] 32).certified = true := by
    rw [FirstFit.pack, FirstFit.bins, FirstFit.decreasing_of_pairwise (by decide)]
    decide
  obtain ⟨hbound, hfewest⟩ := lowerBound_le_binCount [32, 16, 16] 32 halves hvalid
  exact ⟨hvalid, hbound, _, rfl, hcertified, hfewest _ rfl hcertified⟩

/-! ### Half as many bins again -/

theorem countP_flatten_le_length {α : Type} {p : α → Bool} {bins : List (List α)}
    (h : ∀ bin ∈ bins, bin.countP p ≤ 1) : bins.flatten.countP p ≤ bins.length := by
  rw [List.countP_flatten]
  simpa using List.sum_le_card_nsmul (bins.map (List.countP p)) 1 (by simpa using h)

theorem length_le_countP_flatten {α : Type} {p : α → Bool} {bins : List (List α)}
    (h : ∀ bin ∈ bins, ∃ x ∈ bin, p x = true) : bins.length ≤ bins.flatten.countP p := by
  rw [List.countP_flatten]
  simpa using List.card_nsmul_le_sum (bins.map (List.countP p)) 1
    (by simpa [Nat.succ_le_iff, List.countP_pos_iff] using h)

namespace Packable

variable {capacity bins : Nat} {sizes : List Nat}

theorem countP_half_le_one {bin : List Nat} (h : total bin ≤ capacity) :
    bin.countP (capacity < 2 * ·) ≤ 1 := by
  induction bin with
  | nil => exact Nat.zero_le 1
  | cons size bin ih =>
    rw [total_cons] at h
    by_cases hlarge : capacity < 2 * size
    · -- What is left of the capacity is too little for another such size.
      have hothers : bin.countP (capacity < 2 * ·) = 0 := by
        rw [List.countP_eq_zero]
        intro other hother
        have hle := le_total_of_mem hother
        simp only [decide_eq_true_eq]
        omega
      rw [List.countP_cons_of_pos (by simpa using hlarge), hothers]
    · rw [List.countP_cons_of_neg (by simpa using hlarge)]
      exact ih (by omega)

theorem countP_half_le (h : Packable capacity bins sizes) :
    sizes.countP (capacity < 2 * ·) ≤ bins := by
  obtain ⟨packed, hlength, hflatten, hfits⟩ := h
  rw [← hflatten.countP_eq]
  have hone := countP_flatten_le_length fun bin hbin => countP_half_le_one (hfits bin hbin)
  exact Nat.le_trans hone hlength

theorem lt_of_mul_succ_le_total {n : Nat} (h : Packable capacity bins sizes) (hne : sizes ≠ [])
    (htotal : n * (capacity + 1) ≤ total sizes) : n < bins := by
  by_contra hle
  have hroom := h.total_le
  have hmul := Nat.mul_le_mul_right capacity (Nat.not_lt.mp hle)
  rw [Nat.mul_succ] at htotal
  obtain ⟨size, sizes, rfl⟩ := List.exists_cons_of_ne_nil hne
  obtain rfl : bins = 0 := by omega
  exact not_zero_cons h

end Packable

namespace FirstFit

theorem length_mul_succ_le_load {capacity : Nat} {bins : List (List Entry)} {entries : List Entry}
    (hlength : bins.length ≤ entries.length)
    (h : ∀ bin ∈ bins, ∀ entry ∈ entries, capacity < load bin + entry.size) :
    bins.length * (capacity + 1) ≤ load (bins.flatten ++ entries) := by
  induction bins generalizing entries with
  | nil => simp
  | cons bin bins ih =>
    cases entries with
    | nil => exact absurd hlength (by simp)
    | cons entry entries =>
      have hpair := h bin (by simp) entry (by simp)
      have hrest := ih (Nat.le_of_succ_le_succ hlength) fun b hb e he =>
        h b (by simp [hb]) e (by simp [he])
      simp only [List.length_cons, List.flatten_cons, load_append, load_cons, Nat.succ_mul]
        at hrest ⊢
      omega

theorem Leads.le_half {capacity : Nat} {bin : List Entry} {bins : List (List Entry)}
    (h : Leads (bin :: bins)) (hbin : ∀ e ∈ bin, 2 * e.size ≤ capacity) :
    ∀ b ∈ bin :: bins, ∀ e ∈ b, 2 * e.size ≤ capacity := by
  obtain ⟨hfirst, -⟩ := List.pairwise_cons.mp h
  refine List.forall_mem_cons.mpr ⟨hbin, ?_⟩
  intro later hlater e he
  obtain ⟨x, hx, hle⟩ := hfirst later hlater e he
  have hhalf := hbin x hx
  omega

theorem two_le_length_of_full {capacity : Nat} {bin : List Entry} {entry : Entry}
    (hbin : ∀ e ∈ bin, 2 * e.size ≤ capacity) (hentry : 2 * entry.size ≤ capacity)
    (hfull : capacity < load bin + entry.size) : 2 ≤ bin.length := by
  match bin with
  | [] =>
    rw [load_nil] at hfull
    omega
  | [e] =>
    have he := hbin e (by simp)
    rw [load_cons, load_nil] at hfull
    omega
  | _ :: _ :: _ => simp

theorem two_mul_length_le {capacity : Nat} {bins : List (List Entry)}
    (hne : ∀ bin ∈ bins, bin ≠ []) (hrefuses : Refuses capacity bins)
    (hhalf : ∀ bin ∈ bins, ∀ e ∈ bin, 2 * e.size ≤ capacity) :
    2 * bins.length ≤ bins.flatten.length + 1 := by
  induction bins with
  | nil => exact Nat.zero_le 1
  | cons bin bins ih =>
    obtain ⟨hopened, hnonempty⟩ := List.forall_mem_cons.mp hne
    obtain ⟨hbin, hothers⟩ := List.pairwise_cons.mp hrefuses
    obtain ⟨hsmall, hrest⟩ := List.forall_mem_cons.mp hhalf
    rw [List.flatten_cons, List.length_append, List.length_cons]
    cases bins with
    | nil =>
      have hpos := List.length_pos_of_ne_nil hopened
      simp only [List.length_nil, List.flatten_nil]
      omega
    | cons next bins =>
      obtain ⟨e, he⟩ := List.exists_mem_of_ne_nil next (hnonempty next (by simp))
      have htwo := two_le_length_of_full hsmall (hrest next (by simp) e he)
        (hbin next (by simp) e he)
      have hlength := ih hnonempty hothers hrest
      omega

section Cut

variable {capacity n : Nat} {sizes : List Nat} {before after : List (List Entry)}
  {bin : List Entry}

theorem before_lt_of_large (hbins : bins sizes capacity = before ++ bin :: after)
    (hlarge : ∃ e ∈ bin, capacity < 2 * e.size) (h : Packable capacity n sizes) :
    before.length < n := by
  obtain ⟨e, he, hhalf⟩ := hlarge
  have hleads := leads_bins sizes capacity
  rw [hbins] at hleads
  obtain ⟨-, -, hcross⟩ := List.pairwise_append.mp hleads
  have hall : ∀ b ∈ before ++ [bin], ∃ x ∈ b, decide (capacity < 2 * x.size) = true := by
    refine List.forall_mem_append.mpr ⟨?_, List.forall_mem_singleton.mpr ⟨e, he, by simpa⟩⟩
    intro b hb
    obtain ⟨x, hx, hle⟩ := hcross b hb bin (by simp) e he
    exact ⟨x, hx, decide_eq_true (by omega)⟩
  have hsublist : (before ++ [bin]).flatten.Sublist (bins sizes capacity).flatten := by
    rw [hbins]
    simp
  calc before.length
      < (before ++ [bin]).length := by simp
    _ ≤ (before ++ [bin]).flatten.countP (fun e => decide (capacity < 2 * e.size)) :=
      length_le_countP_flatten hall
    _ ≤ (bins sizes capacity).flatten.countP (fun e => decide (capacity < 2 * e.size)) :=
      hsublist.countP_le
    _ = sizes.countP (capacity < 2 * ·) := by
      rw [← (map_size_flatten_bins_perm sizes capacity).countP_eq, List.countP_map]
      rfl
    _ ≤ n := h.countP_half_le

theorem before_lt_of_small (hbins : bins sizes capacity = before ++ bin :: after)
    (hsmall : ∀ e ∈ bin, 2 * e.size ≤ capacity) (hcut : before.length ≤ 2 * after.length + 1)
    (h : Packable capacity n sizes) : before.length < n := by
  have hrefuses := refuses_bins sizes capacity
  have hleads := leads_bins sizes capacity
  have hperm := map_size_flatten_bins_perm sizes capacity
  rw [hbins] at hrefuses hleads hperm
  obtain ⟨-, hrefuses, hcross⟩ := List.pairwise_append.mp hrefuses
  obtain ⟨-, hleads, -⟩ := List.pairwise_append.mp hleads
  have hne : ∀ b ∈ bin :: after, b ≠ [] :=
    fun b hb => bins_ne_nil b (by rw [hbins]; exact List.mem_append_right _ hb)
  -- Two entries for each bin from the cut on, but for the last, are one for each bin before it.
  have hcount := two_mul_length_le hne hrefuses (Leads.le_half hleads hsmall)
  have hlength : before.length ≤ (bin :: after).flatten.length := by
    rw [List.length_cons] at hcount
    omega
  have hover := length_mul_succ_le_load hlength fun b hb e he => by
    obtain ⟨later, hlater, he⟩ := List.mem_flatten.mp he
    exact hcross b hb later hlater e he
  rw [← List.flatten_append, load, total_perm hperm] at hover
  refine h.lt_of_mul_succ_le_total ?_ hover
  rintro rfl
  simp at hbins

theorem before_lt (hbins : bins sizes capacity = before ++ bin :: after)
    (hcut : before.length ≤ 2 * after.length + 1) (h : Packable capacity n sizes) :
    before.length < n := by
  by_cases hlarge : ∃ e ∈ bin, capacity < 2 * e.size
  · exact before_lt_of_large hbins hlarge h
  · refine before_lt_of_small hbins (fun e he => ?_) hcut h
    exact Nat.le_of_not_lt fun hlt => hlarge ⟨e, he, hlt⟩

end Cut

theorem two_mul_length_bins_le {capacity n : Nat} {sizes : List Nat}
    (h : Packable capacity n sizes) : 2 * (bins sizes capacity).length ≤ 3 * n := by
  generalize hlength : (bins sizes capacity).length = length
  cases length with
  | zero => omega
  | succ last =>
    -- Two thirds of the bins are before the cut or at it.
    have hcut : last - (last + 1) / 3 < (bins sizes capacity).length := by omega
    have hbins := (List.take_append_drop (last - (last + 1) / 3) (bins sizes capacity)).symm
    rw [List.drop_eq_getElem_cons hcut] at hbins
    have hlt := before_lt hbins (by rw [List.length_take, List.length_drop]; omega) h
    rw [List.length_take] at hlt
    omega

end FirstFit

theorem two_mul_binCount_le (sizes : List Nat) (capacity : Nat) (other : Packing)
    (h : other.validate sizes capacity = .ok ()) :
    (∃ packing, Solver.firstFit.solve sizes capacity = .ok packing ∧
      2 * packing.binCount ≤ 3 * other.binCount) ∧
    (capacity = slotBytes → ∀ exact : ExactSolver, exact.engine.Sound → ∃ packing,
      exact.solver.packing sizes = .ok packing ∧ 2 * packing.binCount ≤ 3 * other.binCount) := by
  have hpackable := (Packing.validate_eq_ok_iff.mp h).packable
  have hratio : 2 * (FirstFit.pack sizes capacity).binCount ≤ 3 * other.binCount := by
    rw [FirstFit.binCount_pack]
    exact FirstFit.two_mul_length_bins_le hpackable
  refine ⟨⟨_, rfl, hratio⟩, ?_⟩
  rintro rfl exact hengine
  obtain ⟨packing, hpacking, rfl | ⟨values, hvalues, rfl⟩⟩ :=
    Solver.packing_exact_cases exact sizes
  · exact ⟨_, hpacking, hratio⟩
  · have hoptimal := ExactSolver.optimal_of_run hengine hvalues
    have hcount := hoptimal.binCount_decode_le hpackable
    exact ⟨_, hpacking, by omega⟩

def thirds : Packing :=
  ⟨[[0, 3, 4], [1, 2, 5]], true, by decide, by decide, by decide⟩

/-- Three bins and two: the ratio cannot be lowered. -/
theorem two_mul_binCount_le_thirds :
    thirds.validate [12, 11, 11, 10, 10, 10] slotBytes = .ok () ∧
    (∃ packing, Solver.firstFit.solve [12, 11, 11, 10, 10, 10] slotBytes = .ok packing ∧
      2 * packing.binCount = 3 * thirds.binCount) ∧
    ∃ packing,
      ({ maximumItems := 3 } : ExactSolver).solver.packing [12, 11, 11, 10, 10, 10] = .ok packing ∧
        2 * packing.binCount ≤ 3 * thirds.binCount := by
  have hvalid : thirds.validate [12, 11, 11, 10, 10, 10] slotBytes = .ok () := by decide
  have hthree : 3 ≤ (FirstFit.pack [12, 11, 11, 10, 10, 10] slotBytes).binCount := by
    rw [FirstFit.binCount_pack, FirstFit.bins, FirstFit.decreasing_of_pairwise (by decide)]
    decide
  obtain ⟨⟨packing, hsolve, hratio⟩, hexact⟩ := two_mul_binCount_le _ slotBytes thirds hvalid
  obtain rfl := Except.ok.inj hsolve
  have htwo : thirds.binCount = 2 := rfl
  exact ⟨hvalid, ⟨_, rfl, by omega⟩, hexact rfl _ Search.engine_lawful.toSound⟩

end StorageSlots
