import StorageSlots.Proofs.Exactness

/-!
What a certified packing is worth.

First-fit decreasing opens a bin even for an item that exceeds the capacity, and certifies a packing
by its number of bins alone. A search never overfills a bin, but items without weight do not force
their bin to be used. Apart from these two cases a packing that is announced is valid.
-/

namespace StorageSlots

variable {packing : Packing} {sizes : List Nat} {capacity : Nat}

namespace FirstFit

theorem pack_valid_iff :
    (pack sizes capacity).Valid sizes capacity ↔ ∀ size ∈ sizes, size ≤ capacity :=
  ⟨fun h => h.packable.size_le, pack_valid⟩

theorem certified_of_weightless (hne : sizes ≠ []) (h : total sizes = 0) :
    (pack sizes capacity).certified = false := by
  have hbins : bins sizes capacity ≠ [] := by
    intro hnil
    have hperm := map_size_flatten_bins_perm sizes capacity
    rw [hnil] at hperm
    exact hne (List.nil_perm.mp hperm)
  change ((bins sizes capacity).length == lowerBound sizes capacity) = false
  rw [lowerBound_of_weightless h]
  simpa using hbins

end FirstFit

namespace Assignment

variable {values : Assignment}

theorem Optimal.usedBins_of_weightless (h : values.Optimal sizes capacity)
    (htotal : total sizes = 0) : values.usedBins sizes.length = [] := by
  have hfewest := h.fewest apart (feasible_apart htotal)
  rw [usedBins_apart, List.length_nil, Nat.le_zero] at hfewest
  exact List.length_eq_zero_iff.mp hfewest

theorem Optimal.decode_of_weightless (h : values.Optimal sizes capacity)
    (htotal : total sizes = 0) : values.decode sizes.length = .ofBins [] true := by
  rw [decode, bins, h.usedBins_of_weightless htotal, List.map_nil]

theorem Optimal.not_valid_of_weightless (h : values.Optimal sizes capacity) (hne : sizes ≠ [])
    (htotal : total sizes = 0) : ¬ (values.decode sizes.length).Valid sizes capacity := by
  rw [h.decode_valid_iff]
  intro hcovers
  obtain ⟨bin, hbin, hused, -⟩ :=
    hcovers 0 (List.length_pos_iff.mpr hne) (sizeOf_eq_zero htotal 0)
  have hmem := mem_usedBins.mpr ⟨hbin, hused⟩
  rw [h.usedBins_of_weightless htotal] at hmem
  exact List.not_mem_nil hmem

end Assignment

namespace ExactSolver

variable {exact : ExactSolver}

theorem Answers.certified (h : exact.Answers sizes capacity (.ok packing)) :
    packing.certified = true := by
  cases h with
  | kept hcertified => exact hcertified
  | solved _ _ _ _ => rfl

theorem Answers.valid_iff (hengine : exact.engine.Sound)
    (h : exact.Answers sizes capacity (.ok packing)) :
    packing.Valid sizes capacity ↔ (∀ size ∈ sizes, size ≤ capacity) ∧
      ((FirstFit.pack sizes capacity).certified = true ∨
        ∀ values, (exact.run sizes capacity).values? = some values → ∀ item < sizes.length,
          Packing.sizeOf sizes item = 0 → values.Covers sizes.length item) := by
  cases h with
  | kept hcertified =>
    rw [FirstFit.pack_valid_iff]
    simp [hcertified]
  | solved hcertified _ _ hvalues =>
    have hoptimal := optimal_of_run hengine hvalues
    rw [hoptimal.decode_valid_iff]
    simp only [hcertified, Bool.false_eq_true, false_or, hvalues, Option.some.injEq, forall_eq']
    exact ⟨fun hcovers => ⟨hoptimal.size_le, hcovers⟩, And.right⟩

theorem Answers.not_valid (hengine : exact.engine.Sound)
    (h : exact.Answers sizes capacity (.ok packing)) (hne : sizes ≠ []) (htotal : total sizes = 0) :
    ¬ packing.Valid sizes capacity := by
  cases h with
  | kept hcertified =>
    rw [FirstFit.certified_of_weightless hne htotal] at hcertified
    cases hcertified
  | solved _ _ _ hvalues =>
    exact (optimal_of_run hengine hvalues).not_valid_of_weightless hne htotal

end ExactSolver

namespace Solver

theorem certified_valid_iff (sizes : List Nat) (capacity : Nat) :
    (∀ packing, firstFit.solve sizes capacity = .ok packing →
      (packing.validate sizes capacity = .ok () ↔ ∀ size ∈ sizes, size ≤ capacity)) ∧
    ∀ (exact : ExactSolver) packing, exact.engine.Sound →
      exact.solve sizes capacity = .ok packing →
        packing.certified = true ∧
        (packing.validate sizes capacity = .ok () ↔ (∀ size ∈ sizes, size ≤ capacity) ∧
          ((FirstFit.pack sizes capacity).certified = true ∨
            ∀ values, (exact.run sizes capacity).values? = some values → ∀ item < sizes.length,
              Packing.sizeOf sizes item = 0 → values.Covers sizes.length item)) ∧
        (sizes ≠ [] → total sizes = 0 → packing.validate sizes capacity ≠ .ok ()) := by
  simp only [Packing.validate_eq_ok_iff, ne_eq]
  constructor
  · rintro packing hsolve
    cases hsolve
    exact FirstFit.pack_valid_iff
  · intro exact packing hengine hsolve
    have hanswer := exact.answers_solve sizes capacity
    rw [hsolve] at hanswer
    exact ⟨hanswer.certified, hanswer.valid_iff hengine, hanswer.not_valid hengine⟩

def oversized : Packing :=
  ⟨[[0], [1]], true, by decide, by decide, by decide⟩

def nothing : Packing :=
  ⟨[], true, by decide, by decide, by decide⟩

theorem pack_oversized : FirstFit.pack [33, 31] slotBytes = oversized := by
  rw [FirstFit.pack, FirstFit.bins, FirstFit.decreasing_of_pairwise (by decide)]
  exact Packing.ofBins_bins oversized

theorem solve_weightless {exact : ExactSolver} (hengine : exact.engine.Lawful)
    (hcompletes : exact.Completes [0, 0] slotBytes) :
    exact.solve [0, 0] slotBytes = .ok nothing := by
  obtain ⟨packing, hsolve⟩ := ExactSolver.exists_solve hengine hcompletes (by decide)
  have hanswer := exact.answers_solve [0, 0] slotBytes
  rw [hsolve] at hanswer ⊢
  cases hanswer with
  | kept hcertified =>
    rw [FirstFit.certified_of_weightless (by decide) (by decide)] at hcertified
    cases hcertified
  | solved _ _ _ hvalues =>
    have hoptimal := ExactSolver.optimal_of_run hengine.toSound hvalues
    exact congrArg _ ((hoptimal.decode_of_weightless rfl).trans (Packing.ofBins_bins nothing))

theorem certified_valid_iff_thirds :
    ExactSolver.patient.engine.Sound ∧
    (∃ packing, ExactSolver.patient.solve [12, 11, 11, 10, 10, 10] slotBytes = .ok packing ∧
      packing.certified = true ∧
      packing.validate [12, 11, 11, 10, 10, 10] slotBytes = .ok ()) ∧
    ExactSolver.patient.solve [0, 0] slotBytes = .ok nothing ∧
    nothing.validate [0, 0] slotBytes ≠ .ok () := by
  have hengine := ExactSolver.patient_lawful
  obtain ⟨packing, hsolve⟩ : ∃ packing,
      ExactSolver.patient.solve [12, 11, 11, 10, 10, 10] slotBytes = .ok packing :=
    ExactSolver.exists_solve hengine (ExactSolver.completes_patient (by decide)) (by decide)
  have hweightless := solve_weightless hengine (ExactSolver.completes_patient (by decide))
  obtain ⟨-, hthirds⟩ := certified_valid_iff [12, 11, 11, 10, 10, 10] slotBytes
  obtain ⟨-, hzero⟩ := certified_valid_iff [0, 0] slotBytes
  obtain ⟨hcertified, hvalid, -⟩ := hthirds .patient packing hengine.toSound hsolve
  obtain ⟨-, -, hinvalid⟩ := hzero .patient nothing hengine.toSound hweightless
  have hpos : ∀ item < 6, Packing.sizeOf [12, 11, 11, 10, 10, 10] item ≠ 0 := by decide
  refine ⟨hengine.toSound, ⟨packing, hsolve, hcertified, hvalid.mpr ⟨by decide, .inr ?_⟩⟩,
    hweightless, hinvalid (by decide) (by decide)⟩
  intro values _ item hitem hsize
  exact absurd hsize (hpos item hitem)

theorem certified_overfull :
    firstFit.solve [33, 31] slotBytes = .ok oversized ∧
    (∀ exact : ExactSolver, exact.solve [33, 31] slotBytes = .ok oversized) ∧
    oversized.certified = true ∧
    oversized.validate [33, 31] slotBytes =
      .error (.invalidPacking "bin 0 holds 33 bytes but only fits 32") ∧
    (∀ exact : ExactSolver, exact.engine.Lawful → exact.Completes [0, 0] slotBytes →
      exact.solve [0, 0] slotBytes = .ok nothing) ∧
    ExactSolver.patient.solve [0, 0] slotBytes = .ok nothing ∧ nothing.certified = true ∧
    nothing.validate [0, 0] slotBytes = .error (.invalidPacking "item 0 is placed 0 times") := by
  refine ⟨congrArg _ pack_oversized, fun exact => ?_, rfl, by decide,
    fun _ => solve_weightless, ?_, rfl, by decide⟩
  · have hcertified : (FirstFit.pack [33, 31] slotBytes).certified = true :=
      congrArg Packing.certified pack_oversized
    rw [ExactSolver.solve_of_certified hcertified, pack_oversized]
  · exact solve_weightless ExactSolver.patient_lawful (ExactSolver.completes_patient (by decide))

end Solver

end StorageSlots
