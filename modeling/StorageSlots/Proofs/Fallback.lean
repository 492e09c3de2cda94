import StorageSlots.Proofs.Advice

/-!
What a limit on the search costs.

A search that is not needed, refused or abandoned, or that fails, leaves the outcome of first-fit
decreasing, and one that completes spares at least as much. Neither spares more than the best order
of the items does.
-/

namespace StorageSlots

theorem exists_isLeast_orderCounts (items : List Item) :
    ∃ fewest, IsLeast (Layout.orderCounts items) fewest := by
  obtain ⟨packing, hoptimal⟩ := Packing.exists_optimal (elementarySizes_pos items)
    (elementarySizes_le items)
  exact ⟨_, hoptimal.isLeast⟩

namespace Solver

variable {items : List Item} {solver : Solver}

theorem compare_of_solve
    (h : solver.solve (elementarySizes items) slotBytes =
      .ok (FirstFit.pack (elementarySizes items) slotBytes)) :
    compare items solver = compare items .firstFit := by
  apply compare_congr
  rw [packing, h]
  rfl

theorem compare_of_fallsBack {fault : SolverFault}
    (h : solver.solve (elementarySizes items) slotBytes = .error fault)
    (hfault : fallsBack fault = true) : compare items solver = compare items .firstFit := by
  apply compare_congr
  rw [packing, h]
  exact if_pos hfault

end Solver

theorem sparedSlots_exact_between (items : List Item) (exact : ExactSolver)
    (hengine : exact.engine.Sound) :
    (∃ fewest, IsLeast (Layout.orderCounts items) fewest ∧
      (compare items .firstFit).sparedSlots ≤ (compare items exact.solver).sparedSlots ∧
      (compare items exact.solver).sparedSlots + fewest ≤ (Layout.ofOrder items).slotCount) ∧
    ((FirstFit.pack (elementarySizes items) slotBytes).certified = true ∨
        (∃ count limit, exact.solve (elementarySizes items) slotBytes =
          .error (.tooManyItems count limit)) ∨
        (∃ reason, exact.solve (elementarySizes items) slotBytes = .error (.notOptimal reason)) →
      compare items exact.solver = compare items .firstFit) := by
  constructor
  · obtain ⟨fewest, hfewest⟩ := exists_isLeast_orderCounts items
    refine ⟨fewest, hfewest, ?_, sparedSlots_add_le exact.solver hfewest⟩
    obtain ⟨packing, hpacking, rfl | ⟨values, hvalues, rfl⟩⟩ :=
      Solver.packing_exact_cases exact (elementarySizes items)
    · have hsame : compare items exact.solver = compare items .firstFit := compare_congr hpacking
      rw [hsame]
    · have hoptimal := ExactSolver.optimal_of_run hengine hvalues
      exact sparedSlots_firstFit_le hpacking (hoptimal.decode_optimal (elementarySizes_pos items))
  · rintro (hcertified | ⟨count, limit, hsolve⟩ | ⟨reason, hsolve⟩)
    · exact Solver.compare_of_solve (ExactSolver.solve_of_certified hcertified)
    · exact Solver.compare_of_fallsBack hsolve rfl
    · exact Solver.compare_of_fallsBack hsolve rfl

/-- A solver whose watchdog stops the search when it is asked for the second time. -/
def overdue : ExactSolver :=
  { ExactSolver.patient with watchdog := (({} : Budget).withMaxNodes 100).watchdog }

theorem path_scattered (exact : ExactSolver) :
    exact.path (elementarySizes scattered) slotBytes =
      if exact.maximumItems < 6 then .refusal else .search := by
  have hcount : (elementarySizes scattered).length = 6 := by decide
  rw [ExactSolver.path, certified_pack_scattered, hcount, if_neg Bool.false_ne_true]

theorem solve_hurried_scattered :
    hurried.solve (elementarySizes scattered) slotBytes = .error (.tooManyItems 6 3) := by
  rw [ExactSolver.solve, path_scattered]
  rfl

theorem solve_overdue_scattered : overdue.solve (elementarySizes scattered) slotBytes =
    .error (.notOptimal "search abandoned after 128 nodes in 3ms") := by
  rw [ExactSolver.solve, path_scattered]
  rfl

theorem sparedSlots_exact_between_scattered :
    (∀ exact ∈ [ExactSolver.patient, hurried, overdue], exact.engine.Sound ∧
      ∃ fewest, IsLeast (Layout.orderCounts scattered) fewest ∧
        (compare scattered .firstFit).sparedSlots ≤ (compare scattered exact.solver).sparedSlots ∧
        (compare scattered exact.solver).sparedSlots + fewest ≤
          (Layout.ofOrder scattered).slotCount) ∧
    (hurried.solve (elementarySizes scattered) slotBytes = .error (.tooManyItems 6 3) ∧
      compare scattered hurried.solver = compare scattered .firstFit) ∧
    overdue.solve (elementarySizes scattered) slotBytes =
        .error (.notOptimal "search abandoned after 128 nodes in 3ms") ∧
      compare scattered overdue.solver = compare scattered .firstFit := by
  have hpatient := ExactSolver.patient_lawful.toSound
  have hhurried := Search.engine_lawful.toSound
  obtain ⟨hbetween, -⟩ := sparedSlots_exact_between scattered .patient hpatient
  obtain ⟨hrefused, hafterRefusal⟩ := sparedSlots_exact_between scattered hurried hhurried
  obtain ⟨hstopped, hafterStop⟩ := sparedSlots_exact_between scattered overdue hpatient
  refine ⟨?_,
    ⟨solve_hurried_scattered, hafterRefusal (.inr (.inl ⟨6, 3, solve_hurried_scattered⟩))⟩,
    solve_overdue_scattered, hafterStop (.inr (.inr ⟨_, solve_overdue_scattered⟩))⟩
  simp only [List.forall_mem_cons, List.not_mem_nil, false_imp_iff, implies_true, and_true]
  exact ⟨⟨hpatient, hbetween⟩, ⟨hhurried, hrefused⟩, hpatient, hstopped⟩

end StorageSlots
