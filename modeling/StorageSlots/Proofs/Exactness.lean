import StorageSlots.Outcome
import StorageSlots.Packing.EngineLaws

/-!
What the exact solver answers.

A certified packing by first-fit decreasing is kept. Otherwise too many items are refused, and a
search ends in a fault or in optimal values, whichever the engine comes to. Every packing that comes
out is certified, valid, and has no more bins than any valid packing.
-/

namespace StorageSlots

theorem Packing.Optimal.binCount_le {packing other : Packing} {sizes : List Nat} {capacity : Nat}
    (h : packing.Optimal sizes capacity) (hother : other.validate sizes capacity = .ok ()) :
    packing.binCount ≤ other.binCount :=
  h.fewest _ (validate_eq_ok_iff.mp hother).packable

namespace ExactSolver

variable {exact : ExactSolver} {sizes other : List Nat} {capacity : Nat}

/-- The progress that makes the watchdog stop a search. -/
def stop? (exact : ExactSolver) (sizes : List Nat) (capacity : Nat) : Option Progress :=
  (exact.run sizes capacity).stop? exact.watchdog.shouldStop

inductive Answers (exact : ExactSolver) (sizes : List Nat) (capacity : Nat) :
    Except SolverFault Packing → Prop
  | kept (hcertified : (FirstFit.pack sizes capacity).certified = true) :
      Answers exact sizes capacity (.ok (FirstFit.pack sizes capacity))
  | refused (hcertified : (FirstFit.pack sizes capacity).certified = false)
      (hcount : exact.maximumItems < sizes.length) :
      Answers exact sizes capacity (.error (.tooManyItems sizes.length exact.maximumItems))
  | abandoned (hcertified : (FirstFit.pack sizes capacity).certified = false)
      (hcount : sizes.length ≤ exact.maximumItems) {progress : Progress}
      (hstop : exact.stop? sizes capacity = some progress) :
      Answers exact sizes capacity (.error (.notOptimal progress.abandonment))
  | failed (hcertified : (FirstFit.pack sizes capacity).certified = false)
      (hcount : sizes.length ≤ exact.maximumItems) (hrun : exact.stop? sizes capacity = none)
      (hvalues : (exact.run sizes capacity).values? = none) (reason : String) :
      Answers exact sizes capacity (.error (.notOptimal reason))
  | solved (hcertified : (FirstFit.pack sizes capacity).certified = false)
      (hcount : sizes.length ≤ exact.maximumItems) (hrun : exact.stop? sizes capacity = none)
      {values : Assignment} (hvalues : (exact.run sizes capacity).values? = some values) :
      Answers exact sizes capacity (.ok (values.decode sizes.length))

theorem answers_solve (exact : ExactSolver) (sizes : List Nat) (capacity : Nat) :
    exact.Answers sizes capacity (exact.solve sizes capacity) := by
  unfold solve path
  split
  · next hcertified => exact .kept hcertified
  · next hcertified =>
    rw [Bool.not_eq_true] at hcertified
    split
    · next hcount => exact .refused hcertified hcount
    · next hcount =>
      rw [Nat.not_lt] at hcount
      have hends := (exact.run sizes capacity).ends_follow exact.watchdog.shouldStop
      rw [answerOn, solution]
      generalize (exact.run sizes capacity).follow exact.watchdog.shouldStop = found at hends
      cases hends with
      | abandoned hstop => exact .abandoned hcertified hcount hstop
      | failed hrun hvalues reason => exact .failed hcertified hcount hrun hvalues reason
      | solved hrun hvalues => exact .solved hcertified hcount hrun hvalues

theorem Answers.fallsBack {fault : SolverFault} (h : exact.Answers sizes capacity (.error fault)) :
    Solver.fallsBack fault = true := by
  cases h with
  | refused _ _ => rfl
  | abandoned _ _ _ => rfl
  | failed _ _ _ _ _ => rfl

theorem solve_of_certified (h : (FirstFit.pack sizes capacity).certified = true) :
    exact.solve sizes capacity = .ok (FirstFit.pack sizes capacity) := by
  rw [solve, path, if_pos h]
  rfl

theorem searches_iff : exact.searches sizes capacity = true ↔
    exact.path sizes capacity = .search ∧
      ∃ packing, exact.solve sizes capacity = .ok packing := by
  rw [searches, Bool.and_eq_true, decide_eq_true_eq]
  refine and_congr_right fun hpath => ?_
  rw [solve, hpath, answerOn]
  cases exact.solution sizes capacity with
  | error fault => simp [Except.isOk, Except.toBool, Except.map]
  | ok found => simp [Except.isOk, Except.toBool, Except.map]

theorem optimal_of_run (hengine : exact.engine.Sound) {values : Assignment}
    (h : (exact.run sizes capacity).values? = some values) : values.Optimal sizes capacity :=
  Formulation.optimal_iff.mp (hengine.optimal h)

theorem exists_run (hengine : exact.engine.Lawful) (h : ∀ size ∈ sizes, size ≤ capacity) :
    ∃ values, (exact.run sizes capacity).values? = some values :=
  hengine.finds (Formulation.feasible_iff.mpr (Assignment.feasible_ofPacking_pack_iff.mpr h))

theorem Answers.optimal (hengine : exact.engine.Sound) {packing : Packing}
    (h : exact.Answers sizes capacity (.ok packing)) (hpos : ∀ size ∈ sizes, 0 < size)
    (hle : ∀ size ∈ sizes, size ≤ capacity) :
    packing.certified = true ∧ packing.Optimal sizes capacity := by
  cases h with
  | kept hcertified => exact ⟨hcertified, FirstFit.pack_optimal hle hcertified⟩
  | solved _ _ _ hvalues => exact ⟨rfl, (optimal_of_run hengine hvalues).decode_optimal hpos⟩

/-- No search is needed, or one is attempted and the watchdog does not stop it. -/
def Completes (exact : ExactSolver) (sizes : List Nat) (capacity : Nat) : Prop :=
  (FirstFit.pack sizes capacity).certified = true ∨
    sizes.length ≤ exact.maximumItems ∧ exact.stop? sizes capacity = none

theorem exists_solve (hengine : exact.engine.Lawful) (hcompletes : exact.Completes sizes capacity)
    (h : ∀ size ∈ sizes, size ≤ capacity) : ∃ packing, exact.solve sizes capacity = .ok packing := by
  have hanswer := exact.answers_solve sizes capacity
  unfold Completes at hcompletes
  generalize exact.solve sizes capacity = answer at hanswer
  cases hanswer with
  | kept _ => exact ⟨_, rfl⟩
  | refused hcertified hcount =>
    rw [hcertified] at hcompletes
    have hfew := (hcompletes.resolve_left Bool.false_ne_true).1
    omega
  | abandoned hcertified hcount hstop =>
    rw [hcertified, hstop] at hcompletes
    simp at hcompletes
  | failed _ _ _ hvalues _ =>
    obtain ⟨values, hfound⟩ := exists_run hengine h
    rw [hvalues] at hfound
    cases hfound
  | solved _ _ _ _ => exact ⟨_, rfl⟩

theorem solve_refused (h : ¬ exact.Completes sizes capacity) :
    ∃ fault, exact.solve sizes capacity = .error fault ∧ Solver.fallsBack fault = true := by
  have hanswer := exact.answers_solve sizes capacity
  generalize exact.solve sizes capacity = answer at hanswer
  cases answer with
  | error fault => exact ⟨fault, rfl, hanswer.fallsBack⟩
  | ok packing =>
    cases hanswer with
    | kept hcertified => exact absurd (.inl hcertified) h
    | solved _ hcount hrun _ => exact absurd (.inr ⟨hcount, hrun⟩) h

theorem solve_exact (exact : ExactSolver) (hengine : exact.engine.Sound) (sizes : List Nat)
    (capacity : Nat) (h : ∀ size ∈ sizes, 1 ≤ size ∧ size ≤ capacity) :
    (if (FirstFit.pack sizes capacity).certified then
      exact.solve sizes capacity = .ok (FirstFit.pack sizes capacity)
    else if exact.maximumItems < sizes.length then
      exact.solve sizes capacity = .error (.tooManyItems sizes.length exact.maximumItems)
    else
      (∃ reason, exact.solve sizes capacity = .error (.notOptimal reason)) ∨
      ∃ packing, exact.solve sizes capacity = .ok packing) ∧
    (∀ packing, exact.solve sizes capacity = .ok packing →
      packing.certified = true ∧ packing.validate sizes capacity = .ok () ∧
      ∀ other : Packing, other.validate sizes capacity = .ok () →
        packing.binCount ≤ other.binCount) ∧
    (exact.engine.Lawful → exact.Completes sizes capacity →
      ∃ packing, exact.solve sizes capacity = .ok packing) := by
  have hpos : ∀ size ∈ sizes, 0 < size := fun size hsize => (h size hsize).1
  have hle : ∀ size ∈ sizes, size ≤ capacity := fun size hsize => (h size hsize).2
  have hanswer := exact.answers_solve sizes capacity
  refine ⟨?_, ?_, fun hlawful hcompletes => exists_solve hlawful hcompletes hle⟩
  · generalize exact.solve sizes capacity = answer at hanswer
    cases hanswer with
    | kept hcertified => rw [if_pos hcertified]
    | refused hcertified hcount => simp [hcertified, hcount]
    | abandoned hcertified hcount _ => simp [hcertified, Nat.not_lt.mpr hcount]
    | failed hcertified hcount _ _ _ => simp [hcertified, Nat.not_lt.mpr hcount]
    | solved hcertified hcount _ _ => simp [hcertified, Nat.not_lt.mpr hcount]
  · intro packing hsolve
    rw [hsolve] at hanswer
    obtain ⟨hcertified, hoptimal⟩ := hanswer.optimal hengine hpos hle
    exact ⟨hcertified, Packing.validate_eq_ok_iff.mpr hoptimal.valid,
      fun _ hother => hoptimal.binCount_le hother⟩

theorem stop?_of_batched {batches : List Progress} (h : exact.engine = Search.batched batches) :
    exact.stop? sizes capacity = batches.find? exact.watchdog.shouldStop := by
  rw [stop?, run, h, Search.stop?_batched]

/-- A solver whose watchdog is asked twice and lets the search go on. -/
def patient : ExactSolver :=
  { engine := Search.batched [⟨64, .ofMilliseconds 1⟩, ⟨128, .ofMilliseconds 3⟩] }

theorem patient_lawful : patient.engine.Lawful :=
  Search.batched_lawful _

theorem completes_patient (hcount : sizes.length ≤ 48) : patient.Completes sizes capacity := by
  refine .inr ⟨hcount, ?_⟩
  rw [stop?_of_batched rfl]
  decide

theorem solve_exact_thirds : patient.engine.Lawful ∧
    patient.Completes [12, 11, 11, 10, 10, 10] slotBytes ∧
    (FirstFit.pack [12, 11, 11, 10, 10, 10] slotBytes).certified = false ∧
    ∃ packing, patient.solve [12, 11, 11, 10, 10, 10] slotBytes = .ok packing ∧
      packing.certified = true ∧
      packing.validate [12, 11, 11, 10, 10, 10] slotBytes = .ok () ∧
      ∀ other : Packing, other.validate [12, 11, 11, 10, 10, 10] slotBytes = .ok () →
        packing.binCount ≤ other.binCount := by
  have hcompletes : patient.Completes [12, 11, 11, 10, 10, 10] slotBytes :=
    completes_patient (by decide)
  have hcertified : (FirstFit.pack [12, 11, 11, 10, 10, 10] slotBytes).certified = false := by
    rw [FirstFit.pack, FirstFit.bins, FirstFit.decreasing_of_pairwise (by decide)]
    decide
  obtain ⟨-, hpacking, hanswer⟩ :=
    solve_exact patient patient_lawful.toSound [12, 11, 11, 10, 10, 10] slotBytes (by decide)
  obtain ⟨packing, hsolve⟩ := hanswer patient_lawful hcompletes
  exact ⟨patient_lawful, hcompletes, hcertified, packing, hsolve, hpacking packing hsolve⟩

/-- Whether the watchdog stops a search that is needed does not depend on the order of the sizes. -/
def Steady (exact : ExactSolver) : Prop :=
  ∀ {sizes other capacity}, sizes.Perm other → exact.path sizes capacity = .search →
    (exact.stop? sizes capacity = none ↔ exact.stop? other capacity = none)

theorem steady_of_batched {batches : List Progress} (h : exact.engine = Search.batched batches) :
    exact.Steady := by
  intro sizes other capacity _ _
  rw [stop?_of_batched h, stop?_of_batched h]

theorem Steady.completes_iff (hsteady : exact.Steady) (h : sizes.Perm other) :
    exact.Completes sizes capacity ↔ exact.Completes other capacity := by
  have hsame : exact.path sizes capacity = .search →
      (exact.stop? sizes capacity = none ↔ exact.stop? other capacity = none) := hsteady h
  rw [Completes, Completes, ← FirstFit.certified_pack_eq h, ← h.length_eq]
  by_cases hcertified : (FirstFit.pack sizes capacity).certified = true
  · simp [hcertified]
  · by_cases hcount : sizes.length ≤ exact.maximumItems
    · rw [path, if_neg hcertified, if_neg (Nat.not_lt.mpr hcount)] at hsame
      rw [hsame rfl]
    · simp [hcount]

end ExactSolver

namespace Solver

variable {solver : Solver} {sizes other : List Nat} {packing : Packing}

/-- First-fit decreasing, and the exact solver with any settings and any sound engine. -/
inductive Provided : Solver → Prop
  | firstFit : Provided .firstFit
  | exact (exact : ExactSolver) (hengine : exact.engine.Sound) : Provided exact.solver

/-- Those whose engine is lawful as well, and that abandon a search on every order of the sizes or on
none. -/
inductive Steady : Solver → Prop
  | firstFit : Steady .firstFit
  | exact (exact : ExactSolver) (hengine : exact.engine.Lawful) (hsteady : exact.Steady) :
      Steady exact.solver

theorem Steady.provided (hs : solver.Steady) : solver.Provided := by
  cases hs with
  | firstFit => exact .firstFit
  | exact exact hengine _ => exact .exact exact hengine.toSound

theorem packing_exact_cases (exact : ExactSolver) (sizes : List Nat) :
    ∃ packing, exact.solver.packing sizes = .ok packing ∧
      (packing = FirstFit.pack sizes slotBytes ∨
        ∃ values, (exact.run sizes slotBytes).values? = some values ∧
          packing = values.decode sizes.length) := by
  have hanswer := exact.answers_solve sizes slotBytes
  rw [Solver.packing, show exact.solver.solve = exact.solve from rfl]
  generalize exact.solve sizes slotBytes = answer at hanswer
  cases hanswer with
  | kept _ => exact ⟨_, rfl, .inl rfl⟩
  | refused _ _ => exact ⟨_, rfl, .inl rfl⟩
  | abandoned _ _ _ => exact ⟨_, rfl, .inl rfl⟩
  | failed _ _ _ _ _ => exact ⟨_, rfl, .inl rfl⟩
  | solved _ _ _ hvalues => exact ⟨_, rfl, .inr ⟨_, hvalues, rfl⟩⟩

theorem packing_exact_of_completes {exact : ExactSolver} (hengine : exact.engine.Lawful)
    (hcompletes : exact.Completes sizes slotBytes) (hpos : ∀ size ∈ sizes, 0 < size)
    (h : ∀ size ∈ sizes, size ≤ slotBytes) :
    ∃ packing, exact.solver.packing sizes = .ok packing ∧ packing.Optimal sizes slotBytes := by
  obtain ⟨packing, hsolve⟩ := ExactSolver.exists_solve hengine hcompletes h
  have hanswer := exact.answers_solve sizes slotBytes
  rw [hsolve] at hanswer
  refine ⟨packing, ?_, (hanswer.optimal hengine.toSound hpos h).2⟩
  change exact.solver.solve sizes slotBytes = .ok packing at hsolve
  rw [Solver.packing, hsolve]

theorem packing_exact_of_not_completes {exact : ExactSolver}
    (hcompletes : ¬ exact.Completes sizes slotBytes) :
    exact.solver.packing sizes = .ok (FirstFit.pack sizes slotBytes) := by
  obtain ⟨fault, hsolve, hfault⟩ := ExactSolver.solve_refused hcompletes
  change exact.solver.solve sizes slotBytes = .error fault at hsolve
  rw [Solver.packing, hsolve]
  exact if_pos hfault

theorem Provided.eq_pack_or_optimal (hs : solver.Provided) (hpos : ∀ size ∈ sizes, 0 < size)
    (hpacking : solver.packing sizes = .ok packing) :
    packing = FirstFit.pack sizes slotBytes ∨ packing.Optimal sizes slotBytes := by
  cases hs with
  | firstFit =>
    cases hpacking
    exact .inl rfl
  | exact exact hengine =>
    obtain ⟨found, hfound, hcases⟩ := packing_exact_cases exact sizes
    rw [hfound] at hpacking
    cases hpacking
    refine hcases.imp_right ?_
    rintro ⟨values, hvalues, rfl⟩
    exact (ExactSolver.optimal_of_run hengine hvalues).decode_optimal hpos

theorem Provided.packing_valid (hs : solver.Provided) (hpos : ∀ size ∈ sizes, 0 < size)
    (h : ∀ size ∈ sizes, size ≤ slotBytes) (hpacking : solver.packing sizes = .ok packing) :
    packing.Valid sizes slotBytes := by
  rcases hs.eq_pack_or_optimal hpos hpacking with rfl | hoptimal
  · exact FirstFit.pack_valid h
  · exact hoptimal.valid

theorem Steady.binCount_perm (hs : solver.Steady) (hperm : sizes.Perm other)
    (hpos : ∀ size ∈ sizes, 0 < size) (h : ∀ size ∈ sizes, size ≤ slotBytes) :
    ∃ p q, solver.packing sizes = .ok p ∧ solver.packing other = .ok q ∧
      p.binCount = q.binCount := by
  have heuristic := FirstFit.binCount_pack_eq hperm slotBytes
  cases hs with
  | firstFit => exact ⟨_, _, rfl, rfl, heuristic⟩
  | exact exact hengine hsteady =>
    by_cases hcompletes : exact.Completes sizes slotBytes
    · obtain ⟨p, hp, hpo⟩ := packing_exact_of_completes hengine hcompletes hpos h
      obtain ⟨q, hq, hqo⟩ := packing_exact_of_completes hengine
        ((hsteady.completes_iff hperm).mp hcompletes)
        (fun size hsize => hpos size (hperm.mem_iff.mpr hsize))
        (fun size hsize => h size (hperm.mem_iff.mpr hsize))
      exact ⟨p, q, hp, hq, hpo.binCount_eq hqo hperm⟩
    · have hother := mt (hsteady.completes_iff hperm).mpr hcompletes
      exact ⟨_, _, packing_exact_of_not_completes hcompletes,
        packing_exact_of_not_completes hother, heuristic⟩

end Solver

end StorageSlots
