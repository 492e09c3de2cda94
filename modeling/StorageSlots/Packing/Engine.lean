import StorageSlots.Packing.Program
import StorageSlots.Packing.Search
import StorageSlots.Watchdog

/-!
Engines that solve the 0/1 program of an exact search.

An engine works in batches of nodes. After each batch it has either proved its values optimal, or
failed, or tells its progress and waits to be resumed. `Run.follow` resumes it until it is done or
has to stop. `Engine.Sound` and `Engine.Lawful` are what is asked of an engine, and `Search.engine` is
one that leaves the work to the exhaustive search.
-/

namespace StorageSlots

/-- What comes of a program that an engine is given, batch by batch. If a run is always resumed, it
comes to an end. -/
inductive Run where
  | optimal (progress : Progress) (solution : Option Assignment)
  | failed (reason : String)
  | unfinished (progress : Progress) (resume : Unit → Run)

structure Solution where
  values : Assignment
  progress : Progress

def Progress.abandonment (progress : Progress) : String :=
  s!"search abandoned after {progress.nodes} nodes in {progress.elapsed.text}"

namespace Run

/-- Asks after every batch that leaves the run unfinished whether it has to stop there. -/
def follow (stops : Progress → Bool) : Run → Except SolverFault Solution
  | optimal progress (some values) => .ok ⟨values, progress⟩
  | optimal _ none => .error (.notOptimal "the engine proved optimality without a solution")
  | failed reason => .error (.notOptimal reason)
  | unfinished progress resume =>
    if stops progress then .error (.notOptimal progress.abandonment)
    else (resume ()).follow stops

/-- The progress after the first batch at which the run has to stop. -/
def stop? (stops : Progress → Bool) : Run → Option Progress
  | optimal _ _ => none
  | failed _ => none
  | unfinished progress resume => if stops progress then some progress else (resume ()).stop? stops

def delayed : List Progress → (Unit → Run) → Run
  | [], run => run ()
  | progress :: batches, run => unfinished progress fun _ => delayed batches run

/-- The values at the end of a run that is always resumed. -/
def values? : Run → Option Assignment
  | optimal _ solution => solution
  | failed _ => none
  | unfinished _ resume => (resume ()).values?

inductive Ends (stops : Progress → Bool) (run : Run) : Except SolverFault Solution → Prop
  | abandoned {progress : Progress} (hstop : run.stop? stops = some progress) :
      Ends stops run (.error (.notOptimal progress.abandonment))
  | failed (hrun : run.stop? stops = none) (hvalues : run.values? = none) (reason : String) :
      Ends stops run (.error (.notOptimal reason))
  | solved (hrun : run.stop? stops = none) {solution : Solution}
      (hvalues : run.values? = some solution.values) : Ends stops run (.ok solution)

theorem ends_follow (stops : Progress → Bool) (run : Run) : run.Ends stops (run.follow stops) := by
  induction run with
  | optimal progress solution =>
    cases solution with
    | none => exact .failed rfl rfl _
    | some values => exact .solved rfl rfl
  | failed reason => exact .failed rfl rfl reason
  | unfinished progress resume ih =>
    rw [follow]
    by_cases hstop : stops progress = true
    · rw [if_pos hstop]
      exact .abandoned (if_pos hstop)
    · -- A batch that does not stop the run leaves its end to what follows.
      rw [if_neg hstop]
      have hrun : (unfinished progress resume).stop? stops = (resume ()).stop? stops :=
        if_neg hstop
      have hrest := ih ()
      generalize (resume ()).follow stops = answer at hrest
      cases hrest with
      | abandoned hlater => exact .abandoned (hrun.trans hlater)
      | failed hlater hvalues reason => exact .failed (hrun.trans hlater) hvalues reason
      | solved hlater hvalues => exact .solved (hrun.trans hlater) hvalues

theorem values?_delayed (batches : List Progress) (run : Unit → Run) :
    (delayed batches run).values? = (run ()).values? := by
  induction batches with
  | nil => rfl
  | cons progress batches ih => exact ih

theorem stop?_delayed (stops : Progress → Bool) (batches : List Progress) {run : Unit → Run}
    (h : (run ()).stop? stops = none) : (delayed batches run).stop? stops = batches.find? stops := by
  induction batches with
  | nil => exact h
  | cons progress batches ih =>
    rw [delayed, stop?, ih, List.find?_cons]
    cases stops progress <;> rfl

example : (unfinished ⟨64, .zero⟩ fun _ => unfinished ⟨128, .ofMilliseconds 3⟩ fun _ =>
      failed "out of memory").follow (({} : Budget).withMaxNodes 100).shouldStop =
    .error (.notOptimal "search abandoned after 128 nodes in 3ms") := by
  rfl

end Run

/-- The node limit is the number of nodes in a batch; the search begins at the values given. -/
abbrev Engine := Formulation → (nodeLimit : Nat) → (start : Assignment) → Run

/-- What is proved optimal is optimal. -/
structure Engine.Sound (engine : Engine) : Prop where
  optimal : ∀ {formulation nodeLimit start values},
    (engine formulation nodeLimit start).values? = some values → formulation.Optimal values

/-- A search that begins at feasible values and is always resumed comes to optimal ones. -/
structure Engine.Lawful (engine : Engine) : Prop extends engine.Sound where
  finds : ∀ {formulation nodeLimit start}, formulation.Feasible start →
    ∃ values, (engine formulation nodeLimit start).values? = some values

namespace Search

/-- The values that the search comes to. If there is no weight, no bin has to be used. -/
def run (formulation : Formulation) : Run :=
  if total formulation.sizes = 0 then .optimal .start (some .apart)
  else
    match fewest? formulation.sizes formulation.capacity with
    | some bins =>
      .optimal .start
        (some (.ofPacking (.ofBins (bins.map fun bin => bin.map FirstFit.Entry.item) true)))
    | none => .failed "problem is infeasible"

def batched (batches : List Progress) : Engine := fun formulation _ _ =>
  .delayed batches fun _ => run formulation

/-- The search runs in one go: it can only be stopped before it begins. -/
def engine : Engine :=
  batched [.start]

end Search

end StorageSlots
