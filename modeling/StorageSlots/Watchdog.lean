import StorageSlots.Duration

/-!
Watchdogs: what bounds the effort of a search.

A watchdog decides from the progress of a search whether it has to stop. A `Budget` allows a number
of nodes and a span of time, and is the watchdog that stops when either is used up.
-/

namespace StorageSlots

/-- What a search has done so far. -/
structure Progress where
  nodes : Nat
  elapsed : Duration
  deriving DecidableEq, Repr

def Progress.start : Progress := ⟨0, .zero⟩

structure Watchdog where
  shouldStop : Progress → Bool
  /-- The number of nodes after which the watchdog wants to be asked again. -/
  pollEvery : Nat
  description : String

structure Budget where
  maxNodes : Nat := 200000
  maxElapsed : Duration := .ofSeconds 2
  pollNodes : Nat := 64
  deriving DecidableEq, Repr

namespace Budget

def withMaxNodes (budget : Budget) (nodes : Nat) : Budget :=
  { budget with maxNodes := nodes }

def withMaxElapsed (budget : Budget) (elapsed : Duration) : Budget :=
  { budget with maxElapsed := elapsed }

/-- A poll comes at least after every node. -/
def pollingEvery (budget : Budget) (nodes : Nat) : Budget :=
  { budget with pollNodes := max nodes 1 }

def shouldStop (budget : Budget) (progress : Progress) : Bool :=
  decide (budget.maxNodes ≤ progress.nodes) ||
    decide (budget.maxElapsed.nanoseconds ≤ progress.elapsed.nanoseconds)

def description (budget : Budget) : String :=
  "BudgetWatchdog \x7b max_nodes: " ++ toString budget.maxNodes ++
    ", max_elapsed: " ++ budget.maxElapsed.text ++
    ", poll_nodes: " ++ toString budget.pollNodes ++ " \x7d"

def watchdog (budget : Budget) : Watchdog :=
  ⟨budget.shouldStop, budget.pollNodes, budget.description⟩

theorem shouldStop_iff (budget : Budget) (progress : Progress) :
    budget.shouldStop progress = true ↔
      budget.maxNodes ≤ progress.nodes ∨
        budget.maxElapsed.nanoseconds ≤ progress.elapsed.nanoseconds := by
  simp [shouldStop]

theorem pollNodes_pollingEvery (budget : Budget) (nodes : Nat) :
    1 ≤ (budget.pollingEvery nodes).pollNodes :=
  Nat.le_max_right nodes 1

end Budget

end StorageSlots
