/-!
What can go wrong, and how it is told.

The faults of reading and resolving declarations, of packing, and of analyzing a unit are kept
apart; `Fault` joins them. Each has its wording in `message`.
-/

namespace StorageSlots

/-- Faults in what was read: the file, its text, or a declaration in it. -/
inductive InputFault where
  | unreadable (path reason : String)
  | malformed (reason : String)
  | invalidByteSize (name : String) (size : Nat)
  | unknownSize (name label : String)
  deriving DecidableEq, Repr

/-- Faults of a solver that has no usable packing to give. -/
inductive SolverFault where
  | notOptimal (reason : String)
  | tooManyItems (count limit : Nat)
  | invalidPacking (reason : String)
  deriving DecidableEq, Repr

/-- Faults of a unit that leave nothing to analyze. -/
inductive AnalysisFault where
  | noEligibleContract
  | noEligibleVariables (contract : String)
  deriving DecidableEq, Repr

inductive Fault where
  | analysis (fault : AnalysisFault)
  | input (fault : InputFault)
  | solver (fault : SolverFault)
  deriving DecidableEq, Repr

def InputFault.message : InputFault → String
  | unreadable path reason => s!"Could not read {path}: {reason}"
  | malformed reason => s!"Malformed input: {reason}"
  | invalidByteSize name size =>
    s!"Variable `{name}` has a size of {size} bytes which does not fit in a slot"
  | unknownSize name label =>
    s!"Cannot determine the size of variable `{name}` of type `{label}`"

def SolverFault.message : SolverFault → String
  | notOptimal reason => s!"The solver could not find an optimal solution: {reason}"
  | tooManyItems count limit =>
    s!"Refusing to solve for {count} items as the limit is {limit}"
  | invalidPacking reason => s!"The solver produced an invalid packing: {reason}"

def AnalysisFault.message : AnalysisFault → String
  | noEligibleContract => "The input does not contain any contract"
  | noEligibleVariables contract =>
    s!"{contract} does not define any eligible state variable"

def Fault.message : Fault → String
  | analysis fault => fault.message
  | input fault => fault.message
  | solver fault => fault.message

/-- A fault together with the unit in which it arose. -/
structure LocatedFault where
  location : String
  fault : Fault
  deriving DecidableEq, Repr

def LocatedFault.message (located : LocatedFault) : String :=
  "[" ++ located.location ++ "]: " ++ located.fault.message

/-- The faults of several units, in the order in which they arose. -/
structure FaultLog where
  entries : List LocatedFault := []
  deriving DecidableEq, Repr

namespace FaultLog

def add (log : FaultLog) (location : String) (fault : Fault) : FaultLog :=
  ⟨log.entries ++ [⟨location, fault⟩]⟩

def size (log : FaultLog) : Nat :=
  log.entries.length

def isEmpty (log : FaultLog) : Bool :=
  log.entries.isEmpty

def message (log : FaultLog) : String :=
  if log.isEmpty then "Encountered no errors"
  else
    let count := log.size
    s!"Encountered {count} errors:\n" ++
      String.join (log.entries.map fun located => located.message ++ "\n")

@[simp] theorem entries_add (log : FaultLog) (location : String) (fault : Fault) :
    (log.add location fault).entries = log.entries ++ [⟨location, fault⟩] := rfl

theorem size_add (log : FaultLog) (location : String) (fault : Fault) :
    (log.add location fault).size = log.size + 1 := by
  simp [size]

end FaultLog

end StorageSlots
