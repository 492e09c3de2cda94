import StorageSlots.Item

/-!
The journal: what is worth telling while items are packed and units analyzed.

Each event has a level and a text. Results never depend on a journal; the functions that account
for a computation stand beside it.
-/

namespace StorageSlots

inductive Level where
  | debug
  | info
  | warn
  deriving DecidableEq, Repr

def Level.name : Level → String
  | debug => "DEBUG"
  | info => "INFO"
  | warn => "WARN"

inductive Event where
  | placing (item : Item)
  | declaredSlots (count : Nat)
  | firstFitPacked (items bins : Nat) (certified : Bool)
  | lowerBoundMet (items : Nat)
  | searchPacked (items bins capacity nodes : Nat)
  | fallingBack (fault : SolverFault)
  | noImprovement (fault : SolverFault)
  | uncertified (solver : String)
  | packedSlots (count : Nat)
  | sparedSlots (count : Nat)
  | analyzingRecord (record : String)
  | looseRecord (record : String) (spared : Nat)
  | recordSkipped (record contract : String) (fault : InputFault)
  | storageUnsized (contract : String) (fault : InputFault)
  | resolved (stateVariables records : Nat) (contract : String)
  | storageTooSmall (contract : String) (stateVariables : Nat)
  | analyzingUnit (path : String)
  | unitSkipped (path : String) (fault : Fault)
  deriving DecidableEq, Repr

/-- The events of one computation, in order. -/
abbrev Journal := List Event

def ItemKind.title : ItemKind → String
  | elementary => "Elementary"
  | record => "Record"
  | array => "Array"

namespace Event

def level : Event → Level
  | fallingBack _ | noImprovement _ | recordSkipped _ _ _ | storageUnsized _ _ => .warn
  | storageTooSmall _ _ | unitSkipped _ _ => .info
  | _ => .debug

def text : Event → String
  | placing item =>
    item.display ++ " is a " ++ item.kind.title ++ " item of " ++ toString item.byteSize ++ " bytes"
  | declaredSlots count => s!"The declared order uses {count} slots"
  | firstFitPacked items bins certified =>
    s!"First-fit decreasing packed {items} items into {bins} bins (certified: {certified})"
  | lowerBoundMet items => s!"First-fit decreasing meets the lower bound for {items} items"
  | searchPacked items bins capacity nodes =>
    s!"Packed {items} items into {bins} bins of {capacity} bytes after {nodes} nodes"
  | fallingBack fault => "Falling back to first-fit decreasing: " ++ fault.message
  | noImprovement fault => "No improvement can be claimed: " ++ fault.message
  | uncertified solver => s!"The packing found by {solver} is not known to be optimal"
  | packedSlots count => s!"The packed order uses {count} slots"
  | sparedSlots count => s!"{count} slots can be spared"
  | analyzingRecord record => s!"Analyzing the members of {record}"
  | looseRecord record spared =>
    s!"{record} is not tightly packed, {spared} slots can be spared"
  | recordSkipped record contract fault =>
    s!"Skipping struct {record} in {contract}: " ++ fault.message
  | storageUnsized contract fault => s!"Skipping the storage of {contract}: " ++ fault.message
  | resolved stateVariables records contract =>
    s!"Resolved {stateVariables} state variables and {records} record types in {contract}"
  | storageTooSmall contract stateVariables =>
    s!"Skipping the storage of {contract} as it has only {stateVariables} state variables"
  | analyzingUnit path => s!"Analyzing {path}"
  | unitSkipped path fault => s!"Skipping {path}: " ++ fault.message

end Event

end StorageSlots
