import StorageSlots.Batch
import StorageSlots.Files.Glob
import StorageSlots.Json.Pretty
import StorageSlots.Report

/-!
The command line: its arguments, and what a run prints.

Arguments are taken from left to right and the first thing that settles the run decides: a request
for help or for the version, or an argument that cannot be accepted. Options that exclude each other
are looked for at the end. A value that follows its option is settled once the next option comes.
-/

namespace StorageSlots

namespace CommandLine

structure Options where
  contract : Option String := none
  folder : Option String := none
  debug : Bool := false
  json : Bool := false
  heuristic : Bool := false
  solverBudget : Option Nat := none
  deriving DecidableEq, Repr

/-- Why a run ends before anything is analyzed. -/
inductive Stop where
  | help
  | version
  | usage
  deriving DecidableEq, Repr

/-- The options that stand alone. -/
inductive Flag where
  | debug
  | json
  | heuristic
  | help
  | version
  deriving DecidableEq, Repr

/-- The options that take a value. -/
inductive Setting where
  | contract
  | folder
  | solverBudget
  deriving DecidableEq, Repr

def Flag.ofLong? (name : String) : Option Flag :=
  [("debug", debug), ("json", json), ("heuristic", heuristic), ("help", help),
    ("version", version)].lookup name

def Flag.ofShort? (c : Char) : Option Flag :=
  [('d', debug), ('h', help), ('V', version)].lookup c

def Setting.ofLong? (name : String) : Option Setting :=
  [("contract", contract), ("folder", folder), ("solver-budget", solverBudget)].lookup name

def turnOn (options : Options) : Flag → Except Stop Options
  | .debug => if options.debug then .error .usage else .ok { options with debug := true }
  | .json => if options.json then .error .usage else .ok { options with json := true }
  | .heuristic =>
    if options.heuristic then .error .usage else .ok { options with heuristic := true }
  | .help => .error .help
  | .version => .error .version

/-- A value for an option that has none yet. Paths must not be empty. -/
def setPath (current : Option String) (value : String) : Except Stop String :=
  if current.isSome ∨ value = "" then .error .usage else .ok value

def set (options : Options) (value : String) : Setting → Except Stop Options
  | .contract => do
    let path ← setPath options.contract value
    return { options with contract := some path }
  | .folder => do
    let path ← setPath options.folder value
    return { options with folder := some path }
  | .solverBudget =>
    match options.solverBudget, Text.word64? value.toList with
    | none, some n => .ok { options with solverBudget := some n }
    | _, _ => .error .usage

/-- The options read so far, with a setting whose value is being waited for or not settled yet. -/
structure Progress where
  options : Options := {}
  pending : Option (Setting × Option String) := none
  deriving DecidableEq, Repr

/-- Settles the pending setting; one without a value cannot be accepted. -/
def settle (progress : Progress) : Except Stop Options :=
  match progress.pending with
  | none => .ok progress.options
  | some (setting, some value) => set progress.options value setting
  | some (_, none) => .error .usage

def cutAtEquals (cs : List Char) : String × Option String :=
  (String.ofList (cs.takeWhile (· != '=')),
    match cs.dropWhile (· != '=') with
    | [] => none
    | _ :: value => some (String.ofList value))

def readLong (progress : Progress) (cs : List Char) : Except Stop Progress :=
  let (name, attached) := cutAtEquals cs
  match Setting.ofLong? name, Flag.ofLong? name, attached with
  | some setting, _, some value => do
    let options ← settle progress
    return { options := ← set options value setting }
  | some setting, _, none => do
    let options ← settle progress
    return { options, pending := some (setting, none) }
  | none, some flag, none => do
    let options ← settle progress
    return { options := ← turnOn options flag }
  | none, _, _ => .error .usage

def readShort (progress : Progress) : List Char → Except Stop Progress
  | [] => .ok progress
  | c :: cs =>
    match Flag.ofShort? c with
    | none => .error .usage
    | some flag => do
      let options ← settle progress
      let options ← turnOn options flag
      readShort { options } cs

/-- An argument that is no option: the value that is waited for. -/
def readValue (progress : Progress) (argument : String) : Except Stop Progress :=
  match progress.pending with
  | some (setting, none) => .ok { progress with pending := some (setting, some argument) }
  | _ => .error .usage

/-- Reads the arguments. Behind two bare dashes nothing may follow, not even a value. -/
def readAll (progress : Progress) : List String → Except Stop Progress
  | [] => .ok progress
  | argument :: arguments =>
    match argument.toList with
    | ['-', '-'] => if arguments.isEmpty then .ok progress else .error .usage
    | '-' :: '-' :: cs => do readAll (← readLong progress cs) arguments
    | '-' :: c :: cs => do readAll (← readShort progress (c :: cs)) arguments
    | _ => do readAll (← readValue progress argument) arguments

def conflicts (options : Options) : Bool :=
  options.contract.isSome && options.folder.isSome ||
    options.heuristic && options.solverBudget.isSome

def parse (arguments : List String) : Except Stop Options := do
  let options ← settle (← readAll {} arguments)
  if conflicts options then .error .usage else .ok options

def config (options : Options) : Config :=
  if options.heuristic then { solver := .firstFit }
  else
    let budget : Budget := {}
    let budget := match options.solverBudget with
      | some n => budget.withMaxElapsed (.ofMilliseconds n)
      | none => budget
    let exact : ExactSolver := { watchdog := budget.watchdog }
    { solver := exact.solver }

structure Outcome where
  code : Nat
  output : String
  journal : Journal := []

def usageText : String :=
  "Usage: packer [--contract <FILE> | --folder <DIR>] [-d] [--json]\n" ++
    "              [--heuristic | --solver-budget <MILLISECONDS>]\n"

def Stop.outcome : Stop → Outcome
  | .help => ⟨0, usageText, []⟩
  | .version => ⟨0, "packer 0.1.0\n", []⟩
  | .usage => ⟨2, "", []⟩

def reportText (report : BatchReport) : String :=
  String.join (report.analyses.map fun entry => (Report.mk entry.path entry.analysis).render) ++
    String.join (report.faults.entries.map fun located =>
      located.location ++ ": no packing data (" ++ located.fault.message ++ ")\n")

def jsonText (report : BatchReport) : String :=
  (Json.list UnitAnalysis.toJson report.analyses).pretty ++ "\n"

def shown (options : Options) (journal : Journal) : Journal :=
  journal.filter fun event => options.debug || event.level != .debug

def outcome (options : Options) (sources : List Source) : Outcome :=
  let config := config options
  let report := BatchReport.ofSources config sources
  { code := 0
    output := if options.json then jsonText report else reportText report
    journal := shown options (batchJournal config sources) }

section Run

variable {m : Type → Type} [Monad m] (files : FileSystem m)

/-- The pattern of the JSON files below a folder. -/
def folderPattern (folder : String) : String :=
  Glob.join (Glob.join folder "**") "*.json"

/-- The paths that are to be analyzed; none are known if there is no input, or a pattern that is
not well formed. -/
def paths (options : Options) : m (Option (List String)) :=
  match options.contract, options.folder with
  | some path, _ => pure (some [path])
  | none, some folder => Glob.expand files (folderPattern folder)
  | none, none => pure none

def load (path : String) : m Source := do
  return ⟨path, ← files.read path⟩

def run (arguments : List String) : m Outcome :=
  match parse arguments with
  | .error stop => pure stop.outcome
  | .ok options => do
    match ← paths files options with
    | none => return ⟨1, if options.folder.isSome then "" else usageText, []⟩
    | some paths => return outcome options (← paths.mapM (load files))

end Run

end CommandLine

end StorageSlots
