import StorageSlots.CommandLine

/-!
The program: the command line on the file system of the machine.
-/

namespace StorageSlots.Main

def readFault (e : IO.Error) : ReadFault :=
  match e with
  | .noFileOrDirectory _ _ _ => .notFound
  | .inappropriateType _ code message =>
    if code = 20 then .notDirectory
    else if code = 21 then .isDirectory
    else .other message
  | e => .other e.toString

def kind? (path : String) : IO (Option FileKind) := do
  let place := (← IO.currentDir) / path
  if path = "" then return none
  else if ← place.isDir then return some .directory
  else if ← place.pathExists then return some .file
  else return none

def entries (path : String) : IO (List String) := do
  let place := (← IO.currentDir) / path
  let found ← try place.readDir catch _ => pure #[]
  return found.toList.map fun entry => entry.fileName

def read (path : String) : IO (Except ReadFault String) := do
  if path.toList.contains '\x00' then return .error .nulByte
  try
    let bytes ← IO.FS.readBinFile path
    match String.fromUTF8? bytes with
    | some text => return .ok text
    | none => return .error .notText
  catch e => return .error (readFault e)

def files : FileSystem IO := ⟨kind?, entries, read⟩

end StorageSlots.Main

def main (arguments : List String) : IO UInt32 := do
  let outcome ← StorageSlots.CommandLine.run StorageSlots.Main.files arguments
  for event in outcome.journal do
    IO.eprintln (event.level.name ++ " " ++ event.text)
  IO.print outcome.output
  return outcome.code.toUInt32
