/-!
What is asked of a file system, and what can keep a file from being read as text.
-/

namespace StorageSlots

inductive ReadFault where
  | notFound
  | notDirectory
  | isDirectory
  | nameTooLong
  | notText
  | nulByte
  | other (message : String)
  deriving DecidableEq, Repr

def ReadFault.message : ReadFault → String
  | notFound => "No such file or directory (os error 2)"
  | notDirectory => "Not a directory (os error 20)"
  | isDirectory => "Is a directory (os error 21)"
  | nameTooLong => "File name too long (os error 36)"
  | notText => "stream did not contain valid UTF-8"
  | nulByte => "file name contained an unexpected NUL byte"
  | other message => message

inductive FileKind where
  | file
  | directory
  deriving DecidableEq, Repr

/-- Paths have fewer bytes than this. -/
def pathLimit : Nat := 4096

/-- The names between slashes have at most this many bytes. -/
def nameLimit : Nat := 255

structure FileSystem (m : Type → Type) where
  kind? : String → m (Option FileKind)
  entries : String → m (List String)
  read : String → m (Except ReadFault String)

end StorageSlots
