import ScannerGen.Files.Path

/-!
# Files

What the program asks of files, and why that can fail.  `FileAccess` lists the operations;
they are carried out by the operating system, or by a file system that is a value.
-/

namespace ScannerGen

/-! ## Failures -/

/-- Why the operating system refuses. -/
inductive OsError where
  | notFound
  | notPermitted
  | alreadyExists
  | notDirectory
  | isDirectory
  | nameTooLong
  | other (code : Nat) (reason : String)
  deriving DecidableEq, Repr, Inhabited

namespace OsError

def code : OsError → Nat
  | notFound => 2
  | notPermitted => 13
  | alreadyExists => 17
  | notDirectory => 20
  | isDirectory => 21
  | nameTooLong => 36
  | other code _ => code

def reason : OsError → String
  | notFound => "No such file or directory"
  | notPermitted => "Permission denied"
  | alreadyExists => "File exists"
  | notDirectory => "Not a directory"
  | isDirectory => "Is a directory"
  | nameTooLong => "File name too long"
  | other _ reason => reason

def message (e : OsError) : String := s!"{e.reason} (os error {e.code})"

end OsError

/-- Why reading or writing fails. -/
inductive IoError where
  | os (e : OsError)
  | notUtf8
  /-- A token id file is written to before it is opened. -/
  | notOpen
  /-- What a hook reports. -/
  | reported (text : String)
  deriving DecidableEq, Repr, Inhabited

def IoError.message : IoError → String
  | os e => e.message
  | notUtf8 => "stream did not contain valid UTF-8"
  | notOpen => "token id file is not open"
  | reported text => text

/-- A path where reading or writing failed. -/
structure FileError where
  path : Path
  failure : IoError
  deriving DecidableEq, Repr, Inhabited

def FileError.message (e : FileError) : String :=
  s!"i/o failure on {e.path.text}: {e.failure.message}"

/-! ## Operations -/

class FileAccess (m : Type → Type) where
  read : Path → m (Except OsError (List UInt8))
  /-- Makes a file with the given bytes, in the place of one that was there. -/
  write : Path → List UInt8 → m (Except OsError Unit)
  /-- Puts bytes into an open file at an offset. -/
  patch : Path → Nat → List UInt8 → m (Except OsError Unit)
  remove : Path → m (Except OsError Unit)
  makeDirectory : Path → m (Except OsError Unit)
  isDirectory : Path → m Bool

namespace FileAccess

variable {m : Type → Type} [Monad m] [FileAccess m]

def ensureDirectory (p : Path) : m (Except OsError Unit) := do
  match ← makeDirectory p with
  | .ok () => pure (.ok ())
  | .error e => pure (if ← isDirectory p then .ok () else .error e)

/-- Makes the first of some directories, each of which lies in the next one. -/
def makeChain : List Path → m (Except OsError Unit)
  | [] => pure (.error .notFound)
  | p :: above => do
    if p.text = "" then pure (.ok ())
    else
      match ← ensureDirectory p with
      | .error .notFound =>
        match ← makeChain above with
        | .ok () => ensureDirectory p
        | .error e => pure (.error e)
      | result => pure result

/-- Makes a directory and those above it, as far as they are missing. -/
def makeDirectories (p : Path) : m (Except OsError Unit) := makeChain (p :: p.ancestors)

end FileAccess

end ScannerGen
