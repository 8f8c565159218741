import ScannerGen.Files

/-!
# File systems as values

A file system of files and directories, seen from a working directory.  A path is looked up
part by part, from the root if it is absolute and from the working directory if it is not; each
directory on the way has to be there.  Writing fails only if the way to a file is missing, if the
path is that of a directory, or if a name or the path is too long.

A place is told by the names on the way from the root, so two paths that lead to one file have
one place, however they are spelled.  The working directory is a part of the type: no run leaves
it.  It is always there, and so are the directories above it, up to the root.
-/

namespace ScannerGen

/-- A place: the names on the way from the root. -/
abbrev Location := List String

inductive Entry where
  | directory
  | file (bytes : List UInt8)
  deriving DecidableEq, Repr, Inhabited

/-- What stands at places, for a program that runs in a working directory. -/
structure FileSystem (working : Location) where
  entries : List (Location × Entry)
  deriving DecidableEq, Repr, Inhabited

namespace FileSystem

variable {working : Location}

/-- Whether a place is a directory in every file system: the working directory, or one above it. -/
def isFixed (working l : Location) : Bool := l.isPrefixOf working

def get? (fs : FileSystem working) (l : Location) : Option Entry :=
  if isFixed working l then some .directory else fs.entries.lookup l

def erase (fs : FileSystem working) (l : Location) : FileSystem working :=
  ⟨fs.entries.filter fun entry => entry.1 != l⟩

def put (fs : FileSystem working) (l : Location) (entry : Entry) : FileSystem working :=
  ⟨(l, entry) :: (fs.erase l).entries⟩

/-! ## Looking up paths -/

def maxName : Nat := 255

def maxPath : Nat := 4095

/-- The directory that a place lies in; the root lies in itself. -/
def up (l : Location) : Location := l.dropLast

/-- Follows names from a place.  The last of them need not be there. -/
def walk (fs : FileSystem working) (l : Location) : List String → Except OsError Location
  | [] => .ok l
  | name :: names =>
    match fs.get? l with
    | none => .error .notFound
    | some (.file _) => .error .notDirectory
    | some .directory =>
      if name = "." then fs.walk l names
      else if name = ".." then fs.walk (up l) names
      else if maxName < name.utf8ByteSize then .error .nameTooLong
      else fs.walk (l ++ [name]) names

/-- The names to be followed for a path, those of a single dot included. -/
def steps (p : Path) : List String := p.parts.filter (· != "")

/-- Follows names from where a path starts: the root or the working directory. -/
def follow (fs : FileSystem working) (p : Path) (names : List String) : Except OsError Location :=
  if p.text = "" then .error .notFound
  else if maxPath < p.text.utf8ByteSize then .error .nameTooLong
  else fs.walk (if p.isAbsolute then [] else working) names

/-- The place of a path without slashes at its end. -/
def locate (fs : FileSystem working) (p : Path) : Except OsError Location := fs.follow p (steps p)

/-- The place of a path; slashes at its end ask for a directory. -/
def locateFully (fs : FileSystem working) (p : Path) : Except OsError Location :=
  fs.follow p (if p.endsInSlash then steps p ++ ["."] else steps p)

/-- The directory that the last name of a path is looked up in. -/
def locateAbove (fs : FileSystem working) (p : Path) : Except OsError Location :=
  fs.follow p ((steps p).dropLast ++ ["."])

/-! ## Operations -/

def read (fs : FileSystem working) (p : Path) : Except OsError (List UInt8) := do
  match fs.get? (← fs.locateFully p) with
  | none => .error .notFound
  | some .directory => .error .isDirectory
  | some (.file bytes) => .ok bytes

/-- The place that a path gives to a file to be written.  A slash at the end makes it a
directory's, whatever the last name is. -/
def fileLocation (fs : FileSystem working) (p : Path) : Except OsError Location := do
  if p.endsInSlash then
    let _ ← fs.locateAbove p
    .error .isDirectory
  else
    let l ← fs.locate p
    if fs.get? l = some .directory then .error .isDirectory else .ok l

def write (fs : FileSystem working) (p : Path) (bytes : List UInt8) : Except OsError (FileSystem working) :=
  (fs.fileLocation p).map fun l => fs.put l (.file bytes)

/-- Bytes put over others from an offset on, behind zeros if there is a gap. -/
def overwritten (old : List UInt8) (offset : Nat) (bytes : List UInt8) : List UInt8 :=
  old.take offset ++ List.replicate (offset - old.length) 0 ++ bytes ++
    old.drop (offset + bytes.length)

def patch (fs : FileSystem working) (p : Path) (offset : Nat) (bytes : List UInt8) : FileSystem working :=
  match fs.locate p with
  | .error _ => fs
  | .ok l =>
    match fs.get? l with
    | some (.file old) => fs.put l (.file (overwritten old offset bytes))
    | _ => fs

def remove (fs : FileSystem working) (p : Path) : Except OsError (FileSystem working) := do
  let l ← fs.locateFully p
  match fs.get? l with
  | none => .error .notFound
  | some .directory => .error .isDirectory
  | some (.file _) => .ok (fs.erase l)

def makeDirectory (fs : FileSystem working) (p : Path) : Except OsError (FileSystem working) := do
  let l ← fs.locate p
  match fs.get? l with
  | some _ => .error .alreadyExists
  | none => .ok (fs.put l .directory)

def isDirectory (fs : FileSystem working) (p : Path) : Bool :=
  match fs.locateFully p with
  | .ok l => fs.get? l = some .directory
  | .error _ => false

/-- Goes on with a changed file system, or with the old one if the change is refused. -/
def attempt (change : FileSystem working → Except OsError (FileSystem working)) :
    StateM (FileSystem working) (Except OsError Unit) := fun fs =>
  match change fs with
  | .ok changed => (.ok (), changed)
  | .error e => (.error e, fs)

instance : FileAccess (StateM (FileSystem working)) where
  read p := fun fs => (fs.read p, fs)
  write p bytes := attempt fun fs => fs.write p bytes
  patch p offset bytes := fun fs => (.ok (), fs.patch p offset bytes)
  remove p := attempt fun fs => fs.remove p
  makeDirectory p := attempt fun fs => fs.makeDirectory p
  isDirectory p := fun fs => (fs.isDirectory p, fs)

end FileSystem

end ScannerGen
