/-!
# Paths

A path is a text whose parts are separated by slashes.  Empty parts mean nothing, and neither
do parts of a single dot behind the first part.

* `join`, `parent?` and `ancestors` go from one path to others.
* `stem?` and `extension?` take the file name apart at its last dot; a dot in front is a part
  of the name.
-/

namespace ScannerGen

structure Path where
  text : String
  deriving DecidableEq, Repr, Inhabited

/-- Cuts a text at its slashes. -/
def splitSlashes : List Char → List (List Char)
  | [] => [[]]
  | c :: cs =>
    if c = '/' then [] :: splitSlashes cs
    else
      match splitSlashes cs with
      | [] => [[c]]
      | part :: parts => (c :: part) :: parts

namespace Path

def isAbsolute (p : Path) : Bool := p.text.toList.head? == some '/'

def endsInSlash (p : Path) : Bool := p.text.toList.getLast? == some '/'

/-- The parts of a path as they are written. -/
def parts (p : Path) : List String := (splitSlashes p.text.toList).map String.ofList

/-- The parts that name something: without empty ones, and without a dot behind the first. -/
def names (p : Path) : List String :=
  match p.parts with
  | [] => []
  | first :: others =>
    [first].filter (· != "") ++ others.filter fun part => part != "" && part != "."

/-- A path below another; an absolute path stands for itself. -/
def join (p q : Path) : Path :=
  if q.isAbsolute then q
  else if p.text = "" || p.endsInSlash then ⟨p.text ++ q.text⟩
  else ⟨p.text ++ "/" ++ q.text⟩

/-! ## File names -/

/-- The last part, unless it only leads to a directory. -/
def fileName? (p : Path) : Option String :=
  match p.names.getLast? with
  | none => none
  | some name => if name = "." || name = ".." then none else some name

/-- The two sides of the last dot, if both the dot and a side before it are there. -/
def cutAtLastDot? (name : String) : Option (String × String) :=
  let reversed := name.toList.reverse
  match reversed.dropWhile (· != '.') with
  | _ :: c :: before =>
    some (String.ofList (c :: before).reverse,
      String.ofList (reversed.takeWhile (· != '.')).reverse)
  | _ => none

def stem? (p : Path) : Option String :=
  p.fileName?.map fun name => ((cutAtLastDot? name).map Prod.fst).getD name

def extension? (p : Path) : Option String :=
  p.fileName?.bind fun name => (cutAtLastDot? name).map Prod.snd

/-! ## Directories above -/

/-- Drops the parts at the end that name nothing; the parts are in reverse. -/
def dropIdle : List String → List String
  | [] => []
  | [first] => [first]
  | part :: above :: rest =>
    if part = "" || part = "." then dropIdle (above :: rest) else part :: above :: rest

/-- The path of parts in reverse; a lone empty part is the root. -/
def ofReversed (reversed : List String) : Path :=
  if reversed = [""] then ⟨"/"⟩ else ⟨"/".intercalate reversed.reverse⟩

/-- The directory that a path lies in: the path without its last part. -/
def parent? (p : Path) : Option Path :=
  match dropIdle p.parts.reverse with
  | [] => none
  | part :: above => if part = "" then none else some (ofReversed (dropIdle above))

/-- A path and those above it, from its parts in reverse. -/
def ascending : List String → List Path
  | [] => [⟨""⟩]
  | part :: rest =>
    if (part = "" || part = ".") && rest != [] then ascending rest
    else ofReversed (part :: rest) :: ascending rest

def ancestors (p : Path) : List Path := ascending (dropIdle p.parts.reverse).tail

end Path

end ScannerGen
