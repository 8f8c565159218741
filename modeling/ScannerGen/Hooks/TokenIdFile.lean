import ScannerGen.Hooks
import ScannerGen.Text.Utf8

/-!
# Token id files

A hook that writes the identifiers and ids of the tokens to a file: first a line for each
token, then a line for each category.

What is written is gathered in a buffer and put into the file when the buffer is full, when
the file is closed, or when the hook is given up.  Opening makes the file empty, and then gives
up what was open before; that part goes to the place where it would have stood.
-/

namespace ScannerGen

/-- An open file: where in it the next bytes go, and the bytes that still wait. -/
structure Writer where
  offset : Nat
  pending : List UInt8
  deriving DecidableEq, Repr, Inhabited

namespace Writer

def capacity : Nat := 8192

def atStart : Writer := ⟨0, []⟩

end Writer

namespace TokenIdFile

/-! ## Lines -/

/-- The line of a token, in the pieces that are written one by one. -/
def tokenLine (t : Token) : List String := [t.ident, " = ", toString t.id, "\n"]

/-- An identifier with its id inside a category line. -/
def pairText (pair : String × Nat) : String := s!"[\"{pair.1}\", {pair.2}]"

/-- The line of a category, in pieces. -/
def categoryLine (entry : Category × List (String × Nat)) : List String :=
  [entry.1.name, " : [", ", ".intercalate (entry.2.map pairText), "]\n"]

/-! ## Writing -/

section Writing

variable {m : Type → Type} [Monad m] [FileAccess m]

/-- Puts the waiting bytes into the file. -/
def flush (path : Path) (w : Writer) : m (Except OsError Writer) := do
  if w.pending = [] then pure (.ok w)
  else
    match ← FileAccess.patch path w.offset w.pending with
    | .ok () => pure (.ok ⟨w.offset + w.pending.length, []⟩)
    | .error e => pure (.error e)

/-- Takes one piece: it waits if there is room, else the buffer is flushed first; a piece that
no buffer can hold goes straight into the file. -/
def writePiece (path : Path) (w : Writer) (piece : List UInt8) : m (Except OsError Writer) := do
  let room ←
    if Writer.capacity < w.pending.length + piece.length then flush path w else pure (.ok w)
  match room with
  | .error e => pure (.error e)
  | .ok w =>
    if piece.length < Writer.capacity then pure (.ok ⟨w.offset, w.pending ++ piece⟩)
    else
      match ← FileAccess.patch path w.offset piece with
      | .ok () => pure (.ok ⟨w.offset + piece.length, w.pending⟩)
      | .error e => pure (.error e)

def writePieces (path : Path) (w : Writer) : List String → m (Except OsError Writer)
  | [] => pure (.ok w)
  | piece :: pieces => do
    match ← writePiece path w (utf8 piece) with
    | .ok w => writePieces path w pieces
    | .error e => pure (.error e)

/-- Gives up a file: what still waits is put into it, and no failure is reported. -/
def giveUp (path : Path) : Option Writer → m Unit
  | none => pure ()
  | some w => do
    let _ ← flush path w
    pure ()

/-- Writes to the open file. -/
def writeLines (path : Path) (lines : List (List String)) :
    StateT (Option Writer) m (Except IoError Unit) := do
  match ← get with
  | none => pure (.error .notOpen)
  | some w =>
    match ← StateT.lift (writePieces path w lines.flatten) with
    | .ok w =>
      set (some w)
      pure (.ok ())
    | .error e => pure (.error (.os e))

/-- How the hook answers calls. -/
def answer (path : Path) : HookCall → StateT (Option Writer) m (Except IoError Unit)
  | .opening => do
    match ← StateT.lift (FileAccess.write path []) with
    | .error e => pure (.error (.os e))
    | .ok () =>
      StateT.lift (giveUp path (← get))
      set (some Writer.atStart)
      pure (.ok ())
  | .tokens tokens => writeLines path (tokens.tokens.map tokenLine)
  | .tokenIds ids => writeLines path (ids.map categoryLine)
  | .closing => do
    match ← get with
    | none => pure (.ok ())
    | some w =>
      set (none : Option Writer)
      match ← StateT.lift (flush path w) with
      | .ok _ => pure (.ok ())
      | .error e => pure (.error (.os e))

def hook (path : Path) : Hook (StateT (Option Writer) m) where
  name := s!"token ids ({path.text})"
  answer := answer path

end Writing

end TokenIdFile

end ScannerGen
