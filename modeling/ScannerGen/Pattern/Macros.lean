import ScannerGen.Origin

/-!
# Named pattern fragments

A rule text may give names to fragments of patterns; a pattern then refers to a fragment by
its name in braces.  A table of such macros answers for a name with the first entry that has
it, and `define` never adds a second one.

`installPrelude` adds the built-in macros whose names are still free.
-/

namespace ScannerGen

/-- A named fragment and the place of its definition. -/
structure Macro where
  name : String
  fragment : String
  origin : Origin
  deriving DecidableEq, Repr, Inhabited

/-- A name was defined twice.  The place is that of the second definition if it has a line,
else that of the first. -/
structure DuplicateMacro where
  name : String
  origin : Origin
  deriving DecidableEq, Repr

def DuplicateMacro.message (e : DuplicateMacro) : String :=
  s!"macro `{e.name}` is already defined ({e.origin.text})"

/-- The macros defined so far, in the order of their definitions. -/
structure MacroTable where
  entries : List Macro
  deriving Repr, Inhabited

namespace MacroTable

def empty : MacroTable := ⟨[]⟩

def find? (table : MacroTable) (name : String) : Option Macro :=
  table.entries.find? fun m => m.name == name

def contains (table : MacroTable) (name : String) : Bool := (table.find? name).isSome

def size (table : MacroTable) : Nat := table.entries.length

def push (table : MacroTable) (m : Macro) : MacroTable := ⟨table.entries ++ [m]⟩

/-- Defines a new name; a name can be defined once only. -/
def define (table : MacroTable) (name fragment : String) (origin : Origin) :
    Except DuplicateMacro MacroTable :=
  match table.find? name with
  | some previous =>
    .error ⟨name, if origin.line.isSome then origin else previous.origin⟩
  | none => .ok (table.push ⟨name, fragment, origin⟩)

/-- The macros that every rule text can use: digits, letters, hexadecimal digits, exponents
and white space. -/
def builtin : List (String × String) :=
  [("D", "[0-9]"),
   ("L", "[a-zA-Z_]"),
   ("H", "[a-fA-F0-9]"),
   ("E", "[Ee][+-]?\x7bD\x7d+"),
   ("WS", "[ \\t\\v\\n\\f]")]

/-- Adds a macro unless its name is taken. -/
def addIfFree (table : MacroTable) (entry : String × String) : MacroTable :=
  if table.contains entry.1 then table else table.push ⟨entry.1, entry.2, .api⟩

def installPrelude (table : MacroTable) : MacroTable := builtin.foldl addIfFree table

/-- How many entries have a name outside a list of names. -/
def countOutside (table : MacroTable) (names : List String) : Nat :=
  table.entries.countP fun m => !names.contains m.name

/-- Naming one more entry leaves fewer outside: what ends the expansion of macros inside
macros. -/
theorem countOutside_append_lt {table : MacroTable} {names : List String} {name : String}
    {m : Macro} (found : table.find? name = some m) (fresh : names.contains name = false) :
    table.countOutside (names ++ [name]) < table.countOutside names := by
  have member := List.mem_of_find?_eq_some found
  have named : m.name = name := by simpa using List.find?_some found
  unfold countOutside
  generalize table.entries = entries at member
  have le : ∀ l : List Macro, l.countP (fun m => !(names ++ [name]).contains m.name) ≤
      l.countP (fun m => !names.contains m.name) := fun l =>
    List.countP_mono_left (by simp; grind)
  induction entries with
  | nil => cases member
  | cons head tail ih =>
    rcases List.mem_cons.1 member with rfl | inTail
    · have := le tail
      have inside : (!(names ++ [name]).contains m.name) = false := by simp [named]
      have outside : (!names.contains m.name) = true := by rw [named, fresh]; rfl
      simp only [List.countP_cons, inside, outside, if_true, Bool.false_eq_true, if_false]
      omega
    · have step := ih inTail
      simp only [List.countP_cons]
      have : (if (!(names ++ [name]).contains head.name) = true then 1 else 0) ≤
          (if (!names.contains head.name) = true then 1 else 0) := by
        split <;> split <;> simp_all
      omega

end MacroTable

end ScannerGen
