import ScannerGen.Pattern.Lexeme
import ScannerGen.Pattern.Macros

/-!
# Reading patterns

The lexemes of a text are assembled into a tree from left to right.  For every open
parenthesis, and for the text itself, a `Level` keeps the finished branches, the finished
items of the branch being read, and the last operand, which repetition signs still apply to.
Postfix signs therefore bind tighter than sequence, and sequence tighter than the bar.

A sequence inside a sequence and an alternation inside an alternation are taken apart on the
way, so a tree has no needless nesting.  A repetition, a fragment and a whole pattern are
refused when they would need more than `maxStates` automaton states.

* `assemble` is the assembly, given what a macro reference expands to.
* `parseFragment` expands references, each with the fragment of its macro read on its own.
* `parse` reads the pattern of an owner.
-/

namespace ScannerGen.Pattern

/-! ## Levels -/

/-- What has been read since an opening parenthesis.  Branches and items are kept last
first. -/
structure Level where
  /-- The rest of the text from the opening parenthesis. -/
  opened : List UInt8
  branches : List Pattern
  items : List Pattern
  last : Option Pattern
  deriving Inhabited

namespace Level

def fresh (opened : List UInt8) : Level := ⟨opened, [], [], none⟩

/-- The finished items together with those of the last operand. -/
def allItems (level : Level) : List Pattern :=
  match level.last with
  | none => level.items
  | some operand => operand.parts.reverse ++ level.items

/-- A further operand: the previous one is finished. -/
def push (level : Level) (operand : Pattern) : Level :=
  { level with items := level.allItems, last := some operand }

/-- The branches together with the one being read. -/
def allBranches (level : Level) : List Pattern :=
  (seqOf level.allItems.reverse).branches.reverse ++ level.branches

/-- A bar: the branch being read is finished. -/
def nextBranch (level : Level) : Level :=
  { level with branches := level.allBranches, items := [], last := none }

/-- The tree of everything read on a level. -/
def result (level : Level) : Pattern := altOf level.allBranches.reverse

end Level

/-! ## Assembly -/

/-- A tree that is small enough, or the fault of one that is not. -/
def bounded (tree : Pattern) (suffix : List UInt8) : Except Located Pattern :=
  if maxStates < tree.stateBound then .error ⟨.tooManyStates, suffix⟩ else .ok tree

/-- Assembles lexemes on top of the levels read so far, innermost first.  `whole` is the
entire text. -/
def assemble {ε : Type} (expand : String → Except ε Pattern) (refuse : Located → ε)
    (whole : List UInt8) (level : Level) (outer : List Level) : List Placed → Except ε Pattern
  | [] =>
    if level.last.isNone then .error (refuse ⟨.expectedExpression, []⟩)
    else if outer ≠ [] then .error (refuse ⟨.unbalancedOpen, level.opened⟩)
    else (bounded level.result whole).mapError refuse
  | ⟨l, suffix⟩ :: more =>
    match l with
    | .operand tree => assemble expand refuse whole (level.push tree) outer more
    | .reference name =>
      match expand name with
      | .error e => .error e
      | .ok tree => assemble expand refuse whole (level.push tree) outer more
    | .times sign min max =>
      match level.last with
      | none => .error (refuse ⟨.nothingToRepeat sign, suffix⟩)
      | some operand =>
        match bounded (.rep operand min max) suffix with
        | .error located => .error (refuse located)
        | .ok tree => assemble expand refuse whole { level with last := some tree } outer more
    | .bar =>
      if level.last.isNone then .error (refuse ⟨.expectedExpression, suffix⟩)
      else assemble expand refuse whole level.nextBranch outer more
    | .opening => assemble expand refuse whole (.fresh suffix) (level :: outer) more
    | .closing =>
      if level.last.isNone then .error (refuse ⟨.expectedExpression, suffix⟩)
      else
        match outer with
        | [] => .error (refuse ⟨.unbalancedClose, suffix⟩)
        | enclosing :: others =>
          assemble expand refuse whole (enclosing.push level.result) others more
    | .fault fault => .error (refuse ⟨fault, suffix⟩)

/-! ## Macros -/

/-- The error of a fault in an owner's text. -/
def Located.toError (owner : Owner) (text : List UInt8) (located : Located) : Error :=
  .invalid owner (text.length - located.suffix.length) located.fault

/-- Reads a text whose macro references are expanded, `chain` being the macros that are being
expanded already, outermost first. -/
def parseFragment (macros : MacroTable) (chain : List String) (owner : Owner) (text : String) :
    Except Error Pattern :=
  let bytes := utf8 text
  if bytes = [] then .error (.invalid owner 0 .emptyPattern)
  else
    assemble (fun name =>
        if _open : chain.contains name then .error (.cyclic (chain ++ [name]))
        else
          match _found : macros.find? name with
          | none => .error (.unknownName name owner)
          | some m =>
            parseFragment macros (chain ++ [name]) (.fragment m.name m.origin) m.fragment)
      (Located.toError owner bytes) bytes (.fresh []) [] (lexemes false bytes)
termination_by macros.countOutside chain
decreasing_by exact MacroTable.countOutside_append_lt _found (by simpa using _open)

/-- Reads the pattern of an owner. -/
def parse (macros : MacroTable) (owner : Owner) (text : String) : Except Error Pattern :=
  parseFragment macros [] owner text

end ScannerGen.Pattern
