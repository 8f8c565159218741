import ScannerGen.ByteSet

/-!
# Pattern trees

A token pattern, once read, is a tree over sets of bytes.  This module holds the tree and the
questions that are answered by looking at it alone:

* `Pattern.nullable`, whether the empty string matches,
* `Pattern.mentions`, whether some match can contain a given byte,
* `Pattern.stateBound`, the number of automaton states that a tree may need; counts stop at
  the largest 64-bit number instead of growing past it.

`Pattern.seqOf` and `Pattern.altOf` join finished parts without leaving a sequence or an
alternation of fewer than two.
-/

namespace ScannerGen

/-- A regular expression over bytes. -/
inductive Pattern where
  /-- The empty string. -/
  | empty
  /-- One byte of a set. -/
  | set (bytes : ByteSet)
  /-- The parts one after the other. -/
  | seq (parts : List Pattern)
  /-- Any one of the branches. -/
  | alt (branches : List Pattern)
  /-- At least `min` copies of the body, and at most `max` if that is given. -/
  | rep (body : Pattern) (min : Nat) (max : Option Nat)
  deriving Inhabited

/-- Where counts of automaton states stop. -/
def stateCountLimit : Nat := 0xffffffffffffffff

/-- Addition that stops at the limit. -/
def addCapped (m n : Nat) : Nat := Nat.min (m + n) stateCountLimit

/-- Multiplication that stops at the limit. -/
def mulCapped (m n : Nat) : Nat := Nat.min (m * n) stateCountLimit

namespace Pattern

def byte (b : UInt8) : Pattern := .set (.single b)

/-! ## Nullability -/

mutual

/-- Whether the empty string matches. -/
def nullable : Pattern → Bool
  | .empty => true
  | .set _ => false
  | .seq parts => allNullable parts
  | .alt branches => anyNullable branches
  | .rep body min _ => min == 0 || nullable body

def allNullable : List Pattern → Bool
  | [] => true
  | p :: ps => nullable p && allNullable ps

def anyNullable : List Pattern → Bool
  | [] => false
  | p :: ps => nullable p || anyNullable ps

end

/-! ## Bytes of a match -/

mutual

/-- Whether a byte stands in some set of the tree that is not below a repetition of no
copies. -/
def mentions (b : UInt8) : Pattern → Bool
  | .empty => false
  | .set bytes => bytes.contains b
  | .seq parts => anyMentions b parts
  | .alt branches => anyMentions b branches
  | .rep body _ max => max != some 0 && mentions b body

def anyMentions (b : UInt8) : List Pattern → Bool
  | [] => false
  | p :: ps => mentions b p || anyMentions b ps

end

/-! ## Automaton states -/

mutual

/-- How many automaton states the tree may need.  An unbounded repetition counts two copies
of its body beyond the least number. -/
def stateBound : Pattern → Nat
  | .empty => 2
  | .set _ => 2
  | .seq parts => stateBounds 1 parts
  | .alt branches => stateBounds 2 branches
  | .rep body min max =>
    addCapped (mulCapped (stateBound body) (max.getD (min + 2))) 2

def stateBounds (count : Nat) : List Pattern → Nat
  | [] => count
  | p :: ps => stateBounds (addCapped count (stateBound p)) ps

end

/-! ## Joining parts -/

/-- The parts one after the other: none match the empty string, one stands for itself. -/
def seqOf : List Pattern → Pattern
  | [] => .empty
  | [p] => p
  | ps => .seq ps

/-- Any of the branches; a single one stands for itself. -/
def altOf : List Pattern → Pattern
  | [p] => p
  | ps => .alt ps

/-- The parts of a sequence: those of a sequence inside are taken out of it, and the empty
string contributes none. -/
def parts : Pattern → List Pattern
  | .seq ps => ps
  | .empty => []
  | p => [p]

/-- The branches of an alternation: those of an alternation inside are taken out of it. -/
def branches : Pattern → List Pattern
  | .alt ps => ps
  | p => [p]

end Pattern

end ScannerGen
