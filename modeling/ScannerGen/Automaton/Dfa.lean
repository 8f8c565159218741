import ScannerGen.Automaton.ByteClasses

/-!
# Deterministic automata

A deterministic automaton has one successor for every state and byte.  Each state names the
token that wins there, if any.  One state is where every input that cannot match ends up.

State numbers and tokens have no upper bound here.  In words of 32 bits they are the same as long as there
are at most 2 ^ 32 states, and fewer tokens than the greatest word, which stands for no token there.

* `Dfa.next` is a single step, `Dfa.token?` the winner of a state.
* `Dfa.column` is what a byte does in every state; `Dfa.columnClasses` are the bytes with
  equal columns.
-/

namespace ScannerGen

/-- One state: its successor for each byte and its winning token. -/
structure Dfa.State where
  successors : Vector Nat 256
  token : Option Nat
  deriving Inhabited

/-- A complete automaton over bytes. -/
structure Dfa where
  states : Array Dfa.State
  start : Nat
  reject : Nat
  deriving Inhabited

namespace Dfa

/-- The number that the reject state has in every automaton built here. -/
def rejectId : Nat := 0

/-- The number that the start state has in every automaton built here. -/
def startId : Nat := 1

def size (dfa : Dfa) : Nat := dfa.states.size

def State.next (state : State) (b : UInt8) : Nat := state.successors.get b.toFin

/-- The successor of a state; what is no state leads to reject. -/
def next (dfa : Dfa) (s : Nat) (b : UInt8) : Nat :=
  match dfa.states[s]? with
  | some state => state.next b
  | none => dfa.reject

/-- The token that wins in a state. -/
def token? (dfa : Dfa) (s : Nat) : Option Nat := dfa.states[s]?.bind State.token

/-- Where a byte leads from each state. -/
def column (dfa : Dfa) (b : UInt8) : List Nat := dfa.states.toList.map fun state => state.next b

/-- The classes of bytes that lead to the same state from everywhere. -/
def columnClasses (dfa : Dfa) : ByteClasses := ByteClasses.ofKey dfa.column

end Dfa

end ScannerGen
