import ScannerGen.ByteSet

/-!
# Scanner tables

The tables of a scanner: a class for every byte, a successor for every state and class, the
winning token of each state, and for each token whether its matches can contain a newline.

A table may come from a file, so its tokens need not exist and its start and reject states
may be any of its states.
-/

namespace ScannerGen

structure Tables where
  /-- The class of each byte. -/
  classOf : Vector Nat 256
  classCount : Nat
  /-- For each state, its successor for each class. -/
  next : Array (Array Nat)
  /-- For each state, its winning token. -/
  tokenMap : Array (Option Nat)
  start : Nat
  reject : Nat
  /-- For each token, whether a match of it can contain a newline. -/
  endsLines : Array Bool
  deriving DecidableEq, Inhabited

namespace Tables

def stateCount (t : Tables) : Nat := t.next.size

def byteClass (t : Tables) (b : UInt8) : Nat := t.classOf.get b.toFin

/-- The successor of a state, if the tables have an entry for it. -/
def step? (t : Tables) (s : Nat) (b : UInt8) : Option Nat :=
  t.next[s]?.bind fun row => row[t.byteClass b]?

/-- The successor of a state; where there is none, the reject state. -/
def step (t : Tables) (s : Nat) (b : UInt8) : Nat := (t.step? s b).getD t.reject

def token? (t : Tables) (s : Nat) : Option Nat := t.tokenMap[s]?.bind fun token => token

/-- Whether matches of a token can contain a newline; never for a token that the tables do
not list. -/
def endsLine (t : Tables) (token : Nat) : Bool := t.endsLines[token]?.getD false

/-- The number of states that some token wins. -/
def acceptingCount (t : Tables) : Nat := t.tokenMap.toList.countP Option.isSome

end Tables

end ScannerGen
