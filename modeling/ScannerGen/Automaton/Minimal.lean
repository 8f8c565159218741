import ScannerGen.Automaton.Dfa

/-!
# Minimal automata

States that no input tells apart are merged.  States begin in one class when they have the
same winner, the start state apart from all others; classes are then split as long as some
byte leads from one class to different ones.

The merged states are numbered anew: the class of the reject state first, that of the start
state second, and the others by the first state in them.  There are no more of them than there
were states, so where the numbers of those fit into a word, the new ones do.
-/

namespace ScannerGen.Dfa

/-- The class of each state, and the number of classes. -/
structure Partition where
  classes : Array Nat
  count : Nat
  deriving Inhabited

/-- The partition of the states by a key. -/
def Partition.ofKeys {κ : Type} [BEq κ] [Hashable κ] [LawfulBEq κ] [LawfulHashable κ]
    (keys : List κ) : Partition :=
  let (numbers, numbering) := Numbering.empty.numberAll keys
  ⟨numbers.toArray, numbering.size⟩

def Partition.get (partition : Partition) (s : Nat) : Nat := partition.classes.getD s 0

/-- States by winner, and the start state by itself. -/
def initialPartition (dfa : Dfa) : Partition :=
  .ofKeys (dfa.states.toList.mapIdx fun s state => (s == dfa.start, state.token))

/-- The class of a state together with the classes that a list of bytes leads to. -/
def signature (dfa : Dfa) (bytes : List UInt8) (partition : Partition) (s : Nat) :
    Nat × List Nat :=
  (partition.get s, bytes.map fun b => partition.get (dfa.next s b))

/-- States stay together when they are in one class and so are their successors. -/
def refine (dfa : Dfa) (bytes : List UInt8) (partition : Partition) : Partition :=
  .ofKeys ((List.range dfa.size).map (dfa.signature bytes partition))

/-- Refines until the number of classes stays the same.  It grows each time before, and never
beyond the number of states. -/
def refineAll (dfa : Dfa) (bytes : List UInt8) : Nat → Partition → Partition
  | 0, partition => partition
  | fuel + 1, partition =>
    let refined := dfa.refine bytes partition
    if refined.count = partition.count then refined else refineAll dfa bytes fuel refined

/-- The coarsest partition that keeps winners apart and that every byte respects.  One byte of
each column is enough. -/
def stablePartition (dfa : Dfa) : Partition :=
  dfa.refineAll dfa.columnClasses.representatives (dfa.size + 1) dfa.initialPartition

/-- The automaton of the classes of a partition, in the order reject, start, first state. -/
def quotient (dfa : Dfa) (partition : Partition) : Dfa :=
  let order :=
    (Numbering.empty.numberAll
      (partition.get dfa.reject :: partition.get dfa.start :: partition.classes.toList)).2
  let rename (s : Nat) : Nat := (order.index[partition.get s]?).getD 0
  let members := order.values.map fun c => partition.classes.idxOf c
  let states := members.map fun s =>
    { successors := Vector.ofFn fun b => rename (dfa.next s (UInt8.ofFin b))
      token := dfa.token? s : State }
  ⟨states, startId, rejectId⟩

/-- The automaton with states merged that no input tells apart. -/
def minimize (dfa : Dfa) : Dfa := dfa.quotient dfa.stablePartition

end ScannerGen.Dfa
