import ScannerGen.Automaton.Dfa
import ScannerGen.Automaton.Nfa

/-!
# The subset construction

The states of the deterministic automaton are sets of states of the nondeterministic one.
They are numbered breadth first, bytes in ascending order: the empty set is 0 and rejects, the
set before any byte is 1, and every further set gets the next number when a transition first
leads to it.  The numbers go on without a bound, as those of the states in the sets do.

Bytes that no transition tells apart lead to the same sets, so one byte of each class is
tried.

The tokens that are accepted somewhere in a set are its candidates, best first; the best one
wins the state.  The start state has no winner, which drops the empty match.
-/

namespace ScannerGen

/-! ## Breadth-first numbering -/

/-- A numbering of what has been found, and the numbers of the successors of those that were
expanded. -/
structure Exploration (α : Type) [BEq α] [Hashable α] where
  known : Numbering α
  rows : Array (List Nat)

/-- Expands in the order of the numbers until nothing new turns up, at most `fuel` times. -/
def explore {α : Type} [BEq α] [Hashable α] [LawfulBEq α] [LawfulHashable α]
    (successors : α → List α) : Nat → Exploration α → Exploration α
  | 0, found => found
  | fuel + 1, found =>
    if inside : found.rows.size < found.known.values.size then
      let (row, known) := found.known.numberAll (successors found.known.values[found.rows.size])
      explore successors fuel ⟨known, found.rows.push row⟩
    else found

namespace Nfa

/-! ## Classes of bytes -/

/-- The distinct sets that transitions are labelled with. -/
def labels (nfa : Nfa) : List ByteSet :=
  let all := nfa.states.toList.flatMap fun state => state.edges.map Prod.fst
  (Numbering.empty.numberAll all).2.values.toList

/-- The classes of bytes that no label tells apart. -/
def byteClasses (nfa : Nfa) : ByteClasses :=
  let labels := nfa.labels
  ByteClasses.ofKey fun b => labels.map fun label => label.contains b

/-! ## Construction -/

/-- Every set of states that some input leads to, with the successors of each by class of
bytes.  There are no more than the subsets of the states. -/
def subsets (nfa : Nfa) (classes : ByteClasses) : Exploration (List Nat) :=
  let seeds := ((Numbering.empty.number []).2.number nfa.initial).2
  explore (fun set => classes.representatives.map (nfa.step set))
    (Nat.pow 2 nfa.states.size + 1) ⟨seeds, #[]⟩

/-- Whether a token is at least as good as another: the lower rank wins, and of equal ranks
the earlier token. -/
def ranksBefore (rank : Nat → Nat) (t u : Nat) : Bool :=
  rank t < rank u || (rank t == rank u && t ≤ u)

/-- The tokens accepted in a set, best first. -/
def candidates (nfa : Nfa) (rank : Nat → Nat) (set : List Nat) : List Nat :=
  ((nfa.accepting set).mergeSort (ranksBefore rank)).eraseReps

/-- A deterministic automaton and the candidates of each of its states. -/
structure Determinized where
  dfa : Dfa
  candidates : Array (List Nat)
  deriving Inhabited

/-- The deterministic automaton of the sets of states. -/
def determinize (nfa : Nfa) (rank : Nat → Nat) : Determinized :=
  let classes := nfa.byteClasses
  let found := nfa.subsets classes
  let candidates := found.known.values.map (nfa.candidates rank)
  let states := found.rows.mapIdx fun d row =>
    let row := row.toArray
    { successors := classes.classOf.map fun c => row.getD c Dfa.rejectId
      token := if d = Dfa.startId then none else (candidates.getD d []).head? : Dfa.State }
  ⟨⟨states, Dfa.startId, Dfa.rejectId⟩, candidates⟩

end Nfa

end ScannerGen
