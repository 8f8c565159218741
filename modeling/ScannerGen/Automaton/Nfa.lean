import ScannerGen.Pattern

/-!
# Nondeterministic automata

All patterns of a scanner are compiled into one automaton with empty transitions.  State 0 is
the common start, and the last state of each pattern accepts its token.

A tree becomes a `Fragment`: a start, an end, and a list of transitions over states numbered
from a given base.  The fragment of a part is glued to its neighbours by empty transitions;
counted repetitions copy the body, unbounded ones loop through a hub.

State numbers have no upper bound here, and a tree can have any number of states.  A builder that keeps
them in words of 32 bits makes the same automaton as long as there are at most 2 ^ 32 states; with more,
its numbers would repeat.

* `Fragment.ofPattern` compiles a tree.
* `Nfa.ofPatterns` compiles the patterns of all tokens.
* `Nfa.closure`, `Nfa.step` and `Nfa.accepting` run the automaton on sets of states, which are
  sorted lists without repetition.
-/

namespace ScannerGen

/-- A transition on a byte of a set, or on nothing. -/
structure Transition where
  source : Nat
  label : Option ByteSet
  target : Nat
  deriving DecidableEq

def Transition.silent (source target : Nat) : Transition := ⟨source, none, target⟩

/-- A part of an automaton under construction. -/
structure Fragment where
  start : Nat
  stop : Nat
  /-- The first state number that is still free. -/
  next : Nat
  transitions : List Transition

namespace Fragment

/-- The transitions for `count` copies of a body one after the other, behind the state
`current`; the fragment starts there. -/
def copies (body : Nat → Fragment) (current next : Nat) : Nat → Fragment
  | 0 => ⟨current, current, next, []⟩
  | count + 1 =>
    let first := body next
    let others := copies body first.stop first.next count
    ⟨current, others.stop, others.next,
      first.transitions ++ .silent current first.start :: others.transitions⟩

/-- Up to `count` copies of a body behind the state `current`, each of which may be left out
together with those after it. -/
def optionalCopies (body : Nat → Fragment) (current stop next : Nat) : Nat → Fragment
  | 0 => ⟨current, stop, next, [.silent current stop]⟩
  | count + 1 =>
    let first := body next
    let others := optionalCopies body first.stop stop first.next count
    ⟨current, stop, others.next,
      first.transitions ++
        .silent current first.start :: .silent current stop :: others.transitions⟩

/-- Any number of copies of a body behind the state `current`, round a hub. -/
def loop (body : Nat → Fragment) (current stop next : Nat) : Fragment :=
  let hub := next
  let copy := body (next + 1)
  ⟨current, stop, copy.next,
    copy.transitions ++
      [.silent current hub, .silent hub copy.start, .silent copy.stop hub, .silent hub stop]⟩

/-- A repetition: the copies that have to be there, then those that may. -/
def repeated (body : Nat → Fragment) (min : Nat) (max : Option Nat) (base : Nat) : Fragment :=
  let required := copies body base (base + 2) min
  let more :=
    match max with
    | none => loop body required.stop (base + 1) required.next
    | some max => optionalCopies body required.stop (base + 1) required.next (max - min)
  ⟨base, base + 1, more.next, required.transitions ++ more.transitions⟩

mutual

/-- The automaton of a tree, with states numbered from `base`. -/
def ofPattern : Pattern → Nat → Fragment
  | .empty, base => ⟨base, base + 1, base + 2, [.silent base (base + 1)]⟩
  | .set bytes, base => ⟨base, base + 1, base + 2, [⟨base, some bytes, base + 1⟩]⟩
  | .seq parts, base => ofParts parts base (base + 1)
  | .alt branches, base =>
    let inner := ofBranches branches base (base + 1) (base + 2)
    ⟨base, base + 1, inner.next, inner.transitions⟩
  | .rep body min max, base => repeated (ofPattern body) min max base

/-- Parts one after the other, behind the state `current`. -/
def ofParts : List Pattern → Nat → Nat → Fragment
  | [], current, next => ⟨current, current, next, []⟩
  | p :: ps, current, next =>
    let first := ofPattern p next
    let others := ofParts ps first.stop first.next
    ⟨current, others.stop, others.next,
      first.transitions ++ .silent current first.start :: others.transitions⟩

/-- Branches between two states. -/
def ofBranches : List Pattern → Nat → Nat → Nat → Fragment
  | [], start, stop, next => ⟨start, stop, next, []⟩
  | p :: ps, start, stop, next =>
    let first := ofPattern p next
    let others := ofBranches ps start stop first.next
    ⟨start, stop, others.next,
      first.transitions ++
        .silent start first.start :: .silent first.stop stop :: others.transitions⟩

end

end Fragment

/-! ## Automata -/

/-- One state: where it goes on nothing and on bytes, in the order in which the transitions
were made, and the token it accepts. -/
structure Nfa.State where
  silent : List Nat
  edges : List (ByteSet × Nat)
  token : Option Nat
  deriving Inhabited

/-- An automaton whose start is state 0. -/
structure Nfa where
  states : Array Nfa.State
  deriving Inhabited

namespace Nfa

def start : Nat := 0

def State.fresh : State := ⟨[], [], none⟩

def State.add (state : State) (label : Option ByteSet) (target : Nat) : State :=
  match label with
  | none => { state with silent := state.silent ++ [target] }
  | some bytes => { state with edges := state.edges ++ [(bytes, target)] }

def addTransition (states : Array State) (t : Transition) : Array State :=
  states.modify t.source fun state => state.add t.label t.target

def addAccept (states : Array State) (accept : Nat × Nat) : Array State :=
  states.modify accept.1 fun state => { state with token := some accept.2 }

/-- What the patterns of a scanner contribute: transitions, accepting states with their
tokens, and the number of states. -/
structure Plan where
  transitions : List Transition
  accepts : List (Nat × Nat)
  size : Nat

/-- The plan for patterns whose tokens are numbered from `token`, in states from `next`. -/
def plan (token next : Nat) : List Pattern → Plan
  | [] => ⟨[], [], next⟩
  | p :: ps =>
    let first := Fragment.ofPattern p next
    let others := plan (token + 1) first.next ps
    ⟨first.transitions ++ .silent start first.start :: others.transitions,
      (first.stop, token) :: others.accepts, others.size⟩

def ofPlan (plan : Plan) : Nfa :=
  let states := Array.replicate plan.size State.fresh
  ⟨plan.accepts.foldl addAccept (plan.transitions.foldl addTransition states)⟩

/-- The automaton of all patterns, each accepting the token of its position. -/
def ofPatterns (patterns : List Pattern) : Nfa := ofPlan (plan 0 1 patterns)

/-- A state by its number; a number that is none stands for a state without transitions. -/
def state (nfa : Nfa) (s : Nat) : State := nfa.states.getD s .fresh

/-! ## Runs -/

/-- Marks the states that are reached on nothing from those of a stack.  Returns them in
front of those found before. -/
def reach (nfa : Nfa) (seen : Array Bool) (found : List Nat) (stack : List Nat) : List Nat :=
  match stack with
  | [] => found
  | s :: rest =>
    if inside : s < seen.size then
      if seen[s] = false then
        nfa.reach (seen.set s true) (s :: found) ((nfa.state s).silent ++ rest)
      else nfa.reach seen found rest
    else nfa.reach seen found rest
termination_by (seen.count false, stack.length)
decreasing_by
  · rename_i unseen
    apply Prod.Lex.left
    rw [Array.count_set inside]
    have : 0 < seen.count false := by
      rw [Array.count_pos_iff]
      exact unseen ▸ Array.getElem_mem inside
    rw [if_pos (by rw [unseen]; rfl), if_neg (by decide)]
    omega
  · exact Prod.Lex.right _ (by simp)
  · exact Prod.Lex.right _ (by simp)

/-- The states reached on nothing from a set of states, sorted. -/
def closure (nfa : Nfa) (set : List Nat) : List Nat :=
  (nfa.reach (Array.replicate nfa.states.size false) [] set).mergeSort

/-- The states that one state goes to on a byte. -/
def targets (nfa : Nfa) (b : UInt8) (s : Nat) : List Nat :=
  (nfa.state s).edges.filterMap fun edge => if edge.1.contains b then some edge.2 else none

/-- The set of states after one more byte. -/
def step (nfa : Nfa) (set : List Nat) (b : UInt8) : List Nat :=
  nfa.closure (set.flatMap (nfa.targets b))

/-- The set of states before any byte. -/
def initial (nfa : Nfa) : List Nat := nfa.closure [start]

/-- The tokens accepted in a set of states, in the order of the states. -/
def accepting (nfa : Nfa) (set : List Nat) : List Nat :=
  set.filterMap fun s => (nfa.state s).token

end Nfa

end ScannerGen
