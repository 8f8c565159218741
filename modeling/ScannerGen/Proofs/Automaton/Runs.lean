import Mathlib.Logic.Relation
import ScannerGen.Automaton.Nfa

/-!
# Runs of nondeterministic automata

The automaton runs on sets of states, kept as sorted lists.  This module relates such runs to the
paths of single states.

* `mem_closure` — the closure of a set is what silent transitions reach from it; `closure_sorted`
  says that it is an ascending list, so that equal sets are equal lists.
* `Nfa.Path` — the paths between two states that read a string.
* `mem_run` — a state is in the set after a string exactly if a path from the start reads it.
-/

namespace ScannerGen.Nfa

open Relation (ReflTransGen)

variable {nfa : Nfa}

/-! ## Single transitions -/

/-- A transition on nothing to a state of the automaton. -/
def Silent (nfa : Nfa) (s t : Nat) : Prop := t ∈ (nfa.state s).silent ∧ t < nfa.states.size

/-- A transition on a byte to a state of the automaton. -/
def Reads (nfa : Nfa) (s : Nat) (b : UInt8) (t : Nat) : Prop :=
  t ∈ nfa.targets b s ∧ t < nfa.states.size

theorem mem_targets {b : UInt8} {s t : Nat} :
    t ∈ nfa.targets b s ↔ ∃ bytes, (bytes, t) ∈ (nfa.state s).edges ∧ bytes.contains b = true := by
  simp only [targets, List.mem_filterMap, Option.ite_none_right_eq_some, Option.some.injEq,
    Prod.exists]
  constructor
  · rintro ⟨bytes, u, edge, inside, rfl⟩
    exact ⟨bytes, edge, inside⟩
  · rintro ⟨bytes, edge, inside⟩
    exact ⟨bytes, t, edge, inside, rfl⟩

/-- The start is entered by no transition. -/
structure StartApart (nfa : Nfa) : Prop where
  silent : ∀ s, ¬ nfa.Silent s start
  reads : ∀ s b, ¬ nfa.Reads s b start

/-! ## Closures -/

/-- What the search for a closure keeps: the marks tell the states found, each found once, and
what a found state leads to on nothing is found or waits on the stack. -/
structure Searching (nfa : Nfa) (seen : Array Bool) (found stack : List Nat) : Prop where
  size_eq : seen.size = nfa.states.size
  marked : ∀ s, s ∈ found ↔ seen[s]? = some true
  nodup : found.Nodup
  pending : ∀ s ∈ found, ∀ t, nfa.Silent s t → t ∈ found ∨ t ∈ stack

theorem Searching.mark {seen : Array Bool} {found stack : List Nat} {s : Nat}
    (searching : nfa.Searching seen found (s :: stack)) (inside : s < seen.size)
    (unseen : seen[s] = false) :
    nfa.Searching (seen.set s true) (s :: found) ((nfa.state s).silent ++ stack) where
  size_eq := by rw [Array.size_set]; exact searching.size_eq
  marked t := by
    rw [List.mem_cons, searching.marked t, Array.getElem?_set inside]
    by_cases same : s = t
    · simp [same]
    · simp [same, Ne.symm same]
  nodup := by
    refine List.nodup_cons.2 ⟨?_, searching.nodup⟩
    rw [searching.marked s, Array.getElem?_eq_getElem inside, unseen]
    simp
  pending u member t silent := by
    rcases List.mem_cons.1 member with rfl | member
    · exact .inr (List.mem_append_left stack silent.1)
    · -- A successor that waited on the stack is `s` itself, found from now on, or waits still.
      rcases searching.pending u member t silent with known | waiting
      · exact .inl (List.mem_cons_of_mem s known)
      · rcases List.mem_cons.1 waiting with rfl | waiting
        · exact .inl List.mem_cons_self
        · exact .inr (List.mem_append_right _ waiting)

/-- A state that is found already, or is none, may be dropped from the stack. -/
theorem Searching.drop {seen : Array Bool} {found stack : List Nat} {s : Nat}
    (searching : nfa.Searching seen found (s :: stack))
    (settled : s < nfa.states.size → s ∈ found) : nfa.Searching seen found stack where
  size_eq := searching.size_eq
  marked := searching.marked
  nodup := searching.nodup
  pending u member t silent := by
    rcases searching.pending u member t silent with known | waiting
    · exact .inl known
    · rcases List.mem_cons.1 waiting with rfl | waiting
      · exact .inl (settled silent.2)
      · exact .inr waiting

/-- From a found state, silent transitions stay among the found ones or pass through the
stack. -/
theorem Searching.reached {seen : Array Bool} {found stack : List Nat} {s t : Nat}
    (searching : nfa.Searching seen found stack) (known : s ∈ found)
    (reach : ReflTransGen nfa.Silent s t) :
    t ∈ found ∨ ∃ r ∈ stack, r < nfa.states.size ∧ ReflTransGen nfa.Silent r t := by
  induction reach using ReflTransGen.head_induction_on with
  | refl => exact .inl known
  | @head s u silent rest ih =>
    rcases searching.pending s known u silent with found | waiting
    · exact ih found
    · exact .inr ⟨u, waiting, silent.2, rest⟩

/-- Dropping such a state takes nothing out of reach. -/
theorem Searching.reached_drop {seen : Array Bool} {found stack : List Nat} {s t : Nat}
    (searching : nfa.Searching seen found (s :: stack))
    (settled : s < nfa.states.size → s ∈ found) :
    (t ∈ found ∨ ∃ r ∈ stack, r < nfa.states.size ∧ ReflTransGen nfa.Silent r t) ↔
      t ∈ found ∨ ∃ r ∈ s :: stack, r < nfa.states.size ∧ ReflTransGen nfa.Silent r t := by
  constructor
  · rintro (known | ⟨r, waiting, reach⟩)
    · exact .inl known
    · exact .inr ⟨r, List.mem_cons_of_mem s waiting, reach⟩
  · rintro (known | ⟨r, waiting, bound, reach⟩)
    · exact .inl known
    · cases List.mem_cons.1 waiting with
      | inl same =>
        subst same
        exact (searching.drop settled).reached (settled bound) reach
      | inr waiting => exact .inr ⟨r, waiting, bound, reach⟩

/-- The search adds to the found states what silent transitions reach from the stack. -/
theorem mem_reach {seen : Array Bool} {found stack : List Nat}
    (searching : nfa.Searching seen found stack) (t : Nat) :
    t ∈ nfa.reach seen found stack ↔
      t ∈ found ∨ ∃ r ∈ stack, r < nfa.states.size ∧ ReflTransGen nfa.Silent r t := by
  fun_induction reach nfa seen found stack with
  | case1 => simp
  | case2 seen found s rest inside unseen ih =>
    have bound : s < nfa.states.size := searching.size_eq ▸ inside
    rw [ih (searching.mark inside unseen), List.mem_cons]
    -- What `s` reaches is `s`, or is reached from a state that `s` puts on the stack.
    constructor
    · rintro ((rfl | known) | ⟨r, waiting, bounded, reach⟩)
      · exact .inr ⟨t, List.mem_cons_self, bound, .refl⟩
      · exact .inl known
      · rcases List.mem_append.1 waiting with next | waiting
        · exact .inr ⟨s, List.mem_cons_self, bound, .head ⟨next, bounded⟩ reach⟩
        · exact .inr ⟨r, List.mem_cons_of_mem s waiting, bounded, reach⟩
    · rintro (known | ⟨r, waiting, bounded, reach⟩)
      · exact .inl (.inr known)
      · rcases List.mem_cons.1 waiting with rfl | waiting
        · rcases reach.cases_head with rfl | ⟨u, silent, rest⟩
          · exact .inl (.inl rfl)
          · exact .inr ⟨u, List.mem_append_left _ silent.1, silent.2, rest⟩
        · exact .inr ⟨r, List.mem_append_right _ waiting, bounded, reach⟩
  | case3 seen found s rest inside marked ih =>
    have known : s ∈ found := by
      rw [searching.marked s, Array.getElem?_eq_getElem inside]
      simpa using marked
    rw [ih (searching.drop fun _ => known)]
    exact searching.reached_drop fun _ => known
  | case4 seen found s rest outside ih =>
    have noState : ¬ s < nfa.states.size := searching.size_eq ▸ outside
    rw [ih (searching.drop fun bound => absurd bound noState)]
    exact searching.reached_drop fun bound => absurd bound noState

theorem nodup_reach {seen : Array Bool} {found stack : List Nat}
    (searching : nfa.Searching seen found stack) : (nfa.reach seen found stack).Nodup := by
  fun_induction reach nfa seen found stack with
  | case1 => exact searching.nodup
  | case2 seen found s rest inside unseen ih => exact ih (searching.mark inside unseen)
  | case3 seen found s rest inside marked ih =>
    refine ih (searching.drop fun _ => ?_)
    rw [searching.marked s, Array.getElem?_eq_getElem inside]
    simpa using marked
  | case4 seen found s rest outside ih =>
    exact ih (searching.drop fun bound => absurd bound (searching.size_eq ▸ outside))

theorem searching_start (nfa : Nfa) (set : List Nat) :
    nfa.Searching (Array.replicate nfa.states.size false) [] set where
  size_eq := Array.size_replicate
  marked s := by simp [Array.getElem?_replicate]
  nodup := List.nodup_nil
  pending s known := absurd known List.not_mem_nil

/-- The closure of a set is what silent transitions reach from its states. -/
theorem mem_closure {set : List Nat} {t : Nat} :
    t ∈ nfa.closure set ↔ ∃ r ∈ set, r < nfa.states.size ∧ ReflTransGen nfa.Silent r t := by
  rw [closure, List.mem_mergeSort, mem_reach (searching_start nfa set)]
  simp

theorem closure_sorted (nfa : Nfa) (set : List Nat) : (nfa.closure set).Pairwise (· < ·) := by
  have ascending : (nfa.closure set).Pairwise fun s t => decide (s ≤ t) = true :=
    List.pairwise_mergeSort (by simpa using fun s t u => Nat.le_trans)
      (by simpa using Nat.le_total) _
  have distinct : (nfa.closure set).Nodup :=
    (List.mergeSort_perm _ _).nodup_iff.2 (nodup_reach (searching_start nfa set))
  refine (ascending.and distinct).imp ?_
  intro s t both
  exact Nat.lt_of_le_of_ne (of_decide_eq_true both.1) both.2

theorem lt_size_of_reach {s t : Nat} (bound : s < nfa.states.size)
    (reach : ReflTransGen nfa.Silent s t) : t < nfa.states.size := by
  rcases reach.cases_tail with rfl | ⟨_, _, silent⟩
  · exact bound
  · exact silent.2

theorem lt_size_of_mem_closure {set : List Nat} {t : Nat} (member : t ∈ nfa.closure set) :
    t < nfa.states.size := by
  obtain ⟨r, _, bound, reach⟩ := mem_closure.1 member
  exact lt_size_of_reach bound reach

/-! ## Paths -/

/-- The paths from a state that read a string, to the state they end in. -/
inductive Path (nfa : Nfa) : Nat → List UInt8 → Nat → Prop where
  | refl (s : Nat) : Path nfa s [] s
  | silent {s t u : Nat} {w : List UInt8} :
      nfa.Silent s t → Path nfa t w u → Path nfa s w u
  | read {s t u : Nat} {b : UInt8} {w : List UInt8} :
      nfa.Reads s b t → Path nfa t w u → Path nfa s (b :: w) u

theorem Path.trans {s t u : Nat} {v w : List UInt8} (first : nfa.Path s v t)
    (second : nfa.Path t w u) : nfa.Path s (v ++ w) u := by
  induction first with
  | refl s => exact second
  | silent step _ ih => exact .silent step (ih second)
  | read step _ ih => exact .read step (ih second)

theorem Path.of_silent {s t : Nat} (step : nfa.Silent s t) : nfa.Path s [] t :=
  .silent step (.refl t)

theorem Path.of_reach {s t u : Nat} {w : List UInt8} (reach : ReflTransGen nfa.Silent s t)
    (path : nfa.Path t w u) : nfa.Path s w u := by
  induction reach using ReflTransGen.head_induction_on with
  | refl => exact path
  | head silent _ ih => exact .silent silent ih

/-- A path that reads nothing is a chain of silent transitions. -/
theorem path_nil {s t : Nat} : nfa.Path s [] t ↔ ReflTransGen nfa.Silent s t := by
  constructor
  · intro path
    -- The induction on the path needs its string as a variable.
    generalize empty : ([] : List UInt8) = w at path
    induction path with
    | refl s => exact .refl
    | silent step _ ih => exact .head step (ih empty)
    | read => cases empty
  · intro reach
    exact .of_reach reach (.refl t)

/-- A path that reads a byte goes silently to a state that reads it. -/
theorem path_cons {s u : Nat} {b : UInt8} {w : List UInt8} :
    nfa.Path s (b :: w) u ↔
      ∃ r t, ReflTransGen nfa.Silent s r ∧ nfa.Reads r b t ∧ nfa.Path t w u := by
  constructor
  · intro path
    generalize text : b :: w = v at path
    induction path with
    | refl s => cases text
    | silent step _ ih =>
      obtain ⟨r, t, reach, reads, rest⟩ := ih text
      exact ⟨r, t, .head step reach, reads, rest⟩
    | @read s t u c v step rest ih =>
      cases text
      exact ⟨s, t, .refl, step, rest⟩
  · rintro ⟨r, t, reach, reads, rest⟩
    exact .of_reach reach (.read reads rest)

/-! ## Runs on sets -/

/-- The set of states after a string. -/
def run (nfa : Nfa) (w : List UInt8) : List Nat := w.foldl nfa.step nfa.initial

@[simp] theorem run_nil (nfa : Nfa) : nfa.run [] = nfa.initial := rfl

theorem run_append_singleton (nfa : Nfa) (w : List UInt8) (b : UInt8) :
    nfa.run (w ++ [b]) = nfa.step (nfa.run w) b := by
  simp [run]

/-- No set of states after a byte holds a start that is entered by no transition. -/
theorem StartApart.not_mem_step (apart : nfa.StartApart) (set : List Nat) (b : UInt8) :
    start ∉ nfa.step set b := by
  intro member
  obtain ⟨r, target, bound, reach⟩ := mem_closure.1 member
  rcases reach.cases_tail with rfl | ⟨u, _, silent⟩
  · obtain ⟨s, _, edge⟩ := List.mem_flatMap.1 target
    exact apart.reads s b ⟨edge, bound⟩
  · exact apart.silent u silent

/-- From the closure of a set, a run arrives where the paths from its states end. -/
theorem mem_foldl_step {set : List Nat} {w : List UInt8} {t : Nat} :
    t ∈ w.foldl nfa.step (nfa.closure set) ↔
      ∃ r ∈ set, r < nfa.states.size ∧ nfa.Path r w t := by
  -- A step takes the closure again, so the hypothesis applies to the set of the targets.
  induction w generalizing set with
  | nil => simp only [List.foldl_nil, mem_closure, path_nil]
  | cons b w ih =>
    rw [List.foldl_cons, step, ih]
    constructor
    · rintro ⟨u, target, bound, path⟩
      obtain ⟨s, member, edge⟩ := List.mem_flatMap.1 target
      obtain ⟨r, origin, bounded, reach⟩ := mem_closure.1 member
      exact ⟨r, origin, bounded, path_cons.2 ⟨s, u, reach, ⟨edge, bound⟩, path⟩⟩
    · rintro ⟨r, origin, bounded, path⟩
      obtain ⟨s, u, reach, ⟨edge, bound⟩, rest⟩ := path_cons.1 path
      exact ⟨u, List.mem_flatMap.2 ⟨s, mem_closure.2 ⟨r, origin, bounded, reach⟩, edge⟩,
        bound, rest⟩

/-- A state is in the set after a string exactly if a path from the start reads the string and
ends there. -/
theorem mem_run (nonempty : 0 < nfa.states.size) {w : List UInt8} {t : Nat} :
    t ∈ nfa.run w ↔ nfa.Path start w t := by
  rw [run, initial, mem_foldl_step]
  constructor
  · rintro ⟨r, member, _, path⟩
    rw [List.mem_singleton] at member
    exact member ▸ path
  · intro path
    exact ⟨start, List.mem_singleton_self start, nonempty, path⟩

theorem mem_accepting {set : List Nat} {token : Nat} :
    token ∈ nfa.accepting set ↔ ∃ s ∈ set, (nfa.state s).token = some token := by
  simp [accepting]

end ScannerGen.Nfa
