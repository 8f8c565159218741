import Mathlib.Data.Finset.Powerset
import Mathlib.Data.List.Sort
import ScannerGen.Automaton.Subset
import ScannerGen.Proofs.Automaton.Deterministic
import ScannerGen.Proofs.Automaton.Runs

/-!
# The subset construction

The deterministic automaton runs in step with the nondeterministic one: the state after a string
stands for the set of states after it.

* `explore_spec`, `explore_complete` — an exploration numbers the successors of what it expanded,
  and given enough fuel it expands everything it knows.
* `Nfa.length_le_of_sorted` — there are no more ascending lists of states than subsets, which is
  why the fuel of the construction is enough.
* `Nfa.values_run` — the set that the state after a string stands for.
* `Nfa.token?_run` — the winner after a string that is not empty.
-/

namespace ScannerGen

/-! ## Explorations -/

section Exploration

variable {α : Type} [BEq α] [Hashable α] [LawfulBEq α] [LawfulHashable α]

/-- The row of an expanded value lists the numbers of its successors. -/
structure Explored (successors : α → List α) (found : Exploration α) : Prop where
  rows_le : found.rows.size ≤ found.known.values.size
  rows_agree : ∀ (d : Nat) (row : List Nat) (x : α), found.rows[d]? = some row →
    found.known.values[d]? = some x →
      row.map (fun i => found.known.values[i]?) = (successors x).map some

variable {successors : α → List α}

theorem Explored.expand {found : Exploration α} (explored : Explored successors found)
    (inside : found.rows.size < found.known.values.size) :
    Explored successors
      ⟨(found.known.numberAll (successors found.known.values[found.rows.size])).2,
        found.rows.push (found.known.numberAll (successors found.known.values[found.rows.size])).1⟩ where
  rows_le := by
    obtain ⟨grows, _, _⟩ := found.known.numberAll_spec (successors found.known.values[found.rows.size])
    have known := grows _ _ (Array.getElem?_eq_getElem inside)
    rw [Array.size_push]
    exact (Array.getElem?_eq_some_iff.1 known).1
  rows_agree d row x place value := by
    obtain ⟨grows, agree, _⟩ :=
      found.known.numberAll_spec (successors found.known.values[found.rows.size])
    rw [Array.getElem?_push] at place
    split at place
    · -- The new row is about the value that has just been expanded.
      next last =>
      subst last
      have known := grows _ _ (Array.getElem?_eq_getElem inside)
      rw [value, Option.some.injEq] at known
      rw [Option.some.injEq] at place
      rw [known, ← place]
      exact agree
    · -- An older row is about a value whose number, like those in the row, has not changed.
      have bound := (Array.getElem?_eq_some_iff.1 place).1
      have earlier : d < found.known.values.size := Nat.lt_of_lt_of_le bound explored.rows_le
      have known := grows _ _ (Array.getElem?_eq_getElem earlier)
      rw [value, Option.some.injEq] at known
      rw [known]
      exact grows.map_eq (explored.rows_agree d row _ place (Array.getElem?_eq_getElem earlier))

/-- An exploration keeps the numbers it begins with, and its rows are right. -/
theorem explore_spec (fuel : Nat) {found : Exploration α} (explored : Explored successors found) :
    found.known.Extends (explore successors fuel found).known ∧
      Explored successors (explore successors fuel found) := by
  induction fuel generalizing found with
  | zero => exact ⟨.refl _, explored⟩
  | succ fuel ih =>
    rw [explore]
    split
    · next inside =>
      obtain ⟨grows, _, _⟩ :=
        found.known.numberAll_spec (successors found.known.values[found.rows.size])
      obtain ⟨growsMore, result⟩ := ih (explored.expand inside)
      exact ⟨grows.trans growsMore, result⟩
    · exact ⟨.refl _, explored⟩

/-- What holds of the values at the start and is passed on to successors holds of all values. -/
theorem explore_all {p : α → Prop} (passed : ∀ x, p x → ∀ y ∈ successors x, p y) (fuel : Nat)
    {found : Exploration α} (all : ∀ x ∈ found.known.values, p x) :
    ∀ x ∈ (explore successors fuel found).known.values, p x := by
  induction fuel generalizing found with
  | zero => exact all
  | succ fuel ih =>
    rw [explore]
    split
    · next inside =>
      apply ih
      intro x member
      obtain ⟨_, _, only⟩ :=
        found.known.numberAll_spec (successors found.known.values[found.rows.size])
      rcases only x member with known | next
      · exact all x known
      · exact passed _ (all _ (Array.getElem_mem inside)) x next
    · exact all

/-- Where the values are of a kind of which there are few, everything known is expanded. -/
theorem explore_complete {p : α → Prop} (passed : ∀ x, p x → ∀ y ∈ successors x, p y) {limit : Nat}
    (few : ∀ known : Numbering α, (∀ x ∈ known.values, p x) → known.values.size ≤ limit)
    (fuel : Nat) {found : Exploration α} (all : ∀ x ∈ found.known.values, p x)
    (explored : Explored successors found) (enough : limit ≤ fuel + found.rows.size) :
    (explore successors fuel found).rows.size =
      (explore successors fuel found).known.values.size := by
  -- Each round makes one row more, and there are no more rows than values.
  induction fuel generalizing found with
  | zero =>
    have := few found.known all
    have := explored.rows_le
    rw [explore]
    omega
  | succ fuel ih =>
    rw [explore]
    split
    · next inside =>
      apply ih
      · have every := explore_all passed 1 all
        rwa [explore, dif_pos inside] at every
      · exact explored.expand inside
      · rw [Array.size_push]
        omega
    · have := explored.rows_le
      omega

end Exploration

namespace Nfa

variable {nfa : Nfa}

/-! ## Sets of states as lists -/

/-- The ascending lists of states. -/
def SortedSet (nfa : Nfa) (set : List Nat) : Prop :=
  set.Pairwise (· < ·) ∧ ∀ s ∈ set, s < nfa.states.size

theorem sortedSet_closure (nfa : Nfa) (set : List Nat) : nfa.SortedSet (nfa.closure set) :=
  ⟨closure_sorted nfa set, fun _ => lt_size_of_mem_closure⟩

theorem length_le_of_sorted {sets : List (List Nat)} (distinct : sets.Nodup)
    (sorted : ∀ set ∈ sets, nfa.SortedSet set) : sets.length ≤ 2 ^ nfa.states.size := by
  -- An ascending list is determined by its members.
  have injective : Set.InjOn List.toFinset {set | nfa.SortedSet set} := by
    intro set₁ sorted₁ set₂ sorted₂ same
    refine sorted₁.1.eq_of_mem_iff sorted₂.1 fun s => ?_
    rw [← List.mem_toFinset, same, List.mem_toFinset]
  have subsets : sets.toFinset.image List.toFinset ⊆ (Finset.range nfa.states.size).powerset := by
    intro subset member
    obtain ⟨set, listed, rfl⟩ := Finset.mem_image.1 member
    refine Finset.mem_powerset.2 fun s inside => Finset.mem_range.2 ?_
    exact (sorted set (List.mem_toFinset.1 listed)).2 s (List.mem_toFinset.1 inside)
  calc sets.length = sets.toFinset.card := (List.toFinset_card_of_nodup distinct).symm
    _ = (sets.toFinset.image List.toFinset).card := by
        refine (Finset.card_image_of_injOn (injective.mono fun set listed => ?_)).symm
        exact sorted set (List.mem_toFinset.1 listed)
    _ ≤ (Finset.range nfa.states.size).powerset.card := Finset.card_le_card subsets
    _ = 2 ^ nfa.states.size := by rw [Finset.card_powerset, Finset.card_range]

/-! ## Bytes of one class -/

theorem mem_labels {s target : Nat} {bytes : ByteSet} (inside : s < nfa.states.size)
    (edge : (bytes, target) ∈ (nfa.state s).edges) : bytes ∈ nfa.labels := by
  rw [labels, Array.mem_toList_iff]
  apply Numbering.mem_values_numberAll
  refine List.mem_flatMap.2 ⟨nfa.states[s], Array.mem_toList_iff.2 (Array.getElem_mem inside), ?_⟩
  rw [state, Array.getD_eq_getD_getElem?, Array.getElem?_eq_getElem inside] at edge
  exact List.mem_map.2 ⟨_, edge, rfl⟩

/-- Bytes that no label tells apart lead from a state to the same states. -/
theorem targets_congr {b c : UInt8}
    (same : nfa.labels.map (fun label => label.contains b) =
      nfa.labels.map fun label => label.contains c) (s : Nat) :
    nfa.targets b s = nfa.targets c s := by
  rw [targets, targets]
  apply List.filterMap_congr
  intro edge member
  by_cases inside : s < nfa.states.size
  · have equal := List.map_inj_left.1 same edge.1 (mem_labels inside member)
    rw [equal]
  · rw [state, Array.getD_eq_getD_getElem?, Array.getElem?_eq_none (by omega)] at member
    cases member

theorem step_congr {b c : UInt8}
    (same : nfa.labels.map (fun label => label.contains b) =
      nfa.labels.map fun label => label.contains c) (set : List Nat) :
    nfa.step set b = nfa.step set c := by
  rw [step, step, funext (targets_congr same)]

/-- Each byte has a representative that leads everywhere to the same sets. -/
theorem exists_representative (nfa : Nfa) (b : UInt8) :
    ∃ r, nfa.byteClasses.representatives[nfa.byteClasses.get b]? = some r ∧
      ∀ set, nfa.step set r = nfa.step set b := by
  obtain ⟨r, found, same⟩ := ByteClasses.exists_representative
    (fun b => nfa.labels.map fun label => label.contains b) b
  exact ⟨r, found, step_congr same⟩

/-! ## The explored sets -/

/-- The sets of states that the construction numbers. -/
def explored (nfa : Nfa) : Exploration (List Nat) := nfa.subsets nfa.byteClasses

/-- The successors of a set, one for each class of bytes. -/
def successors (nfa : Nfa) (set : List Nat) : List (List Nat) :=
  nfa.byteClasses.representatives.map (nfa.step set)

/-- The numbering that the construction begins with: the empty set and the set before any byte. -/
def seeds (nfa : Nfa) : Numbering (List Nat) :=
  ((Numbering.empty.number []).2.number nfa.initial).2

theorem explored_eq (nfa : Nfa) :
    nfa.explored = explore nfa.successors (2 ^ nfa.states.size + 1) ⟨nfa.seeds, #[]⟩ := rfl

theorem start_mem_initial (nonempty : 0 < nfa.states.size) : start ∈ nfa.initial :=
  mem_closure.2 ⟨start, List.mem_singleton_self start, nonempty, .refl⟩

theorem values_seeds (nonempty : 0 < nfa.states.size) :
    nfa.seeds.values = #[[], nfa.initial] := by
  have first : (Numbering.empty.number ([] : List Nat)).2.values = #[[]] :=
    Numbering.values_number_of_fresh (by simp [Numbering.empty])
  have fresh : nfa.initial ∉ (Numbering.empty.number ([] : List Nat)).2.values := by
    rw [first, Array.mem_singleton]
    exact List.ne_nil_of_mem (start_mem_initial nonempty)
  rw [seeds, Numbering.values_number_of_fresh fresh, first]
  rfl

theorem sortedSet_seeds (nonempty : 0 < nfa.states.size) :
    ∀ set ∈ nfa.seeds.values, nfa.SortedSet set := by
  intro set member
  rw [values_seeds nonempty] at member
  simp only [List.mem_toArray, List.mem_cons, List.not_mem_nil, or_false] at member
  rcases member with rfl | rfl
  · exact ⟨.nil, fun s absent => absurd absent List.not_mem_nil⟩
  · exact sortedSet_closure nfa [start]

theorem sortedSet_successors (set : List Nat) : ∀ next ∈ nfa.successors set, nfa.SortedSet next := by
  intro next member
  obtain ⟨b, _, rfl⟩ := List.mem_map.1 member
  exact sortedSet_closure nfa _

theorem size_le_of_sortedSet (known : Numbering (List Nat))
    (sorted : ∀ set ∈ known.values, nfa.SortedSet set) : known.values.size ≤ 2 ^ nfa.states.size := by
  rw [← Array.length_toList]
  exact length_le_of_sorted known.nodup_values fun set member =>
    sorted set (Array.mem_toList_iff.1 member)

theorem size_explored_le (nonempty : 0 < nfa.states.size) :
    nfa.explored.known.values.size ≤ 2 ^ nfa.states.size := by
  refine size_le_of_sortedSet _ ?_
  rw [explored_eq]
  exact explore_all (fun set _ => sortedSet_successors set) _ (sortedSet_seeds nonempty)

/-- The rows of the sets are right, all of them are there, and the first two sets are known. -/
theorem explored_spec (nonempty : 0 < nfa.states.size) :
    Explored nfa.successors nfa.explored ∧
      nfa.explored.rows.size = nfa.explored.known.values.size ∧
      nfa.explored.known.values[Dfa.rejectId]? = some [] ∧
      nfa.explored.known.values[Dfa.startId]? = some nfa.initial := by
  have begun : Explored nfa.successors ⟨nfa.seeds, #[]⟩ :=
    ⟨Nat.zero_le _, fun d row x place => by simp at place⟩
  rw [explored_eq]
  obtain ⟨grows, right⟩ := explore_spec (2 ^ nfa.states.size + 1) begun
  refine ⟨right, ?_, grows _ _ ?_, grows _ _ ?_⟩
  · exact explore_complete (fun set _ => sortedSet_successors set) size_le_of_sortedSet _
      (sortedSet_seeds nonempty) begun (by omega)
  · rw [values_seeds nonempty]
    rfl
  · rw [values_seeds nonempty]
    rfl

/-- The number that a row has for a byte is that of the set after the byte. -/
theorem explored_row (nonempty : 0 < nfa.states.size) {d : Nat} {row set : List Nat}
    (place : nfa.explored.rows[d]? = some row) (value : nfa.explored.known.values[d]? = some set)
    (b : UInt8) :
    ∃ i, row[nfa.byteClasses.get b]? = some i ∧
      nfa.explored.known.values[i]? = some (nfa.step set b) := by
  obtain ⟨r, found, same⟩ := nfa.exists_representative b
  have agree := (explored_spec nonempty).1.rows_agree d row set place value
  have entry := congrArg (·[nfa.byteClasses.get b]?) agree
  simp only [List.getElem?_map, successors, found, Option.map_some, same,
    Option.map_eq_some_iff] at entry
  exact entry

/-! ## The deterministic automaton -/

variable (rank : Nat → Nat)

theorem getElem?_states_determinize (nfa : Nfa) (d : Nat) :
    (nfa.determinize rank).dfa.states[d]? = nfa.explored.rows[d]?.map fun row =>
      { successors := nfa.byteClasses.classOf.map fun c => row.toArray.getD c Dfa.rejectId
        token :=
          if d = Dfa.startId then none
          else ((nfa.explored.known.values.map (nfa.candidates rank)).getD d []).head? } := by
  simp only [determinize, Array.getElem?_mapIdx]
  rfl

theorem size_determinize (nonempty : 0 < nfa.states.size) :
    (nfa.determinize rank).dfa.size = nfa.explored.known.values.size := by
  rw [← (explored_spec nonempty).2.1]
  simp only [Dfa.size, determinize, Array.size_mapIdx]
  rfl

theorem next_determinize (nonempty : 0 < nfa.states.size) {d : Nat} {set : List Nat}
    (value : nfa.explored.known.values[d]? = some set) (b : UInt8) :
    nfa.explored.known.values[(nfa.determinize rank).dfa.next d b]? = some (nfa.step set b) := by
  have inside : d < nfa.explored.rows.size := by
    rw [(explored_spec nonempty).2.1]
    exact (Array.getElem?_eq_some_iff.1 value).1
  have place : nfa.explored.rows[d]? = some nfa.explored.rows[d] := Array.getElem?_eq_getElem inside
  obtain ⟨i, entry, found⟩ := explored_row nonempty place value b
  have next : (nfa.determinize rank).dfa.next d b = i := by
    rw [Dfa.next, getElem?_states_determinize, place, Option.map_some]
    simp only [Dfa.State.next]
    rw [vector_get_map, ← ByteClasses.get, Array.getD_eq_getD_getElem?, List.getElem?_toArray, entry,
      Option.getD_some]
  rw [next]
  exact found

/-- The winner of a state is the best token accepted in its set, except in the start state. -/
theorem token?_determinize (nonempty : 0 < nfa.states.size) {d : Nat} {set : List Nat}
    (value : nfa.explored.known.values[d]? = some set) :
    (nfa.determinize rank).dfa.token? d =
      if d = Dfa.startId then none else (nfa.candidates rank set).head? := by
  have inside : d < nfa.explored.rows.size := by
    rw [(explored_spec nonempty).2.1]
    exact (Array.getElem?_eq_some_iff.1 value).1
  rw [Dfa.token?, getElem?_states_determinize, Array.getElem?_eq_getElem inside, Option.map_some,
    Option.bind_some]
  simp only [Array.getD_eq_getD_getElem?, Array.getElem?_map, value, Option.map_some,
    Option.getD_some]

/-- The state after a string stands for the set after it. -/
theorem values_run (nonempty : 0 < nfa.states.size) (w : List UInt8) :
    nfa.explored.known.values[(nfa.determinize rank).dfa.run w]? = some (nfa.run w) := by
  induction w using List.reverseRecOn with
  | nil => exact (explored_spec nonempty).2.2.2
  | append_singleton w b ih =>
    rw [Dfa.run_append_singleton, run_append_singleton]
    exact next_determinize rank nonempty ih b

/-! ## Winners -/

/-- A token is the best of a set. -/
def Best (nfa : Nfa) (rank : Nat → Nat) (set : List Nat) (token : Nat) : Prop :=
  token ∈ nfa.accepting set ∧ ∀ other ∈ nfa.accepting set, ranksBefore rank token other

theorem ranksBefore_iff {t u : Nat} :
    ranksBefore rank t u ↔ rank t < rank u ∨ rank t = rank u ∧ t ≤ u := by
  simp [ranksBefore]

theorem ranksBefore_trans (t u v : Nat) (first : ranksBefore rank t u)
    (second : ranksBefore rank u v) : ranksBefore rank t v := by
  rw [ranksBefore_iff] at *
  omega

theorem ranksBefore_total (t u : Nat) : ranksBefore rank t u || ranksBefore rank u t := by
  rw [Bool.or_eq_true, ranksBefore_iff, ranksBefore_iff]
  omega

theorem ranksBefore_antisymm {t u : Nat} (first : ranksBefore rank t u)
    (second : ranksBefore rank u t) : t = u := by
  rw [ranksBefore_iff] at *
  omega

theorem head?_eraseRepsBy_loop {α : Type} (r : α → α → Bool) (a : α) (as : List α) (acc : List α) :
    (List.eraseRepsBy.loop r a as acc).head? = (acc.reverse ++ [a]).head? := by
  induction as generalizing a acc with
  | nil => rw [List.eraseRepsBy.loop, List.reverse_cons]
  | cons b bs ih =>
    rw [List.eraseRepsBy.loop]
    cases r a b with
    | true => exact ih a acc
    | false =>
      rw [ih b, List.reverse_cons]
      cases acc.reverse with
      | nil => rfl
      | cons c cs => rfl

theorem head?_eraseReps {α : Type} [BEq α] (as : List α) : as.eraseReps.head? = as.head? := by
  cases as with
  | nil => rfl
  | cons a as => exact head?_eraseRepsBy_loop _ a as []

theorem mem_eraseRepsBy_loop {α : Type} [BEq α] [LawfulBEq α] {x a : α} {as acc : List α} :
    x ∈ List.eraseRepsBy.loop (· == ·) a as acc ↔ x ∈ acc ∨ x ∈ a :: as := by
  induction as generalizing a acc with
  | nil => rw [List.eraseRepsBy.loop, List.mem_reverse, List.mem_cons, or_comm, List.mem_singleton]
  | cons b bs ih =>
    rw [List.eraseRepsBy.loop]
    cases same : a == b with
    | true =>
      rw [ih, eq_of_beq same]
      simp
    | false =>
      rw [ih, List.mem_cons, List.mem_cons, List.mem_cons, List.mem_cons, @or_comm (x = a), or_assoc]

theorem mem_eraseReps {α : Type} [BEq α] [LawfulBEq α] {x : α} {as : List α} :
    x ∈ as.eraseReps ↔ x ∈ as := by
  cases as with
  | nil => rfl
  | cons a as => exact mem_eraseRepsBy_loop.trans (or_iff_right List.not_mem_nil)

theorem mem_candidates {set : List Nat} {token : Nat} :
    token ∈ nfa.candidates rank set ↔ token ∈ nfa.accepting set := by
  rw [candidates, mem_eraseReps, List.mem_mergeSort]

/-- The first of the candidates of a set is the best of the set. -/
theorem head?_candidates {set : List Nat} {token : Nat} :
    (nfa.candidates rank set).head? = some token ↔ nfa.Best rank set token := by
  rw [candidates, head?_eraseReps, Best]
  have sorted := List.pairwise_mergeSort (ranksBefore_trans rank) (ranksBefore_total rank)
    (nfa.accepting set)
  have members : ∀ t, t ∈ (nfa.accepting set).mergeSort (ranksBefore rank) ↔
      t ∈ nfa.accepting set := fun t => List.mem_mergeSort
  cases listed : (nfa.accepting set).mergeSort (ranksBefore rank) with
  | nil =>
    rw [listed] at members
    simp only [List.head?_nil, reduceCtorEq, ← members, List.not_mem_nil, false_and]
  | cons first others =>
    rw [listed] at members sorted
    have least := (List.pairwise_cons.1 sorted).1
    rw [List.head?_cons, Option.some.injEq]
    constructor
    · rintro rfl
      refine ⟨(members _).1 List.mem_cons_self, fun other accepted => ?_⟩
      rcases List.mem_cons.1 ((members other).2 accepted) with rfl | later
      · exact (ranksBefore_iff rank).2 (.inr ⟨rfl, Nat.le_refl _⟩)
      · exact least other later
    · rintro ⟨accepted, best⟩
      rcases List.mem_cons.1 ((members token).2 accepted) with rfl | later
      · rfl
      · exact ranksBefore_antisymm rank (least token later)
          (best first ((members first).1 List.mem_cons_self))

theorem head?_candidates_eq_none {set : List Nat} :
    (nfa.candidates rank set).head? = none ↔ nfa.accepting set = [] := by
  rw [candidates, head?_eraseReps, List.head?_eq_none_iff, ← List.length_eq_zero_iff,
    List.length_mergeSort, List.length_eq_zero_iff]

/-! ## Runs of the deterministic automaton -/

theorem step_nil (nfa : Nfa) (b : UInt8) : nfa.step [] b = [] := by
  refine List.eq_nil_iff_forall_not_mem.2 fun s member => ?_
  obtain ⟨seed, listed, _⟩ := mem_closure.1 member
  cases listed

theorem wellFormed_determinize (nonempty : 0 < nfa.states.size) :
    (nfa.determinize rank).dfa.WellFormed := by
  obtain ⟨_, _, reject, start⟩ := explored_spec nonempty
  have size := size_determinize rank nonempty
  refine ⟨?_, ?_, Nat.one_ne_zero, fun d inside b => ?_, fun b => ?_, ?_⟩
  · rw [size]
    exact (Array.getElem?_eq_some_iff.1 start).1
  · rw [size]
    exact (Array.getElem?_eq_some_iff.1 reject).1
  · rw [size] at inside ⊢
    have next := next_determinize rank nonempty (Array.getElem?_eq_getElem inside) b
    exact (Array.getElem?_eq_some_iff.1 next).1
  · have next := next_determinize rank nonempty reject b
    rw [step_nil] at next
    exact Numbering.number_unique next reject
  · have token := token?_determinize rank nonempty reject
    rw [candidates, head?_eraseReps, accepting, List.filterMap_nil, List.mergeSort_nil,
      List.head?_nil, ite_self] at token
    exact token

/-- Where nothing leads back to the start, no string but the empty one leads to the start state. -/
theorem run_ne_startId (nonempty : 0 < nfa.states.size) (apart : nfa.StartApart) {w : List UInt8}
    (read : w ≠ []) : (nfa.determinize rank).dfa.run w ≠ Dfa.startId := by
  -- Otherwise the set after the string would be the initial one, which holds the start.
  intro atStart
  have value := values_run rank nonempty w
  rw [atStart, (explored_spec nonempty).2.2.2, Option.some.injEq] at value
  have inside := start_mem_initial nonempty
  obtain ⟨before, b, rfl⟩ := List.eq_nil_or_concat' w |>.resolve_left read
  rw [value, run_append_singleton] at inside
  exact apart.not_mem_step _ _ inside

/-- The winner after a string that is not empty is then the first candidate of the set after it. -/
theorem token?_run (nonempty : 0 < nfa.states.size) (apart : nfa.StartApart) {w : List UInt8}
    (read : w ≠ []) :
    (nfa.determinize rank).dfa.token? ((nfa.determinize rank).dfa.run w) =
      (nfa.candidates rank (nfa.run w)).head? := by
  rw [token?_determinize rank nonempty (values_run rank nonempty w),
    if_neg (run_ne_startId rank nonempty apart read)]

/-! ## Candidates -/

/-- The candidates that are kept for a state are those of its set. -/
theorem candidates_determinize {d : Nat} {set : List Nat}
    (value : nfa.explored.known.values[d]? = some set) :
    (nfa.determinize rank).candidates.getD d [] = nfa.candidates rank set := by
  rw [Array.getD_eq_getD_getElem?]
  show ((nfa.explored.known.values.map (nfa.candidates rank))[d]?).getD [] = _
  rw [Array.getElem?_map, value, Option.map_some, Option.getD_some]

end Nfa

end ScannerGen
