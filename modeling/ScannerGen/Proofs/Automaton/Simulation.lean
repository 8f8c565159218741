import ScannerGen.Proofs.Automaton.Order
import ScannerGen.Proofs.Automaton.Recognition

/-!
# Deterministic simulation

The subset construction comes to an end, and the automaton that it makes does what the
nondeterministic one does: its states are sets of states, no two of them the same set, and it keeps
for each of them the tokens that are accepted there, best first.  Taking the winner away from the
start state loses the empty match and nothing else, since nothing leads back to the start.

* `ExploresTo` — the rounds of an exploration, which end whatever the automaton.
* `Ranking` — a list without repetition, ordered by rank and then by number; `ranking_candidates`.
* `Pattern.raiseCounts` — trees whose greatest counts are below the least ones are compiled as if
  both were the same, so what holds of ordered counts holds of all trees.
* `Nfa.Simulation`, `Nfa.simulation_determinize` — all of it, for any trees and ranks.
-/

namespace ScannerGen

/-! ## The rounds of an exploration -/

section Exploration

variable {α : Type} [BEq α] [Hashable α] [LawfulBEq α] [LawfulHashable α]

/-- Exploring ends with a result: what is known is expanded, one value a round, until every value
has its row. -/
inductive ExploresTo (successors : α → List α) : Exploration α → Exploration α → Prop
  | done {found : Exploration α} (all : found.known.values.size ≤ found.rows.size) :
    ExploresTo successors found found
  | expand {found final : Exploration α} (inside : found.rows.size < found.known.values.size)
    (others : ExploresTo successors
      ⟨(found.known.numberAll (successors found.known.values[found.rows.size])).2,
        found.rows.push (found.known.numberAll (successors found.known.values[found.rows.size])).1⟩
      final) :
    ExploresTo successors found final

/-- An exploration that has expanded everything was not cut short. -/
theorem exploresTo_explore {successors : α → List α} (fuel : Nat) {found : Exploration α}
    (complete : (explore successors fuel found).known.values.size ≤
      (explore successors fuel found).rows.size) :
    ExploresTo successors found (explore successors fuel found) := by
  -- Out of fuel, only the hypothesis tells that nothing is left to expand.
  induction fuel generalizing found with
  | zero => exact .done complete
  | succ fuel ih =>
    rw [explore] at complete ⊢
    split at complete
    · next inside =>
      rw [dif_pos inside]
      exact .expand inside (ih complete)
    · next outside =>
      rw [dif_neg outside]
      exact .done complete

end Exploration

/-! ## Repeated entries -/

section Repeats

variable {α : Type}

theorem eraseRepsBy_loop_eq (r : α → α → Bool) (a : α) (as acc : List α) :
    List.eraseRepsBy.loop r a as acc = acc.reverse ++ List.eraseRepsBy.loop r a as [] := by
  induction as generalizing a acc with
  | nil => rw [List.eraseRepsBy.loop, List.eraseRepsBy.loop, List.reverse_cons, List.reverse_singleton]
  | cons b bs ih =>
    rw [List.eraseRepsBy.loop, List.eraseRepsBy.loop]
    cases r a b with
    | true => exact ih a acc
    | false => rw [ih b (a :: acc), ih b [a], List.reverse_cons, List.append_assoc, List.reverse_singleton]

theorem eraseReps_cons_cons [BEq α] (a b : α) (bs : List α) :
    (a :: b :: bs).eraseReps =
      if a == b then (a :: bs).eraseReps else a :: (b :: bs).eraseReps := by
  show List.eraseRepsBy.loop _ a (b :: bs) [] = _
  rw [List.eraseRepsBy.loop]
  cases a == b with
  | true => rfl
  | false => exact eraseRepsBy_loop_eq _ b bs [a]

/-- In an ordered list equal entries are neighbours, so none is left twice. -/
theorem pairwise_eraseReps [BEq α] [LawfulBEq α] {le : α → α → Prop}
    (antisymm : ∀ x y, le x y → le y x → x = y) {as : List α} (ordered : as.Pairwise le) :
    as.eraseReps.Pairwise fun x y => le x y ∧ x ≠ y := by
  cases as with
  | nil => exact .nil
  | cons a as =>
    induction as generalizing a with
    | nil => exact List.pairwise_singleton _ _
    | cons b bs ih =>
      obtain ⟨first, others⟩ := List.pairwise_cons.1 ordered
      rw [eraseReps_cons_cons]
      split
      · exact ih a (ordered.sublist ((List.sublist_cons_self b bs).cons_cons a))
      · next differ =>
        refine List.pairwise_cons.2 ⟨fun y member => ?_, ih b others⟩
        have listed := Nfa.mem_eraseReps.1 member
        refine ⟨first y listed, ?_⟩
        rintro rfl
        -- An entry behind `b` that equals `a` would make `a` and `b` equal.
        rcases List.mem_cons.1 listed with same | later
        · exact differ (beq_iff_eq.2 same)
        · exact differ (beq_iff_eq.2 (antisymm _ _ (first b List.mem_cons_self)
            ((List.pairwise_cons.1 others).1 _ later)))

end Repeats

/-! ## Rankings -/

/-- A token comes before another: it has a lower rank, or the same rank and a lower number. -/
def RankedBefore (rank : Nat → Nat) (t u : Nat) : Prop :=
  rank t < rank u ∨ rank t = rank u ∧ t < u

/-- A list holds the given tokens, each of them once, best first. -/
structure Ranking (rank : Nat → Nat) (tokens ranked : List Nat) : Prop where
  ordered : ranked.Pairwise (RankedBefore rank)
  mem_iff : ∀ t, t ∈ ranked ↔ t ∈ tokens

theorem Nfa.ranking_candidates (nfa : Nfa) (rank : Nat → Nat) (set : List Nat) :
    Ranking rank (nfa.accepting set) (nfa.candidates rank set) where
  ordered := by
    have sorted := List.pairwise_mergeSort (ranksBefore_trans rank) (ranksBefore_total rank)
      (nfa.accepting set)
    have strict := pairwise_eraseReps (fun _ _ => ranksBefore_antisymm rank) sorted
    refine strict.imp fun {t u} both => ?_
    obtain ⟨before, differ⟩ := both
    rw [ranksBefore_iff] at before
    exact before.imp_right fun tied => ⟨tied.1, Nat.lt_of_le_of_ne tied.2 differ⟩
  mem_iff _ := mem_candidates rank

/-! ## Counts out of order -/

namespace Pattern

mutual

/-- The tree with every greatest count raised to the least one where it is below it. -/
def raiseCounts : Pattern → Pattern
  | .empty => .empty
  | .set bytes => .set bytes
  | .seq parts => .seq (raiseAllCounts parts)
  | .alt branches => .alt (raiseAllCounts branches)
  | .rep body min max => .rep (raiseCounts body) min (max.map (Nat.max min))

def raiseAllCounts : List Pattern → List Pattern
  | [] => []
  | p :: ps => raiseCounts p :: raiseAllCounts ps

end

theorem raiseAllCounts_eq_map (ps : List Pattern) : raiseAllCounts ps = ps.map raiseCounts := by
  induction ps with
  | nil => rfl
  | cons p ps ih => rw [raiseAllCounts, ih, List.map_cons]

theorem countsOrdered_raiseCounts (p : Pattern) : p.raiseCounts.countsOrdered = true := by
  induction p with
  | empty | set _ => rfl
  | seq parts ih =>
    rw [raiseCounts, raiseAllCounts_eq_map]
    exact allCountsOrdered_iff.2 (List.forall_mem_map.2 ih)
  | alt branches ih =>
    rw [raiseCounts, raiseAllCounts_eq_map]
    exact allCountsOrdered_iff.2 (List.forall_mem_map.2 ih)
  | rep body min max ih =>
    rw [raiseCounts, countsOrdered, ih, Bool.and_true]
    cases max with
    | none => rfl
    | some max => exact decide_eq_true (Nat.le_max_left min max)

/-- A repetition has no optional copies when its greatest count is not above its least one. -/
theorem repeated_raiseCount (body : Nat → Fragment) (min : Nat) (max : Option Nat) :
    Fragment.repeated body min (max.map (Nat.max min)) = Fragment.repeated body min max := by
  funext base
  cases max with
  | none => rfl
  | some max =>
    have same : Nat.max min max - min = max - min := by
      show Max.max min max - min = max - min
      omega
    simp only [Fragment.repeated, Option.map_some, same]

theorem map_ofPattern_raiseAllCounts {ps : List Pattern}
    (same : ∀ p ∈ ps, Fragment.ofPattern p.raiseCounts = Fragment.ofPattern p) :
    (raiseAllCounts ps).map Fragment.ofPattern = ps.map Fragment.ofPattern := by
  rw [raiseAllCounts_eq_map, List.map_map]
  exact List.map_congr_left same

theorem ofPattern_raiseCounts (p : Pattern) :
    Fragment.ofPattern p.raiseCounts = Fragment.ofPattern p := by
  induction p with
  | empty | set _ => rfl
  | seq parts ih =>
    rw [raiseCounts, Fragment.ofPattern_seq, Fragment.ofPattern_seq, map_ofPattern_raiseAllCounts ih]
  | alt branches ih =>
    rw [raiseCounts, Fragment.ofPattern_alt, Fragment.ofPattern_alt, map_ofPattern_raiseAllCounts ih]
  | rep body min max ih =>
    rw [raiseCounts, Fragment.ofPattern_rep, Fragment.ofPattern_rep, ih, repeated_raiseCount]

end Pattern

namespace Nfa

theorem plan_raiseCounts (trees : List Pattern) (token next : Nat) :
    plan token next (trees.map Pattern.raiseCounts) = plan token next trees := by
  induction trees generalizing token next with
  | nil => rfl
  | cons p ps ih => simp only [List.map_cons, plan, Pattern.ofPattern_raiseCounts, ih]

/-- Every list of trees is compiled like one whose counts are ordered. -/
theorem exists_ordered (trees : List Pattern) :
    ∃ trees', (∀ p ∈ trees', p.countsOrdered = true) ∧ ofPatterns trees' = ofPatterns trees := by
  refine ⟨trees.map Pattern.raiseCounts, List.forall_mem_map.2 fun p _ => ?_, ?_⟩
  · exact p.countsOrdered_raiseCounts
  · rw [ofPatterns, ofPatterns, plan_raiseCounts]

theorem ofPatterns_nonempty (trees : List Pattern) : 0 < (ofPatterns trees).states.size := by
  obtain ⟨trees', ordered, same⟩ := exists_ordered trees
  rw [← same]
  exact size_ofPatterns_pos ordered

theorem ofPatterns_startApart (trees : List Pattern) : (ofPatterns trees).StartApart := by
  obtain ⟨trees', ordered, same⟩ := exists_ordered trees
  rw [← same]
  exact startApart_ofPatterns ordered

/-! ## States of the deterministic automaton -/

variable {nfa : Nfa} (rank : Nat → Nat)

theorem run_eq_rejectId_iff (nonempty : 0 < nfa.states.size) {w : List UInt8} :
    (nfa.determinize rank).dfa.run w = Dfa.rejectId ↔ nfa.run w = [] := by
  have value := values_run rank nonempty w
  have reject := (explored_spec nonempty).2.2.1
  constructor
  · intro atReject
    rw [atReject, reject] at value
    exact (Option.some.inj value).symm
  · intro dead
    rw [dead] at value
    exact Numbering.number_unique value reject

/-- Every state is the reject state or the state after some string. -/
theorem exists_run (nonempty : 0 < nfa.states.size) {d : Nat}
    (inside : d < (nfa.determinize rank).dfa.size) (accessible : d ≠ Dfa.rejectId) :
    ∃ w, (nfa.determinize rank).dfa.run w = d := by
  obtain ⟨w, reached, _⟩ := exists_access rank nonempty inside accessible
  exact ⟨w, reached⟩

/-- No state leads to the start state. -/
theorem next_ne_startId (nonempty : 0 < nfa.states.size) (apart : nfa.StartApart) (d : Nat)
    (b : UInt8) : (nfa.determinize rank).dfa.next d b ≠ Dfa.startId := by
  have wellFormed := wellFormed_determinize rank nonempty
  by_cases inside : d < (nfa.determinize rank).dfa.size
  · by_cases rejected : d = Dfa.rejectId
    · rw [rejected, show (nfa.determinize rank).dfa.next Dfa.rejectId b = Dfa.rejectId from
        wellFormed.reject_next b]
      exact Nat.zero_ne_one
    · obtain ⟨w, rfl⟩ := exists_run rank nonempty inside rejected
      rw [← Dfa.run_append_singleton]
      exact run_ne_startId rank nonempty apart (List.append_ne_nil_of_right_ne_nil w (List.cons_ne_nil b []))
  · rw [Dfa.next_of_le (Nat.le_of_not_lt inside)]
    exact Nat.zero_ne_one

theorem getElem?_candidates {d : Nat} {set : List Nat}
    (value : nfa.explored.known.values[d]? = some set) :
    (nfa.determinize rank).candidates[d]? = some (nfa.candidates rank set) := by
  show (nfa.explored.known.values.map (nfa.candidates rank))[d]? = _
  rw [Array.getElem?_map, value, Option.map_some]

/-! ## Simulation -/

/-- A deterministic automaton, with the candidates of its states, does what a nondeterministic one
does.  Its states are given as sets of states. -/
structure Simulation (nfa : Nfa) (rank : Nat → Nat) (result : Determinized)
    (sets : Array (List Nat)) : Prop where
  /-- The state after a string stands for the set after it. -/
  run_set : ∀ w, sets[result.dfa.run w]? = some (nfa.run w)
  /-- The candidates are the accepted tokens, and the first of them wins, unless nothing was read. -/
  candidates : ∀ w, ∃ ranked, result.candidates[result.dfa.run w]? = some ranked ∧
    Ranking rank (nfa.accepting (nfa.run w)) ranked ∧
    result.dfa.token? (result.dfa.run w) = if w = [] then none else ranked.head?
  /-- A string is rejected when no state is left. -/
  run_eq_reject : ∀ w, result.dfa.run w = result.dfa.reject ↔ nfa.run w = []
  reject_set : sets[result.dfa.reject]? = some []
  size_eq : sets.size = result.dfa.size
  /-- Different states stand for different sets. -/
  distinct : sets.toList.Nodup
  /-- Every state but the reject state is the state after some string. -/
  reached : ∀ d < result.dfa.size, d ≠ result.dfa.reject → ∃ w, result.dfa.run w = d
  /-- No state leads to the start state. -/
  start_apart : ∀ d b, result.dfa.next d b ≠ result.dfa.start

theorem token?_determinize_run (nonempty : 0 < nfa.states.size) (apart : nfa.StartApart)
    (w : List UInt8) :
    (nfa.determinize rank).dfa.token? ((nfa.determinize rank).dfa.run w) =
      if w = [] then none else (nfa.candidates rank (nfa.run w)).head? := by
  split
  · next empty =>
    rw [empty, token?_determinize rank nonempty (values_run rank nonempty [])]
    exact if_pos rfl
  · next read => exact token?_run rank nonempty apart read

theorem simulation_explored (nonempty : 0 < nfa.states.size) (apart : nfa.StartApart) :
    nfa.Simulation rank (nfa.determinize rank) nfa.explored.known.values where
  run_set := values_run rank nonempty
  candidates w := ⟨_, getElem?_candidates rank (values_run rank nonempty w),
    ranking_candidates nfa rank _, token?_determinize_run rank nonempty apart w⟩
  run_eq_reject _ := run_eq_rejectId_iff rank nonempty
  reject_set := (explored_spec nonempty).2.2.1
  size_eq := (size_determinize rank nonempty).symm
  distinct := nfa.explored.known.nodup_values
  reached _ inside accessible := exists_run rank nonempty inside accessible
  start_apart := next_ne_startId rank nonempty apart

/-- For any trees and any ranks, with ties or without, the construction ends, and what it ends with
simulates the automaton of the trees. -/
theorem simulation_determinize (trees : List Pattern) (rank : Nat → Nat) :
    ∃ found : Exploration (List Nat),
      ExploresTo (ofPatterns trees).successors ⟨(ofPatterns trees).seeds, #[]⟩ found ∧
      (ofPatterns trees).subsets (ofPatterns trees).byteClasses = found ∧
      (ofPatterns trees).Simulation rank ((ofPatterns trees).determinize rank) found.known.values := by
  have nonempty := ofPatterns_nonempty trees
  obtain ⟨_, complete, _, _⟩ := explored_spec nonempty
  refine ⟨(ofPatterns trees).explored, ?_, rfl,
    simulation_explored rank nonempty (ofPatterns_startApart trees)⟩
  rw [explored_eq] at complete ⊢
  exact exploresTo_explore _ (Nat.le_of_eq complete.symm)

end Nfa

end ScannerGen
