import ScannerGen.Proofs.Automaton.Minimal
import ScannerGen.Proofs.Tables

/-!
# Tables of minimal automata

Automata that name the same winner after every string find the same longest matches, although one
of them may be at its reject state, and stop there, where the other reads on.  A minimized automaton
is such a companion of the automaton that it comes from.

* `longestMatch_congr` — the longest match depends on the winners after strings only.
* `minimize_preserves` — what minimizing keeps, and what a minimized automaton looks like.
-/

namespace ScannerGen

theorem Tables.longestMatch_congr {dfa dfa' : Dfa} (wellFormed : dfa.WellFormed)
    (wellFormed' : dfa'.WellFormed)
    (same : ∀ w, dfa'.token? (dfa'.run w) = dfa.token? (dfa.run w)) (endsLines : Array Bool)
    (input : List UInt8) :
    (ofDfa dfa' endsLines).longestMatch input = (ofDfa dfa endsLines).longestMatch input := by
  -- What is found is a fact about winners after strings, for either automaton.
  cases found : (ofDfa dfa endsLines).longestMatch input with
  | none =>
    have rejected := (longestMatch_eq_none_iff wellFormed).1 found
    exact (longestMatch_eq_none_iff wellFormed').2 fun n positive bound =>
      (same _).trans (rejected n positive bound)
  | some result =>
    obtain ⟨token, length⟩ := result
    obtain ⟨positive, bound, accepted, later⟩ := (longestMatch_eq_some_iff wellFormed).1 found
    exact (longestMatch_eq_some_iff wellFormed').2 ⟨positive, bound, (same _).trans accepted,
      fun n less inside => (same _).trans (later n less inside)⟩

namespace Dfa

/-- Minimizing a well-formed automaton.  The rounds of refining end, and the states are merged by the
partition that they end with.  The result names the same winner after every string, is well-formed
with its reject state first and its start second, has no more states, and finds the same longest
match at every position of every input. -/
theorem minimize_preserves {dfa : Dfa} (wellFormed : dfa.WellFormed) :
    (∃ partition,
      dfa.RefinesTo dfa.columnClasses.representatives dfa.initialPartition partition ∧
      dfa.minimize = dfa.quotient partition) ∧
    (∀ w, dfa.minimize.token? (dfa.minimize.run w) = dfa.token? (dfa.run w)) ∧
    dfa.minimize.WellFormed ∧ dfa.minimize.reject = 0 ∧ dfa.minimize.start = 1 ∧
    dfa.minimize.size ≤ dfa.size ∧
    ∀ endsLines input pos,
      (Tables.ofDfa dfa.minimize endsLines).longestMatch (List.drop pos input) =
        (Tables.ofDfa dfa endsLines).longestMatch (List.drop pos input) := by
  have same := token?_run_minimize wellFormed
  have wellFormed' := wellFormed_minimize wellFormed
  exact ⟨⟨dfa.stablePartition, refinesTo_stablePartition dfa, rfl⟩, same, wellFormed', rfl, rfl,
    size_minimize_le wellFormed, fun endsLines input pos =>
      Tables.longestMatch_congr wellFormed wellFormed' same endsLines (input.drop pos)⟩

/-- A state that every byte leads to the same state. -/
def State.uniform (target : Nat) (token : Option Nat) : State := ⟨Vector.replicate 256 target, token⟩

theorem State.next_uniform (target : Nat) (token : Option Nat) (b : UInt8) :
    (State.uniform target token).next b = target :=
  Vector.getElem_replicate b.toFin.isLt

/-- One byte is accepted.  Longer strings lead to a state of their own, which is as dead as the reject
state. -/
def deadEnd : Dfa :=
  ⟨#[.uniform 0 none, .uniform 2 none, .uniform 3 (some 0), .uniform 3 none], 1, 0⟩

theorem wellFormed_deadEnd : deadEnd.WellFormed where
  start_lt := by decide
  reject_lt := by decide
  start_ne_reject := by decide
  next_lt s inside b := by
    have states : ∀ state ∈ deadEnd.states, state.next b < deadEnd.size := by
      simp [deadEnd, State.next_uniform, size]
    rw [next_of_lt inside]
    exact states _ (Array.getElem_mem inside)
  reject_next b := State.next_uniform 0 none b
  reject_token := rfl

/-- The dead state is merged with the reject state, and the longest match stays one byte. -/
theorem minimize_preserves_deadEnd :
    deadEnd.WellFormed ∧ deadEnd.minimize.WellFormed ∧ deadEnd.minimize.size ≤ 4 ∧
      (Tables.ofDfa deadEnd.minimize #[]).longestMatch (List.drop 1 [7, 8, 9, 10]) = some (0, 1) := by
  obtain ⟨_, _, wellFormed, _, _, size, longest⟩ := minimize_preserves wellFormed_deadEnd
  refine ⟨wellFormed_deadEnd, wellFormed, size, (longest #[] [7, 8, 9, 10] 1).trans ?_⟩
  refine (Tables.longestMatch_eq_some_iff wellFormed_deadEnd).2
    ⟨Nat.one_pos, by decide, by decide, fun m less inside => ?_⟩
  have : m = 2 ∨ m = 3 := by
    simp only [List.drop_succ_cons, List.drop_zero, List.length_cons, List.length_nil] at inside
    omega
  rcases this with rfl | rfl <;> decide

end Dfa

end ScannerGen
