import ScannerGen.Automaton.Dfa
import ScannerGen.Proofs.Numbering

/-!
# Deterministic automata

Runs of deterministic automata, and what is asked of an automaton so that a scanner can stop at its
reject state.

* `Dfa.run` — the state after a string.
* `Dfa.WellFormed` — successors exist, and nothing leads out of the reject state.
* `Dfa.exists_representative` — one byte of each column does the same in every state.
-/

namespace ScannerGen

/-! ## Entries of vectors -/

theorem vector_get_map {α β : Type} {n : Nat} (entries : Vector α n) (f : α → β) (i : Fin n) :
    (entries.map f).get i = f (entries.get i) :=
  Vector.getElem_map f i.isLt

theorem vector_get_ofFn {α : Type} {n : Nat} (f : Fin n → α) (i : Fin n) :
    (Vector.ofFn f).get i = f i :=
  Vector.getElem_ofFn i.isLt

namespace Dfa

variable {dfa : Dfa}

/-! ## Single steps -/

theorem next_of_lt {s : Nat} (inside : s < dfa.size) (b : UInt8) :
    dfa.next s b = dfa.states[s].next b := by
  rw [next, Array.getElem?_eq_getElem inside]

theorem next_of_le {s : Nat} (outside : dfa.size ≤ s) (b : UInt8) : dfa.next s b = dfa.reject := by
  rw [next, Array.getElem?_eq_none outside]

theorem token?_of_lt {s : Nat} (inside : s < dfa.size) : dfa.token? s = dfa.states[s].token := by
  rw [token?, Array.getElem?_eq_getElem inside, Option.bind_some]

/-! ## Runs -/

/-- The state after a string. -/
def run (dfa : Dfa) (w : List UInt8) : Nat := w.foldl dfa.next dfa.start

@[simp] theorem run_nil (dfa : Dfa) : dfa.run [] = dfa.start := rfl

theorem run_append_singleton (dfa : Dfa) (w : List UInt8) (b : UInt8) :
    dfa.run (w ++ [b]) = dfa.next (dfa.run w) b := by
  simp [run]

/-- Every successor is a state, and the reject state is a dead end without a winner. -/
structure WellFormed (dfa : Dfa) : Prop where
  start_lt : dfa.start < dfa.size
  reject_lt : dfa.reject < dfa.size
  start_ne_reject : dfa.start ≠ dfa.reject
  next_lt : ∀ s < dfa.size, ∀ b, dfa.next s b < dfa.size
  reject_next : ∀ b, dfa.next dfa.reject b = dfa.reject
  reject_token : dfa.token? dfa.reject = none

theorem WellFormed.run_lt (wellFormed : dfa.WellFormed) (w : List UInt8) :
    dfa.run w < dfa.size := by
  induction w using List.reverseRecOn with
  | nil => exact wellFormed.start_lt
  | append_singleton w b ih =>
    rw [run_append_singleton]
    exact wellFormed.next_lt _ ih b

/-! ## Columns -/

/-- Each byte has a representative that does the same in every state. -/
theorem exists_representative (dfa : Dfa) (b : UInt8) :
    ∃ r, dfa.columnClasses.representatives[dfa.columnClasses.get b]? = some r ∧
      ∀ s, dfa.next s r = dfa.next s b := by
  obtain ⟨r, found, same⟩ := ByteClasses.exists_representative dfa.column b
  refine ⟨r, found, fun s => ?_⟩
  by_cases inside : s < dfa.size
  · rw [next_of_lt inside, next_of_lt inside]
    exact List.map_inj_left.1 same _ (Array.mem_toList_iff.2 (Array.getElem_mem inside))
  · rw [next_of_le (Nat.le_of_not_lt inside), next_of_le (Nat.le_of_not_lt inside)]

end Dfa

end ScannerGen
