import ScannerGen.Proofs.Automaton.Live
import ScannerGen.Proofs.Tables.Dump

/-!
# What holds of all generated tables

Tables that are built start at state 1 and reject at state 0, their states are all reached, and from
none but the reject state it is impossible to come to a match.

* `after` — the state that tables come to on a string.
* `Invariant` — all that holds of generated tables, minimized or not.
* `invariant_ofDfa` — compressing the columns of a trim automaton keeps it.
* `invariant_of_build` — tables that are built satisfy it.
-/

namespace ScannerGen.Tables

/-- The state after a string that is read from some state on. -/
def after (t : Tables) (s : Nat) (w : List UInt8) : Nat := w.foldl t.step s

/-- What holds of the tables that are generated for a number of tokens. -/
structure Invariant (t : Tables) (tokenCount : Nat) : Prop where
  /-- Every state has a successor for every byte, and that is a state. -/
  consistent : t.Consistent
  start_eq : t.start = 1
  reject_eq : t.reject = 0
  /-- The reject state is never left, and nothing is accepted there. -/
  reject_row : ∀ row, t.next[t.reject]? = some row → ∀ s ∈ row, s = t.reject
  reject_token : t.token? t.reject = none
  /-- The start state is never entered again, and nothing is accepted there. -/
  start_apart : ∀ row ∈ t.next, t.start ∉ row
  start_token : t.token? t.start = none
  token_lt : ∀ token, some token ∈ t.tokenMap → token < tokenCount
  endsLines_size : t.endsLines.size = tokenCount
  /-- Every state but the reject state is the state after some string. -/
  reached : ∀ s < t.stateCount, s ≠ t.reject → ∃ w, t.after t.start w = s
  /-- From every state but the reject state and the start, some string leads to a match. -/
  live : ∀ s < t.stateCount, s ≠ t.reject → s ≠ t.start →
    ∃ w token, t.token? (t.after s w) = some token

theorem after_ofDfa (dfa : Dfa) (endsLines : Array Bool) (s : Nat) (w : List UInt8) :
    (ofDfa dfa endsLines).after s w = dfa.after s w := by
  have steps : (ofDfa dfa endsLines).step = dfa.next := funext fun s => funext (step_ofDfa s)
  rw [after, steps, Dfa.after]

/-- The entries of a row are successors of its state. -/
theorem exists_next_of_mem_row {dfa : Dfa} {endsLines : Array Bool} {s target : Nat} {row : Array Nat}
    (found : (ofDfa dfa endsLines).next[s]? = some row) (entry : target ∈ row) :
    ∃ b, dfa.next s b = target := by
  rw [ofDfa, Array.getElem?_map, Option.map_eq_some_iff] at found
  obtain ⟨state, place, rfl⟩ := found
  obtain ⟨b, _, rfl⟩ := Array.mem_map.1 entry
  exact ⟨b, by rw [Dfa.next, place]⟩

theorem invariant_ofDfa {dfa : Dfa} {endsLines : Array Bool} {tokenCount : Nat}
    (names : NamesTokens dfa tokenCount) (trim : dfa.Trim) (start : dfa.start = Dfa.startId)
    (reject : dfa.reject = Dfa.rejectId) (flags : endsLines.size = tokenCount) :
    (ofDfa dfa endsLines).Invariant tokenCount where
  consistent := consistent_ofDfa names.wellFormed endsLines
  start_eq := start
  reject_eq := reject
  reject_row row found s entry := by
    obtain ⟨b, rfl⟩ := exists_next_of_mem_row found entry
    exact names.wellFormed.reject_next b
  reject_token := (token?_ofDfa _).trans names.wellFormed.reject_token
  start_apart row member entry := by
    obtain ⟨s, found⟩ := Array.mem_iff_getElem?.1 member
    obtain ⟨b, entered⟩ := exists_next_of_mem_row found entry
    exact trim.start_apart s b entered
  start_token := (token?_ofDfa _).trans trim.start_token
  token_lt token member := by
    obtain ⟨s, found⟩ := Array.mem_iff_getElem?.1 member
    refine names.winner_lt s token ?_
    rw [← @token?_ofDfa dfa endsLines, token?, found]
    rfl
  endsLines_size := flags
  reached s inside accessible := by
    rw [stateCount_ofDfa] at inside
    obtain ⟨w, same⟩ := trim.reached s inside accessible
    exact ⟨w, (after_ofDfa dfa endsLines _ w).trans same⟩
  live s inside accessible notStart := by
    rw [stateCount_ofDfa] at inside
    obtain ⟨w, token, wins⟩ := trim.live s inside accessible notStart
    refine ⟨w, token, ?_⟩
    rw [after_ofDfa, token?_ofDfa, wins]

/-- Whenever tables are built, minimized or not, they satisfy the invariant. -/
theorem invariant_of_build {tokens : TokenTable} {macros : MacroTable} {minimize : Bool}
    {built : Built} (succeeded : build tokens macros minimize = .ok built) :
    built.tables.Invariant tokens.size := by
  obtain ⟨trees, dfa, read, ⟨names, trim, start, reject⟩, tables⟩ := exists_ofDfa_of_build
    (P := fun dfa => NamesTokens dfa tokens.size ∧ dfa.Trim ∧ dfa.start = Dfa.startId ∧
      dfa.reject = Dfa.rejectId)
    succeeded
    (fun _ read => ⟨namesTokens_determinize read,
      Nfa.trim_determinize (normal_of_trees read) tokens.rank, rfl, rfl⟩)
    fun _ kept => ⟨kept.1.minimize, kept.2.1.minimize kept.1.wellFormed, rfl, rfl⟩
  have sizes : tokens.size = trees.length := (TokenTable.forall₂_of_mapM_eq_ok read).length_eq
  rw [tables]
  refine invariant_ofDfa names trim start reject ?_
  rw [Array.size_map, List.size_toArray, sizes]

/-- The minimized tables of a letter and the catch-all. -/
theorem invariant_of_build_letter :
    ∃ built, build letterTable .empty true = .ok built ∧ built.tables.Invariant 2 :=
  ⟨_, build_letterTable, invariant_of_build build_letterTable⟩

end ScannerGen.Tables
