import Mathlib.Data.Nat.Find
import ScannerGen.Proofs.Automaton.Deterministic
import ScannerGen.Scan
import ScannerGen.Tables.Build

/-!
# Tables of an automaton

Compressing the columns of an automaton loses nothing, and the scanner's walk through the tables
finds the last accepting prefix of the input.

* `exists_ofDfa_of_build` — tables that are built come from an automaton, minimized or not.
* `step?_ofDfa`, `step_ofDfa`, `token?_ofDfa` — the tables step like the automaton and have its winners.
* `longestMatch_eq_none_iff`, `longestMatch_eq_some_iff` — the longest match, said by the winners
  after the prefixes of the input.
-/

namespace ScannerGen.Tables

/-- Tables are built from the trees of the patterns, if all of these can be read. -/
theorem build_eq_ok_iff {tokens : TokenTable} {macros : MacroTable} {minimize : Bool} {built : Built} :
    build tokens macros minimize = .ok built ↔
      ∃ trees, tokens.trees macros = .ok trees ∧ ofTrees tokens trees minimize = built := by
  rw [build]
  cases tokens.trees macros with
  | error e => simp [Except.map]
  | ok trees => simp [Except.map]

/-- Built tables are those of an automaton, which has all that the deterministic automaton of the
patterns has and minimizing keeps. -/
theorem exists_ofDfa_of_build {P : Dfa → Prop} {tokens : TokenTable} {macros : MacroTable}
    {minimize : Bool} {built : Built} (succeeded : build tokens macros minimize = .ok built)
    (deterministic : ∀ trees, tokens.trees macros = .ok trees →
      P ((Nfa.ofPatterns trees).determinize tokens.rank).dfa)
    (minimal : ∀ dfa, P dfa → P dfa.minimize) :
    ∃ trees dfa, tokens.trees macros = .ok trees ∧ P dfa ∧
      built.tables = ofDfa dfa (trees.toArray.map (Pattern.mentions Ascii.newline)) := by
  obtain ⟨trees, read, rfl⟩ := build_eq_ok_iff.1 succeeded
  rw [ofTrees]
  refine ⟨trees, _, read, ?_, rfl⟩
  cases minimize with
  | true => exact minimal _ (deterministic trees read)
  | false => exact deterministic trees read

variable {dfa : Dfa} {endsLines : Array Bool}

/-! ## Columns -/

/-- Every state has an entry for every byte, and that is the successor. -/
theorem step?_ofDfa {s : Nat} (inside : s < dfa.size) (b : UInt8) :
    (ofDfa dfa endsLines).step? s b = some (dfa.next s b) := by
  obtain ⟨r, found, same⟩ := dfa.exists_representative b
  -- The column of `b` holds the successors by the representative of its class.
  have entry : dfa.columnClasses.representatives.toArray[(ofDfa dfa endsLines).byteClass b]? = some r := by
    rw [List.getElem?_toArray]
    exact found
  have row : (ofDfa dfa endsLines).next[s]? =
      some (dfa.columnClasses.representatives.toArray.map dfa.states[s].next) := by
    rw [ofDfa, Array.getElem?_map, Array.getElem?_eq_getElem inside, Option.map_some]
  rw [step?, row, Option.bind_some, Array.getElem?_map, entry, Option.map_some, ← same s,
    Dfa.next_of_lt inside]

theorem step_ofDfa (s : Nat) (b : UInt8) : (ofDfa dfa endsLines).step s b = dfa.next s b := by
  by_cases inside : s < dfa.size
  · rw [step, step?_ofDfa inside, Option.getD_some]
  · have outside := Nat.le_of_not_lt inside
    have row : (ofDfa dfa endsLines).next[s]? = none := by
      rw [ofDfa, Array.getElem?_map, Array.getElem?_eq_none outside, Option.map_none]
    rw [step, step?, row, Option.bind_none, Option.getD_none, Dfa.next_of_le outside]
    rfl

theorem token?_ofDfa (s : Nat) : (ofDfa dfa endsLines).token? s = dfa.token? s := by
  show ((dfa.states.map Dfa.State.token)[s]?.bind fun token => token) = _
  rw [Array.getElem?_map, Dfa.token?]
  cases dfa.states[s]? with
  | none => rfl
  | some state => rfl

/-! ## The last accepting prefix -/

/-- Nothing is accepted behind the reject state, so the walk may stop there. -/
theorem token?_after_reject (wellFormed : dfa.WellFormed) (w : List UInt8) :
    dfa.token? (w.foldl dfa.next dfa.reject) = none := by
  induction w with
  | nil => exact wellFormed.reject_token
  | cons b w ih =>
    rw [List.foldl_cons, wellFormed.reject_next]
    exact ih

/-- The winner after a prefix of an input, from a state on. -/
def winner? (dfa : Dfa) (state : Nat) (input : List UInt8) (n : Nat) : Option Nat :=
  dfa.token? ((input.take n).foldl dfa.next state)

theorem winner?_cons_succ (state : Nat) (b : UInt8) (rest : List UInt8) (n : Nat) :
    winner? dfa state (b :: rest) (n + 1) = winner? dfa (dfa.next state b) rest n := by
  rw [winner?, List.take_succ_cons, List.foldl_cons, winner?]

theorem winner?_cons_one (state : Nat) (b : UInt8) (rest : List UInt8) :
    winner? dfa state (b :: rest) 1 = dfa.token? (dfa.next state b) := rfl

/-- Where no prefix is accepted, the best match so far stays. -/
theorem longestFrom_eq_best {state length : Nat} {best : Option (Nat × Nat)} {input : List UInt8}
    (rejected : ∀ n, 0 < n → n ≤ input.length → winner? dfa state input n = none) :
    (ofDfa dfa endsLines).longestFrom state length best input = best := by
  induction input generalizing state length best with
  | nil => rfl
  | cons b rest ih =>
    rw [longestFrom]
    simp only [step_ofDfa, token?_ofDfa]
    split
    · rfl
    · have first := rejected 1 Nat.one_pos (by simp)
      rw [winner?_cons_one] at first
      rw [first]
      apply ih
      intro n positive bound
      rw [← winner?_cons_succ]
      exact rejected (n + 1) (Nat.succ_pos n) (Nat.succ_le_succ bound)

/-- The last prefix that is accepted is found. -/
theorem longestFrom_eq_some (wellFormed : dfa.WellFormed) {state length : Nat}
    {best : Option (Nat × Nat)} {input : List UInt8} {n token : Nat} (positive : 0 < n)
    (bound : n ≤ input.length) (accepted : winner? dfa state input n = some token)
    (later : ∀ m, n < m → m ≤ input.length → winner? dfa state input m = none) :
    (ofDfa dfa endsLines).longestFrom state length best input = some (token, length + n) := by
  induction input generalizing state length best n with
  | nil => exact absurd bound (Nat.not_le_of_lt positive)
  | cons b rest ih =>
    obtain ⟨n, rfl⟩ := Nat.exists_eq_add_of_lt positive
    rw [Nat.zero_add] at *
    rw [winner?_cons_succ] at accepted
    have laterRest : ∀ m, n < m → m ≤ rest.length → winner? dfa (dfa.next state b) rest m = none := by
      intro m less inside
      rw [← winner?_cons_succ]
      exact later (m + 1) (Nat.succ_lt_succ less) (Nat.succ_le_succ inside)
    rw [longestFrom]
    simp only [step_ofDfa, token?_ofDfa]
    split
    · -- The walk does not stop early: from the reject state nothing would be accepted any more.
      next atReject =>
      have dead := token?_after_reject wellFormed (rest.take n)
      have reject : dfa.next state b = dfa.reject := atReject
      rw [winner?, reject, dead] at accepted
      cases accepted
    · cases n with
      | zero =>
        -- This byte ends the prefix, and what is read from here on finds nothing better.
        rw [show dfa.token? (dfa.next state b) = some token from accepted]
        exact longestFrom_eq_best laterRest
      | succ n =>
        rw [ih (Nat.succ_pos n) (Nat.le_of_succ_le_succ bound) accepted laterRest]
        congr 2
        omega

/-- A prefix that is not empty and has a winner. -/
def AcceptsPrefix (dfa : Dfa) (state : Nat) (input : List UInt8) (n : Nat) : Prop :=
  0 < n ∧ (winner? dfa state input n).isSome

instance (dfa : Dfa) (state : Nat) (input : List UInt8) :
    DecidablePred (AcceptsPrefix dfa state input) := fun _ => instDecidableAnd

/-- Either no prefix is accepted, or one of those that are is the longest. -/
theorem rejected_or_longest (dfa : Dfa) (state : Nat) (input : List UInt8) :
    (∀ n, 0 < n → n ≤ input.length → winner? dfa state input n = none) ∨
      ∃ n token, 0 < n ∧ n ≤ input.length ∧ winner? dfa state input n = some token ∧
        ∀ m, n < m → m ≤ input.length → winner? dfa state input m = none := by
  by_cases found : ∃ n ≤ input.length, AcceptsPrefix dfa state input n
  · right
    obtain ⟨n, bound, accepts⟩ := found
    obtain ⟨positive, some⟩ : AcceptsPrefix dfa state input (Nat.findGreatest _ input.length) :=
      Nat.findGreatest_spec bound accepts
    obtain ⟨token, accepted⟩ := Option.isSome_iff_exists.1 some
    refine ⟨_, token, positive, Nat.findGreatest_le _, accepted, fun m less inside => ?_⟩
    have greatest := Nat.findGreatest_is_greatest less inside
    rw [← Option.not_isSome_iff_eq_none]
    exact fun some => greatest ⟨Nat.zero_lt_of_lt less, some⟩
  · left
    intro n positive bound
    rw [← Option.not_isSome_iff_eq_none]
    exact fun some => found ⟨n, bound, positive, some⟩

/-- There is no match exactly if no prefix is accepted. -/
theorem longestMatch_eq_none_iff (wellFormed : dfa.WellFormed) {input : List UInt8} :
    (ofDfa dfa endsLines).longestMatch input = none ↔
      ∀ n, 0 < n → n ≤ input.length → dfa.token? (dfa.run (input.take n)) = none := by
  constructor
  · intro noMatch
    rcases rejected_or_longest dfa dfa.start input with rejected | ⟨n, token, longest⟩
    · exact rejected
    · obtain ⟨positive, bound, accepted, later⟩ := longest
      have found : (ofDfa dfa endsLines).longestMatch input = some (token, 0 + n) :=
        longestFrom_eq_some wellFormed positive bound accepted later
      rw [noMatch] at found
      cases found
  · exact longestFrom_eq_best

/-- The longest match is the longest prefix that is accepted, with its winner. -/
theorem longestMatch_eq_some_iff (wellFormed : dfa.WellFormed) {input : List UInt8} {token n : Nat} :
    (ofDfa dfa endsLines).longestMatch input = some (token, n) ↔
      0 < n ∧ n ≤ input.length ∧ dfa.token? (dfa.run (input.take n)) = some token ∧
        ∀ m, n < m → m ≤ input.length → dfa.token? (dfa.run (input.take m)) = none := by
  constructor
  · intro matched
    rcases rejected_or_longest dfa dfa.start input with rejected | ⟨k, winner, longest⟩
    · have noMatch : (ofDfa dfa endsLines).longestMatch input = none :=
        longestFrom_eq_best rejected
      rw [matched] at noMatch
      cases noMatch
    · obtain ⟨positive, bound, accepted, later⟩ := longest
      have found : (ofDfa dfa endsLines).longestMatch input = some (winner, 0 + k) :=
        longestFrom_eq_some wellFormed positive bound accepted later
      rw [matched, Nat.zero_add] at found
      cases found
      exact ⟨positive, bound, accepted, later⟩
  · rintro ⟨positive, bound, accepted, later⟩
    have found : (ofDfa dfa endsLines).longestMatch input = some (token, 0 + n) :=
      longestFrom_eq_some wellFormed positive bound accepted later
    rw [found, Nat.zero_add]

end ScannerGen.Tables
