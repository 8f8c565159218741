import Mathlib.Data.List.Shortlex
import ScannerGen.Proofs.Automaton.Subset

/-!
# The order of the states

The subset construction numbers its states breadth first and bytes in ascending order, so a state has
a lower number than another one exactly if it is found by an earlier string: a shorter one, or one
of the same length that comes first byte by byte.

* `Numbering.exists_first` — a list in which new values turn up names their numbers in order.
* `explore_firstFound` — the same of all rows of an exploration, one after the other.
* `ByteClasses.representative_spec` — each class is represented by its lowest byte, and lower
  bytes are in lower classes.
* `Nfa.exists_access` — each state but the reject state has a string that leads to it while every
  earlier string leads to a state of a lower number.
-/

namespace ScannerGen

/-! ## Numbers of new values -/

section Numbers

variable {α : Type} [BEq α] [Hashable α] [LawfulBEq α] [LawfulHashable α]

/-- A value is known already, under a number in range, or it gets the next number. -/
theorem Numbering.number_cases (n : Numbering α) (x : α) :
    ((n.number x).1 < n.size ∧ (n.number x).2 = n) ∨
      ((n.number x).1 = n.size ∧ (n.number x).2.size = n.size + 1) := by
  unfold number
  split
  · next i known =>
    exact .inl ⟨(Array.getElem?_eq_some_iff.1 ((n.agree x i).1 known)).1, rfl⟩
  · exact .inr ⟨rfl, by simp [size]⟩

/-- A number that is new in a list stands behind smaller numbers only. -/
theorem Numbering.exists_first (n : Numbering α) (xs : List α) {i : Nat} (new : n.size ≤ i)
    (known : i < (n.numberAll xs).2.size) :
    ∃ k : Nat, (n.numberAll xs).1[k]? = some i ∧
      ∀ k' < k, ∀ i', (n.numberAll xs).1[k']? = some i' → i' < i := by
  induction xs generalizing n with
  | nil => exact absurd known (Nat.not_lt_of_le new)
  | cons x xs ih =>
    have entries : (n.numberAll (x :: xs)).1 = (n.number x).1 :: ((n.number x).2.numberAll xs).1 := rfl
    rw [entries]
    by_cases first : (n.number x).1 = i
    · exact ⟨0, by rw [List.getElem?_cons_zero, first], fun k' less => absurd less (Nat.not_lt_zero k')⟩
    · have later : (n.number x).2.size ≤ i ∧ (n.number x).1 < i := by
        rcases n.number_cases x with ⟨old, same⟩ | ⟨next, grown⟩
        · rw [same]
          omega
        · omega
      obtain ⟨k, found, before⟩ := ih (n.number x).2 later.1 known
      refine ⟨k + 1, found, fun k' less i' entry => ?_⟩
      cases k' with
      | zero =>
        obtain rfl := Option.some.inj entry
        exact later.2
      | succ k' => exact before k' (Nat.lt_of_succ_lt_succ less) i' entry

/-! ## Explorations -/

/-- Every number that was not there at the start stands in the row of a smaller number, and before
that place there are only smaller numbers. -/
def FirstFound (least : Nat) (found : Exploration α) : Prop :=
  ∀ i, least ≤ i → i < found.known.size → ∃ (d : Nat) (row : List Nat) (k : Nat), d < i ∧
    found.rows[d]? = some row ∧ row[k]? = some i ∧ (∀ k' < k, ∀ i', row[k']? = some i' → i' < i) ∧
    ∀ d' < d, ∀ row', found.rows[d']? = some row' → ∀ i' ∈ row', i' < i

variable {successors : α → List α} {least : Nat}

omit [LawfulBEq α] [LawfulHashable α] in
/-- The numbers in the rows are numbers of known values. -/
theorem Explored.lt_size_of_mem {found : Exploration α} (explored : Explored successors found)
    {d i : Nat} {row : List Nat} (place : found.rows[d]? = some row) (member : i ∈ row) :
    i < found.known.size := by
  have bound := Nat.lt_of_lt_of_le (Array.getElem?_eq_some_iff.1 place).1 explored.rows_le
  have agree := explored.rows_agree d row _ place (Array.getElem?_eq_getElem bound)
  have entry : found.known.values[i]? ∈ (successors found.known.values[d]).map some := by
    rw [← agree]
    exact List.mem_map_of_mem member
  obtain ⟨x, _, same⟩ := List.mem_map.1 entry
  exact (Array.getElem?_eq_some_iff.1 same.symm).1

theorem FirstFound.expand {found : Exploration α} (explored : Explored successors found)
    (first : FirstFound least found) (inside : found.rows.size < found.known.values.size) :
    FirstFound least
      ⟨(found.known.numberAll (successors found.known.values[found.rows.size])).2,
        found.rows.push
          (found.known.numberAll (successors found.known.values[found.rows.size])).1⟩ := by
  intro i bound known
  by_cases old : i < found.known.size
  · -- A number of before stands where it did.
    obtain ⟨d, row, k, less, place, entry, before, rowsBefore⟩ := first i bound old
    have earlier := (Array.getElem?_eq_some_iff.1 place).1
    refine ⟨d, row, k, less, ?_, entry, before, fun d' less' row' place' => ?_⟩
    · rw [Array.getElem?_push, if_neg (Nat.ne_of_lt earlier)]
      exact place
    · rw [Array.getElem?_push, if_neg (Nat.ne_of_lt (Nat.lt_trans less' earlier))] at place'
      exact rowsBefore d' less' row' place'
  · -- A new number stands in the new row, and all older rows hold older numbers.
    have new : found.known.size ≤ i := Nat.le_of_not_lt old
    obtain ⟨k, entry, before⟩ := found.known.exists_first _ new known
    refine ⟨found.rows.size, _, k, Nat.lt_of_lt_of_le inside new, Array.getElem?_push_size, entry,
      before, fun d' less' row' place' i' member => ?_⟩
    rw [Array.getElem?_push, if_neg (Nat.ne_of_lt less')] at place'
    exact Nat.lt_of_lt_of_le (explored.lt_size_of_mem place' member) new

theorem explore_firstFound (fuel : Nat) {found : Exploration α} (explored : Explored successors found)
    (first : FirstFound least found) : FirstFound least (explore successors fuel found) := by
  induction fuel generalizing found with
  | zero => exact first
  | succ fuel ih =>
    rw [explore]
    split
    · next inside => exact ih (explored.expand inside) (first.expand explored inside)
    · exact first

end Numbers

/-! ## Representatives -/

namespace ByteClasses

variable {κ : Type} [BEq κ] [Hashable κ] [LawfulBEq κ] [LawfulHashable κ]

/-- The place where a class turns up first, and the classes before it. -/
theorem idxOf_firstAppearance {xs : List κ} {c : Nat} (known : c < distinctCount xs) :
    (firstAppearance xs)[(firstAppearance xs).idxOf c]? = some c ∧
      ∀ k < (firstAppearance xs).idxOf c, ∀ c', (firstAppearance xs)[k]? = some c' → c' < c := by
  obtain ⟨k, entry, before⟩ := Numbering.empty.exists_first xs (Nat.zero_le c) known
  have member : c ∈ firstAppearance xs := List.mem_of_getElem? entry
  have least : (firstAppearance xs).idxOf c < k + 1 := by
    rw [← List.mem_take_iff_idxOf_lt member]
    refine List.mem_of_getElem? (i := k) ?_
    rw [List.getElem?_take_of_lt (Nat.lt_succ_self k)]
    exact entry
  exact ⟨List.getElem?_idxOf member,
    fun k' less => before k' (Nat.lt_of_lt_of_le less (Nat.le_of_lt_succ least))⟩

/-- The representative of a class is its lowest byte, and lower bytes are in lower classes. -/
theorem representative_spec (key : UInt8 → κ) {j : Nat} {b : UInt8}
    (found : (ofKey key).representatives[j]? = some b) :
    (ofKey key).get b = j ∧ ∀ c < b, (ofKey key).get c < j := by
  rw [representatives_ofKey, List.getElem?_map, Option.map_eq_some_iff] at found
  obtain ⟨j', listed, rfl⟩ := found
  obtain ⟨known, rfl⟩ : j < distinctCount (allBytes.map key) ∧ j = j' := by
    obtain ⟨bound, same⟩ := List.getElem?_eq_some_iff.1 listed
    rw [List.length_range] at bound
    exact ⟨bound, by simpa using same⟩
  obtain ⟨entry, before⟩ := idxOf_firstAppearance known
  have small : (firstAppearance (allBytes.map key)).idxOf j < 256 := by
    have inside := (List.getElem?_eq_some_iff.1 entry).1
    rwa [firstAppearance, Numbering.length_numberAll, List.length_map, length_allBytes] at inside
  have place : (UInt8.ofNat ((firstAppearance (allBytes.map key)).idxOf j)).toNat =
      (firstAppearance (allBytes.map key)).idxOf j := by
    rw [UInt8.toNat_ofNat', Nat.mod_eq_of_lt small]
  constructor
  · have number := getElem?_classes key (UInt8.ofNat ((firstAppearance (allBytes.map key)).idxOf j))
    rw [place, entry] at number
    exact (Option.some.inj number).symm
  · intro c less
    refine before c.toNat ?_ _ (getElem?_classes key c)
    rw [← place]
    exact less

end ByteClasses

/-! ## Strings that lead to states -/

/-- Of two strings of one length, the one before comes first by its last byte or by one before. -/
theorem lex_of_append_singleton {α : Type} {r : α → α → Prop} {u w : List α} {b c : α}
    (length : u.length = w.length) (before : List.Lex r (u ++ [b]) (w ++ [c])) :
    List.Lex r u w ∨ u = w ∧ r b c := by
  induction u generalizing w with
  | nil =>
    obtain rfl := List.length_eq_zero_iff.1 length.symm
    exact .inr ⟨rfl, (List.lex_singleton_iff b c).1 before⟩
  | cons x u ih =>
    cases w with
    | nil => cases length
    | cons y w =>
      cases before with
      | rel less => exact .inl (.rel less)
      | cons tail =>
        rcases ih (Nat.succ.inj length) tail with first | ⟨rfl, last⟩
        · exact .inl (.cons first)
        · exact .inr ⟨rfl, last⟩

theorem shortlex_of_append_singleton {α : Type} {r : α → α → Prop} {u w : List α} {b c : α}
    (less : List.Shortlex r (u ++ [b]) (w ++ [c])) : List.Shortlex r u w ∨ u = w ∧ r b c := by
  rw [List.shortlex_def] at less
  simp only [List.length_append, List.length_singleton, Nat.add_lt_add_iff_right,
    Nat.add_right_cancel_iff] at less
  rcases less with shorter | ⟨length, before⟩
  · exact .inl (.of_length_lt shorter)
  · exact (lex_of_append_singleton length before).imp_left (.of_lex length)

namespace Nfa

variable {nfa : Nfa} (rank : Nat → Nat)

theorem firstFound_explored (nonempty : 0 < nfa.states.size) : FirstFound 2 nfa.explored := by
  rw [explored_eq]
  refine explore_firstFound _ ⟨Nat.zero_le _, fun d row x place => by simp at place⟩ ?_
  -- The numbers at the start are 0 and 1.
  intro i new known
  have size : nfa.seeds.size = 2 := by rw [Numbering.size, values_seeds nonempty]; rfl
  have bound : i < nfa.seeds.size := known
  omega

/-- The row of a state lists its successors by class. -/
theorem row_next (nonempty : 0 < nfa.states.size) {d : Nat} {row : List Nat}
    (place : nfa.explored.rows[d]? = some row) (b : UInt8) :
    row[nfa.byteClasses.get b]? = some ((nfa.determinize rank).dfa.next d b) := by
  have inside := (Array.getElem?_eq_some_iff.1 place).1
  rw [(explored_spec nonempty).2.1] at inside
  have value := Array.getElem?_eq_getElem inside
  obtain ⟨i, entry, found⟩ := explored_row nonempty place value b
  have next := next_determinize rank nonempty value b
  rw [entry, Numbering.number_unique found next]

/-- A number in a row is where the representative of a class leads. -/
theorem representative_of_row (nonempty : 0 < nfa.states.size) {d i j : Nat} {row : List Nat}
    (place : nfa.explored.rows[d]? = some row) (entry : row[j]? = some i) :
    ∃ b, nfa.byteClasses.representatives[j]? = some b ∧ (nfa.determinize rank).dfa.next d b = i := by
  have inside := (Array.getElem?_eq_some_iff.1 place).1
  rw [(explored_spec nonempty).2.1] at inside
  have agree := (explored_spec nonempty).1.rows_agree d row _ place (Array.getElem?_eq_getElem inside)
  have found := congrArg (·[j]?) agree
  simp only [List.getElem?_map, successors, entry, Option.map_some] at found
  obtain ⟨b, representative, same⟩ : ∃ b, nfa.byteClasses.representatives[j]? = some b ∧
      nfa.explored.known.values[i]? = some (nfa.step nfa.explored.known.values[d] b) := by
    cases listed : nfa.byteClasses.representatives[j]? with
    | none =>
      rw [listed] at found
      cases found
    | some b =>
      rw [listed] at found
      exact ⟨b, rfl, Option.some.inj found⟩
  have next := next_determinize rank nonempty (Array.getElem?_eq_getElem inside) b
  exact ⟨b, representative, Numbering.number_unique next same⟩

/-- Every state but the reject state is reached by a string, and all earlier strings reach states of
lower numbers. -/
theorem exists_access (nonempty : 0 < nfa.states.size) {d : Nat}
    (inside : d < (nfa.determinize rank).dfa.size) (accessible : d ≠ Dfa.rejectId) :
    ∃ w, (nfa.determinize rank).dfa.run w = d ∧
      ∀ v, List.Shortlex (· < ·) v w → (nfa.determinize rank).dfa.run v < d := by
  induction d using Nat.strong_induction_on with
  | _ d ih =>
    by_cases new : d < 2
    · -- The start state is reached by the empty string, which is the first of all.
      have start : Dfa.startId = d := by
        simp only [Dfa.rejectId, Dfa.startId] at accessible ⊢
        omega
      exact ⟨[], start, fun v less => absurd less List.not_shortlex_nil_right⟩
    · have size := size_determinize rank nonempty
      obtain ⟨explored, complete, reject, start⟩ := explored_spec nonempty
      rw [size] at inside
      obtain ⟨e, row, j, less, place, entry, before, rowsBefore⟩ :=
        firstFound_explored nonempty d (Nat.le_of_not_lt new) inside
      have rowOf : ∀ s < nfa.explored.known.size, ∃ row, nfa.explored.rows[s]? = some row := by
        intro s bound
        rw [Numbering.size, ← complete] at bound
        exact ⟨_, Array.getElem?_eq_getElem bound⟩
      -- The place in the row is that of the lowest byte of a class.
      obtain ⟨b, representative, next⟩ := representative_of_row rank nonempty place entry
      obtain ⟨sameClass, lower⟩ := ByteClasses.representative_spec _ representative
      -- The state with that row is not the reject state, whose successors are itself.
      have leaves : e ≠ Dfa.rejectId := by
        rintro rfl
        have stays := (wellFormed_determinize rank nonempty).reject_next b
        exact accessible (next.symm.trans stays)
      have bound : e < (nfa.determinize rank).dfa.size := by
        rw [size]
        exact Nat.lt_trans less inside
      obtain ⟨w, reached, earlier⟩ := ih e less bound leaves
      refine ⟨w ++ [b], by rw [Dfa.run_append_singleton, reached, next], fun v first => ?_⟩
      rcases List.eq_nil_or_concat' v with rfl | ⟨u, c, rfl⟩
      · exact Nat.lt_of_lt_of_le Nat.one_lt_two (Nat.le_of_not_lt new)
      · rw [Dfa.run_append_singleton]
        rcases shortlex_of_append_singleton first with before' | ⟨rfl, lowerByte⟩
        · -- The string without its last byte leads to an earlier row.
          have lessRow := earlier u before'
          obtain ⟨row', place'⟩ := rowOf _ (Nat.lt_trans lessRow (Nat.lt_trans less inside))
          exact rowsBefore _ lessRow row' place' _
            (List.mem_of_getElem? (row_next rank nonempty place' c))
        · rw [reached]
          exact before _ (lower c lowerByte) _ (row_next rank nonempty place c)

end Nfa

end ScannerGen
