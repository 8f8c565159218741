import ScannerGen.Proofs.Automaton.StateCount
import ScannerGen.Proofs.Pattern.SizeChecks

/-!
# What the limit on sizes refuses

The bound on the states of a tree counts two copies more than the least count for a repetition without a
greatest one, while its automaton has one copy more and a hub.  So the limit refuses the trees that would
be too large if such repetitions were written out, which may be much larger than they are.

* `unrolled`, `stateBound_eq_unrolled` — the bound is the number of states of the unrolled tree.
* `sizeRefused_iff` — a pattern is refused for its size at a tree that is too large when unrolled; if
  every repetition in it has a greatest count, it is too large as it stands.
* `starred_refused` — a byte with fifteen stars is refused, though its automaton is small.
-/

namespace ScannerGen.Pattern

/-! ## Unrolled trees -/

mutual

/-- The tree with each repetition that has no greatest count written as two copies more than its least
count. -/
def unrolled : Pattern → Pattern
  | .empty => .empty
  | .set bytes => .set bytes
  | .seq parts => .seq (unrolledAll parts)
  | .alt branches => .alt (unrolledAll branches)
  | .rep body min none => .rep (unrolled body) (min + 2) (some (min + 2))
  | .rep body min (some max) => .rep (unrolled body) min (some max)

def unrolledAll : List Pattern → List Pattern
  | [] => []
  | p :: ps => unrolled p :: unrolledAll ps

end

theorem unrolledAll_eq_map (ps : List Pattern) : unrolledAll ps = ps.map unrolled := by
  induction ps with
  | nil => rfl
  | cons p ps ih => rw [unrolledAll, ih, List.map_cons]

/-- Where every repetition has a greatest count there is nothing to unroll. -/
theorem CountsBounded.unrolled_eq {p : Pattern} (bounded : p.CountsBounded) : p.unrolled = p := by
  induction p with
  | empty => rfl
  | set bytes => rfl
  | seq parts ih =>
    have each : ∀ p ∈ parts, p.unrolled = id p := fun p member =>
      ih p member fun body min inside => bounded body min (.part member inside)
    rw [unrolled, unrolledAll_eq_map, List.map_congr_left each, List.map_id]
  | alt branches ih =>
    have each : ∀ p ∈ branches, p.unrolled = id p := fun p member =>
      ih p member fun body min inside => bounded body min (.branch member inside)
    rw [unrolled, unrolledAll_eq_map, List.map_congr_left each, List.map_id]
  | rep body min max ih =>
    have inside := ih fun body min inside => bounded body min (.body inside)
    cases max with
    | none => exact absurd .whole (bounded body min)
    | some max => rw [unrolled, inside]

/-! ## The bound on unrolled trees -/

/-- Capping the summands changes nothing about a sum that is capped. -/
theorem capped_sum {α : Type} (count : Nat) (f : α → Nat) (xs : List α) :
    Nat.min (count + (xs.map fun x => Nat.min (f x) stateCountLimit).sum) stateCountLimit =
      Nat.min (count + (xs.map f).sum) stateCountLimit := by
  induction xs generalizing count with
  | nil => rfl
  | cons x xs ih =>
    simp only [List.map_cons, List.sum_cons, ← Nat.add_assoc, ih]
    grind

/-- Capping a factor changes nothing about a product that is capped. -/
theorem capped_mul (count copies : Nat) :
    Nat.min (Nat.min count stateCountLimit * copies + 2) stateCountLimit =
      Nat.min (count * copies + 2) stateCountLimit := by
  rcases Nat.le_total count stateCountLimit with below | above
  · have same : Nat.min count stateCountLimit = count := Nat.min_eq_left below
    rw [same]
  · have capped : Nat.min count stateCountLimit = stateCountLimit := Nat.min_eq_right above
    rw [capped]
    rcases Nat.eq_zero_or_pos copies with rfl | some_copy
    · simp
    · have once : stateCountLimit ≤ stateCountLimit * copies := Nat.le_mul_of_pos_right _ some_copy
      have more : stateCountLimit * copies ≤ count * copies := Nat.mul_le_mul_right copies above
      grind

/-- The bound of a tree is the number of states that it has when it is unrolled, up to the cap. -/
theorem stateBound_eq_unrolled {p : Pattern} (ordered : p.countsOrdered = true) :
    p.stateBound = Nat.min p.unrolled.stateCount stateCountLimit := by
  induction p with
  | empty => rfl
  | set bytes => rfl
  | seq parts ih =>
    have each := List.map_congr_left fun p member => ih p member (allCountsOrdered_iff.1 ordered p member)
    rw [stateBound_seq, each, capped_sum, unrolled, unrolledAll_eq_map, stateCount_seq, List.map_map]
    rfl
  | alt branches ih =>
    have each := List.map_congr_left fun p member => ih p member (allCountsOrdered_iff.1 ordered p member)
    rw [stateBound_alt, each, capped_sum, unrolled, unrolledAll_eq_map, stateCount_alt, List.map_map]
    rfl
  | rep body min max ih =>
    rw [countsOrdered, Bool.and_eq_true] at ordered
    rw [stateBound_rep, ih ordered.2, capped_mul]
    cases max with
    | none => rw [unrolled, stateCount_rep_some (Nat.le_refl _), Nat.mul_comm, Option.getD_none]
    | some max =>
      rw [unrolled, stateCount_rep_some (of_decide_eq_true ordered.1), Nat.mul_comm, Option.getD_some]

/-- What is above the limit is above it when it is unrolled. -/
theorem maxStates_lt_stateBound_iff {p : Pattern} (normal : p.Normal) :
    maxStates < p.stateBound ↔ 65536 < p.unrolled.stateCount := by
  have belowCap : 65536 < stateCountLimit := by decide
  rw [stateBound_eq_unrolled normal.countsOrdered, maxStates]
  exact ⟨fun above => (Nat.lt_min.1 above).1, fun above => Nat.lt_min.2 ⟨above, belowCap⟩⟩

/-! ## Refusals -/

/-- A pattern is refused for its size, under an owner and at a position, exactly at a checked tree that
would need more than 65536 states with its unbounded repetitions written out.  If it has none, then it
adds more states than that to every automaton. -/
theorem sizeRefused_iff (macros : MacroTable) (owner owner' : Owner) (source : String) (position : Nat) :
    (parse macros owner source = .error (.invalid owner' position .tooManyStates) ↔
      ∃ p, Checked macros [] owner (utf8 source) owner' position p ∧ 65536 < p.unrolled.stateCount ∧
        (p.CountsBounded → ∀ before behind, (Nfa.ofPatterns (before ++ behind)).states.size + 65536 <
          (Nfa.ofPatterns (before ++ p :: behind)).states.size)) ∧
    Fault.tooManyStates.message = "pattern expands to more than 65536 automaton states" := by
  refine ⟨⟨fun refused => ?_, ?_⟩, by decide⟩
  · obtain ⟨p, checked, large⟩ := checked_of_refused refused
    have unrolledLarge := (maxStates_lt_stateBound_iff checked.normal).1 large
    refine ⟨p, checked, unrolledLarge, fun bounded before behind => ?_⟩
    rw [bounded.unrolled_eq] at unrolledLarge
    rw [Nfa.size_ofPatterns_insert]
    exact Nat.add_lt_add_left unrolledLarge _
  · rintro ⟨p, checked, unrolledLarge, _⟩
    exact refused_of_checked checked ((maxStates_lt_stateBound_iff checked.normal).2 unrolledLarge) rfl

/-! ## Stars upon stars -/

/-- A byte with stars behind it. -/
def starred : Nat → Pattern
  | 0 => byte 0x61
  | stars + 1 => .rep (starred stars) 0 none

def starredText (stars : Nat) (rest : List UInt8) : List UInt8 :=
  0x61 :: (List.replicate stars Ascii.star ++ rest)

theorem flat_starred (stars : Nat) : (starred stars).flat = starred stars := by
  induction stars with
  | zero => rfl
  | succ stars ih => rw [starred, flat, ih]

/-- Each star adds three states. -/
theorem stateCount_starred (stars : Nat) : (starred stars).stateCount = 3 * stars + 2 := by
  induction stars with
  | zero => rfl
  | succ stars ih =>
    rw [starred, stateCount_rep_none, ih]
    omega

/-- Fourteen stars pass. -/
theorem stateBound_starred_le {stars : Nat} (few : stars ≤ 14) :
    (starred stars).stateBound ≤ maxStates := by
  have each : ∀ stars ≤ 14, (starred stars).stateBound ≤ maxStates := by decide
  exact each stars few

theorem derives_starred {stars : Nat} (few : stars ≤ 14) (rest : List UInt8) :
    Derives .empty .repetition [] (starredText stars rest) rest (starred stars) := by
  induction stars generalizing rest with
  | zero => exact .once (.byte (by decide))
  | succ stars ih =>
    have before := ih (Nat.le_of_succ_le few) (Ascii.star :: rest)
    have text : starredText stars (Ascii.star :: rest) = starredText (stars + 1) rest := by
      rw [starredText, starredText, List.replicate_succ', List.append_assoc, List.singleton_append]
    rw [text] at before
    refine .repeated before .star ?_
    rw [← starred, flat_starred]
    exact stateBound_starred_le few

/-- The bound doubles with each star, and so fifteen of them are refused.  The tree that is refused
is compiled into 47 states. -/
theorem starred_refused :
    parse .empty (.named "t") "a***************" = .error (.invalid (.named "t") 15 .tooManyStates) ∧
      Checked .empty [] (.named "t") (utf8 "a***************") (.named "t") 15 (starred 15) ∧
      (Nfa.ofPatterns [starred 15]).states.size = 48 := by
  have text : utf8 "a***************" = starredText 14 [Ascii.star] := by decide
  have checked : Checked .empty [] (.named "t") (utf8 "a***************") (.named "t") 15 (starred 15) := by
    have repetition := @Checked.repetition _ _ (.named "t") _ _ _ _ _ _ _ .first
      (derives_starred (Nat.le_refl 14) [Ascii.star]) .star
    rw [← starred, flat_starred] at repetition
    rw [text]
    exact repetition
  refine ⟨refused_of_checked checked (by decide +kernel) rfl, checked, ?_⟩
  rw [Nfa.size_ofPatterns, List.map_singleton, List.sum_singleton, stateCount_starred]

end ScannerGen.Pattern
