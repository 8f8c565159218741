import Mathlib
import ScannerGen.Proofs.Automaton.Recognition
import ScannerGen.Proofs.Pattern.NormalForm

/-!
# Counting the states of a pattern

How many states the fragment of a tree has does not depend on where it begins, so the automaton of a
list of patterns has as many states as the fragments together, and the start.

* `Fragment.Adds` — a way of making fragments with a fixed number of states; one lemma for each way of
  joining fragments.
* `Pattern.stateCount` — the number of states of a tree, with one equation for each constructor.
* `stateBounds_eq`, `stateBound_rep` — capped counts are plain counts that are capped once.
* `Uncapped` — the trees whose bound is a plain count; `Uncapped.stateCount_le` and
  `Uncapped.stateCount_eq` are inductions over it.
* `stateBound_sound` — both for automata, and the limit on what is read as a pattern.
-/

namespace ScannerGen

/-! ## Fragments of a fixed size -/

namespace Fragment

/-- Every fragment that is made has the same number of states. -/
def Adds (body : Nat → Fragment) (count : Nat) : Prop := ∀ base, (body base).next = base + count

variable {body : Nat → Fragment} {count : Nat} {bodies : List (Nat → Fragment)} {counts : List Nat}

theorem next_chain (adds : List.Forall₂ Adds bodies counts) (current next : Nat) :
    (chain bodies current next).next = next + counts.sum := by
  induction adds generalizing current next with
  | nil => rfl
  | cons head _ ih => rw [chain, ih, head, List.sum_cons, Nat.add_assoc]

theorem next_parallel (adds : List.Forall₂ Adds bodies counts) (start stop next : Nat) :
    (parallel bodies start stop next).next = next + counts.sum := by
  induction adds generalizing next with
  | nil => rfl
  | cons head _ ih => rw [parallel, ih, head, List.sum_cons, Nat.add_assoc]

theorem next_optionalCopies (adds : Adds body count) (current stop next copies : Nat) :
    (optionalCopies body current stop next copies).next = next + copies * count := by
  induction copies generalizing current next with
  | zero => simp [optionalCopies]
  | succ copies ih =>
    simp only [optionalCopies, ih, adds next, Nat.succ_mul]
    omega

theorem next_loop (adds : Adds body count) (current stop next : Nat) :
    (loop body current stop next).next = next + 1 + count := adds (next + 1)

theorem next_copies (adds : Adds body count) (current next copies : Nat) :
    (chain (List.replicate copies body) current next).next = next + copies * count := by
  have each : List.Forall₂ Adds (List.replicate copies body) (List.replicate copies count) :=
    List.forall₂_iff_get.2 ⟨by simp, by simpa using fun _ _ => adds⟩
  rw [next_chain each, List.sum_replicate_nat]

theorem adds_single (label : Option ByteSet) :
    Adds (fun base => ⟨base, base + 1, base + 2, [⟨base, label, base + 1⟩]⟩) 2 := fun _ => rfl

theorem adds_chain (adds : List.Forall₂ Adds bodies counts) :
    Adds (fun base => chain bodies base (base + 1)) (1 + counts.sum) := by
  intro base
  rw [next_chain adds, Nat.add_assoc]

theorem adds_parallel (adds : List.Forall₂ Adds bodies counts) :
    Adds (spanned [] (parallel bodies)) (2 + counts.sum) := by
  intro base
  show (parallel bodies base (base + 1) (base + 2)).next = _
  rw [next_parallel adds, Nat.add_assoc]

/-- The copies that have to be there, the hub and one more copy, between two new states. -/
theorem adds_repeated_none (adds : Adds body count) (min : Nat) :
    Adds (repeated body min none) (min * count + count + 3) := by
  intro base
  rw [repeated_none]
  simp only [spanned, next_loop adds, next_copies adds]
  omega

/-- The copies that have to be there and those that may, between two new states. -/
theorem adds_repeated_some (adds : Adds body count) (min max : Nat) :
    Adds (repeated body min (some max)) ((min + (max - min)) * count + 2) := by
  intro base
  rw [repeated_some]
  simp only [spanned, next_optionalCopies adds, next_copies adds, Nat.add_mul]
  omega

end Fragment

/-! ## The states of a tree -/

namespace Pattern

open Fragment (Adds)

/-- The number of states that a tree is compiled into. -/
def stateCount (p : Pattern) : Nat := (Fragment.ofPattern p 0).next

variable {body : Pattern} {ps : List Pattern}

theorem stateCount_of_adds {p : Pattern} {count : Nat} (adds : Adds (Fragment.ofPattern p) count) :
    p.stateCount = count := by
  rw [stateCount, adds 0, Nat.zero_add]

/-- A fixed number of states is the number of states. -/
theorem adds_stateCount {p : Pattern} {count : Nat} (adds : Adds (Fragment.ofPattern p) count) :
    Adds (Fragment.ofPattern p) p.stateCount := by
  rwa [stateCount_of_adds adds]

theorem forall₂_adds (each : ∀ p ∈ ps, Adds (Fragment.ofPattern p) p.stateCount) :
    List.Forall₂ Adds (ps.map Fragment.ofPattern) (ps.map stateCount) := by
  rw [List.forall₂_map_left_iff, List.forall₂_map_right_iff]
  exact List.forall₂_same.2 each

theorem adds_seq (each : ∀ p ∈ ps, Adds (Fragment.ofPattern p) p.stateCount) :
    Adds (Fragment.ofPattern (.seq ps)) (1 + (ps.map stateCount).sum) := by
  rw [Fragment.ofPattern_seq]
  exact Fragment.adds_chain (forall₂_adds each)

theorem adds_alt (each : ∀ p ∈ ps, Adds (Fragment.ofPattern p) p.stateCount) :
    Adds (Fragment.ofPattern (.alt ps)) (2 + (ps.map stateCount).sum) := by
  rw [Fragment.ofPattern_alt]
  exact Fragment.adds_parallel (forall₂_adds each)

theorem adds_rep_none (inside : Adds (Fragment.ofPattern body) body.stateCount) (min : Nat) :
    Adds (Fragment.ofPattern (.rep body min none)) (min * body.stateCount + body.stateCount + 3) := by
  rw [Fragment.ofPattern_rep]
  exact Fragment.adds_repeated_none inside min

theorem adds_rep_some (inside : Adds (Fragment.ofPattern body) body.stateCount) (min max : Nat) :
    Adds (Fragment.ofPattern (.rep body min (some max)))
      ((min + (max - min)) * body.stateCount + 2) := by
  rw [Fragment.ofPattern_rep]
  exact Fragment.adds_repeated_some inside min max

/-- The fragment of a tree has the same number of states wherever it begins. -/
theorem adds_ofPattern (p : Pattern) : Adds (Fragment.ofPattern p) p.stateCount := by
  -- Joining fragments of fixed sizes makes one of a fixed size, which then is the count.
  induction p with
  | empty => exact Fragment.adds_single none
  | set bytes => exact Fragment.adds_single (some bytes)
  | seq parts ih => exact adds_stateCount (adds_seq ih)
  | alt branches ih => exact adds_stateCount (adds_alt ih)
  | rep body min max ih =>
    cases max with
    | none => exact adds_stateCount (adds_rep_none ih min)
    | some max => exact adds_stateCount (adds_rep_some ih min max)

@[simp] theorem stateCount_empty : stateCount .empty = 2 := rfl

@[simp] theorem stateCount_set (bytes : ByteSet) : stateCount (.set bytes) = 2 := rfl

@[simp] theorem stateCount_seq (ps : List Pattern) :
    stateCount (.seq ps) = 1 + (ps.map stateCount).sum :=
  stateCount_of_adds (adds_seq fun p _ => adds_ofPattern p)

@[simp] theorem stateCount_alt (ps : List Pattern) :
    stateCount (.alt ps) = 2 + (ps.map stateCount).sum :=
  stateCount_of_adds (adds_alt fun p _ => adds_ofPattern p)

@[simp] theorem stateCount_rep_none (body : Pattern) (min : Nat) :
    stateCount (.rep body min none) = min * body.stateCount + body.stateCount + 3 :=
  stateCount_of_adds (adds_rep_none (adds_ofPattern body) min)

theorem stateCount_rep_some {min max : Nat} (ordered : min ≤ max) :
    stateCount (.rep body min (some max)) = max * body.stateCount + 2 := by
  rw [stateCount_of_adds (adds_rep_some (adds_ofPattern body) min max), Nat.add_sub_cancel' ordered]

theorem stateCount_pos (p : Pattern) : 0 < p.stateCount := by
  cases p with
  | empty => simp
  | set bytes => simp
  | seq ps => simp
  | alt ps => simp
  | rep body min max =>
    cases max with
    | none => simp
    | some max => simp [stateCount_of_adds (adds_rep_some (adds_ofPattern body) min max)]

/-! ## Capped counts -/

/-- A sum whose partial sums are capped is capped once. -/
theorem stateBounds_eq {count : Nat} (low : count ≤ stateCountLimit) (ps : List Pattern) :
    stateBounds count ps = Nat.min (count + (ps.map stateBound).sum) stateCountLimit := by
  induction ps generalizing count with
  | nil => exact (Nat.min_eq_left low).symm
  | cons p ps ih =>
    rw [stateBounds, addCapped, ih (Nat.min_le_right _ _), List.map_cons, List.sum_cons]
    -- A cap on the way is no lower than the one at the end.
    grind

theorem stateBound_seq (ps : List Pattern) :
    stateBound (.seq ps) = Nat.min (1 + (ps.map stateBound).sum) stateCountLimit :=
  stateBounds_eq (by decide) ps

theorem stateBound_alt (ps : List Pattern) :
    stateBound (.alt ps) = Nat.min (2 + (ps.map stateBound).sum) stateCountLimit :=
  stateBounds_eq (by decide) ps

theorem stateBound_rep (body : Pattern) (min : Nat) (max : Option Nat) :
    stateBound (.rep body min max) =
      Nat.min (body.stateBound * max.getD (min + 2) + 2) stateCountLimit := by
  rw [stateBound, addCapped, mulCapped]
  grind

/-- What is below the cap was not capped. -/
theorem eq_of_capped_lt {count : Nat} (below : Nat.min count stateCountLimit < stateCountLimit) :
    Nat.min count stateCountLimit = count ∧ count < stateCountLimit := by
  grind

theorem stateBound_lt_of_mem {count : Nat} {p : Pattern} (member : p ∈ ps)
    (below : count + (ps.map stateBound).sum < stateCountLimit) : p.stateBound < stateCountLimit := by
  have summand : p.stateBound ≤ (ps.map stateBound).sum :=
    List.le_sum_of_mem (List.mem_map_of_mem member)
  omega

theorem stateBound_lt_of_copies {copies : Nat} (some_copy : 0 < copies)
    (below : body.stateBound * copies + 2 < stateCountLimit) : body.stateBound < stateCountLimit := by
  have once : body.stateBound ≤ body.stateBound * copies := Nat.le_mul_of_pos_right _ some_copy
  omega

/-- Trees whose bound is a plain count.  What is repeated no times does not count, so its own bound may
be at the cap. -/
inductive Uncapped : Pattern → Prop
  | empty : Uncapped .empty
  | set (bytes : ByteSet) : Uncapped (.set bytes)
  | seq {ps : List Pattern} (plain : stateBound (.seq ps) = 1 + (ps.map stateBound).sum)
    (each : ∀ p ∈ ps, Uncapped p) : Uncapped (.seq ps)
  | alt {ps : List Pattern} (plain : stateBound (.alt ps) = 2 + (ps.map stateBound).sum)
    (each : ∀ p ∈ ps, Uncapped p) : Uncapped (.alt ps)
  | unbounded {body : Pattern} {min : Nat}
    (plain : stateBound (.rep body min none) = body.stateBound * (min + 2) + 2)
    (inside : Uncapped body) : Uncapped (.rep body min none)
  | omitted {body : Pattern} (plain : stateBound (.rep body 0 (some 0)) = 2) :
    Uncapped (.rep body 0 (some 0))
  | counted {body : Pattern} {min max : Nat} (least : min ≤ max)
    (plain : stateBound (.rep body min (some max)) = body.stateBound * max + 2)
    (inside : Uncapped body) : Uncapped (.rep body min (some max))

theorem uncapped_of_lt {p : Pattern} (ordered : p.countsOrdered = true)
    (below : p.stateBound < stateCountLimit) : p.Uncapped := by
  induction p with
  | empty => exact .empty
  | set bytes => exact .set bytes
  | seq ps ih =>
    have each := allCountsOrdered_iff.1 ordered
    rw [stateBound_seq] at below
    obtain ⟨plain, below⟩ := eq_of_capped_lt below
    exact .seq ((stateBound_seq ps).trans plain) fun p member =>
      ih p member (each p member) (stateBound_lt_of_mem member below)
  | alt ps ih =>
    have each := allCountsOrdered_iff.1 ordered
    rw [stateBound_alt] at below
    obtain ⟨plain, below⟩ := eq_of_capped_lt below
    exact .alt ((stateBound_alt ps).trans plain) fun p member =>
      ih p member (each p member) (stateBound_lt_of_mem member below)
  | rep body min max ih =>
    rw [countsOrdered, Bool.and_eq_true] at ordered
    rw [stateBound_rep] at below
    obtain ⟨plain, below⟩ := eq_of_capped_lt below
    replace plain := (stateBound_rep body min max).trans plain
    cases max with
    | none =>
      exact .unbounded plain (ih ordered.2 (stateBound_lt_of_copies (Nat.succ_pos _) below))
    | some max =>
      have least : min ≤ max := of_decide_eq_true ordered.1
      rcases Nat.eq_zero_or_pos max with rfl | some_copy
      · -- Nothing is known of the body, nor needed.
        obtain rfl := Nat.le_zero.1 least
        exact .omitted plain
      · exact .counted least plain (ih ordered.2 (stateBound_lt_of_copies some_copy below))

/-! ## The bound on the states of a tree -/

/-- The bound holds: an unbounded repetition has a hub in place of one of the copies that are counted
for it. -/
theorem Uncapped.stateCount_le {p : Pattern} (uncapped : p.Uncapped) : p.stateCount ≤ p.stateBound := by
  induction uncapped with
  | empty | set _ => exact Nat.le_refl 2
  | seq plain _ ih =>
    rw [plain, stateCount_seq]
    exact Nat.add_le_add_left (List.sum_le_sum ih) 1
  | alt plain _ ih =>
    rw [plain, stateCount_alt]
    exact Nat.add_le_add_left (List.sum_le_sum ih) 2
  | @unbounded body min plain _ ih =>
    have positive := body.stateCount_pos
    calc stateCount (.rep body min none)
        = min * body.stateCount + body.stateCount + 3 := stateCount_rep_none body min
      _ ≤ body.stateCount * (min + 2) + 2 := by grind
      _ ≤ body.stateBound * (min + 2) + 2 := by gcongr
      _ = stateBound (.rep body min none) := plain.symm
  | omitted plain => rw [plain, stateCount_rep_some (Nat.le_refl 0), Nat.zero_mul]
  | counted least plain _ ih =>
    rw [plain, stateCount_rep_some least, Nat.mul_comm]
    gcongr

/-- Every repetition inside a tree has a greatest count, and so has the tree itself if it is one. -/
def CountsBounded (p : Pattern) : Prop := ∀ body min, ¬ Within (.rep body min none) p

/-- Where every repetition has a greatest count, the bound is exact. -/
theorem Uncapped.stateCount_eq {p : Pattern} (uncapped : p.Uncapped) (bounded : p.CountsBounded) :
    p.stateCount = p.stateBound := by
  induction uncapped with
  | empty | set _ => rfl
  | seq plain _ ih =>
    have each := List.map_congr_left fun p member =>
      ih p member fun body min inside => bounded body min (.part member inside)
    rw [plain, stateCount_seq, each]
  | alt plain _ ih =>
    have each := List.map_congr_left fun p member =>
      ih p member fun body min inside => bounded body min (.branch member inside)
    rw [plain, stateCount_alt, each]
  | unbounded => exact absurd .whole (bounded _ _)
  | omitted plain => rw [plain, stateCount_rep_some (Nat.le_refl 0), Nat.zero_mul]
  | counted least plain _ ih =>
    have inside := ih fun body min inside => bounded body min (.body inside)
    rw [plain, stateCount_rep_some least, inside, Nat.mul_comm]

end Pattern

/-! ## The states of an automaton -/

namespace Nfa

theorem size_plan (ps : List Pattern) (token next : Nat) :
    (plan token next ps).size = next + (ps.map Pattern.stateCount).sum := by
  induction ps generalizing token next with
  | nil => rfl
  | cons p ps ih =>
    rw [plan, ih, p.adds_ofPattern next, List.map_cons, List.sum_cons, Nat.add_assoc]

/-- The start, and the states of every pattern. -/
theorem size_ofPatterns (ps : List Pattern) :
    (ofPatterns ps).states.size = 1 + (ps.map Pattern.stateCount).sum := by
  rw [ofPatterns, size_ofPlan, size_plan]

/-- A pattern between others adds its own states. -/
theorem size_ofPatterns_insert (before behind : List Pattern) (p : Pattern) :
    (ofPatterns (before ++ p :: behind)).states.size =
      (ofPatterns (before ++ behind)).states.size + p.stateCount := by
  simp only [size_ofPatterns, List.map_append, List.map_cons, List.sum_append, List.sum_cons]
  omega

end Nfa

/-- A tree whose counts are in order and whose bound is below the cap is compiled into some states, no
more than its bound, and as many where every repetition has a greatest count.  So a pattern that is
read, its references expanded, makes no automaton larger by more than the limit. -/
theorem stateBound_sound :
    (∀ p : Pattern, p.countsOrdered = true → p.stateBound < stateCountLimit →
      (∀ base, (Fragment.ofPattern p base).next = base + p.stateCount) ∧
      (∀ before behind, (Nfa.ofPatterns (before ++ p :: behind)).states.size =
        (Nfa.ofPatterns (before ++ behind)).states.size + p.stateCount) ∧
      0 < p.stateCount ∧ p.stateCount ≤ p.stateBound ∧
      (p.CountsBounded → p.stateCount = p.stateBound)) ∧
    ∀ macros owner source tree, Pattern.parse macros owner source = .ok tree → ∀ before behind,
      (Nfa.ofPatterns (before ++ tree :: behind)).states.size ≤
        (Nfa.ofPatterns (before ++ behind)).states.size + 65536 := by
  constructor
  · intro p ordered below
    have uncapped := Pattern.uncapped_of_lt ordered below
    exact ⟨p.adds_ofPattern, fun before behind => Nfa.size_ofPatterns_insert before behind p,
      p.stateCount_pos, uncapped.stateCount_le, uncapped.stateCount_eq⟩
  · intro macros owner source tree accepted before behind
    obtain ⟨normal, small, _⟩ := Pattern.parse_normal accepted
    have uncapped := Pattern.uncapped_of_lt normal.countsOrdered (Nat.lt_of_le_of_lt small (by decide))
    rw [Nfa.size_ofPatterns_insert]
    exact Nat.add_le_add_left (uncapped.stateCount_le.trans small) _

/-- The greatest count that a pattern can hold. -/
def greatestCount : Nat := 0xffffffff

/-- A part whose bound is at the cap.  It takes two counts to get there. -/
def cappedPart : Pattern := .rep (.rep (.byte 0x61) 2 (some greatestCount)) 0 (some greatestCount)

/-- The part repeated no times, and a byte. -/
def cancelledParts : Pattern := .seq [.rep cappedPart 0 (some 0), .byte 0x62]

/-- The part at the cap adds only the two states of its repetition. -/
theorem stateBound_sound_cancelled :
    (cappedPart.stateBound = stateCountLimit ∧
      cancelledParts.countsOrdered = true ∧ cancelledParts.stateBound = 5 ∧
      ∀ before behind, (Nfa.ofPatterns (before ++ cancelledParts :: behind)).states.size =
        (Nfa.ofPatterns (before ++ behind)).states.size + 5) ∧
    Pattern.parse .empty (.named "unit") "a*" = .ok (.rep (.byte 0x61) 0 none) ∧
      (Nfa.ofPatterns [cancelledParts, .rep (.byte 0x61) 0 none]).states.size ≤
        (Nfa.ofPatterns [cancelledParts]).states.size + 65536 := by
  have ordered : cancelledParts.countsOrdered = true := by decide
  have bound : cancelledParts.stateBound = 5 := by decide
  have bounded : cancelledParts.CountsBounded := by
    intro body min inside
    cases inside with
    | part member inside =>
      simp only [List.mem_cons, List.not_mem_nil, or_false] at member
      rcases member with rfl | rfl
      · cases inside with
        | body inside =>
          cases inside with
          | body inside =>
            cases inside with
            | body inside => cases inside
      · cases inside
  obtain ⟨_, added, _, _, attained⟩ := stateBound_sound.1 _ ordered (by rw [bound]; decide)
  have accepted : Pattern.parse .empty (.named "unit") "a*" = .ok (.rep (.byte 0x61) 0 none) :=
    Pattern.parseFragment_iff.2 ⟨_, .complete (.branch (.item (.repeated
      (.once (.byte (by decide))) .star (by decide)))) (by decide), rfl⟩
  refine ⟨⟨by decide, ordered, bound, fun before behind => ?_⟩, accepted,
    stateBound_sound.2 _ _ _ _ accepted [cancelledParts] []⟩
  rw [added, attained bounded, bound]

end ScannerGen
