import ScannerGen.Proofs.Automaton.Minimal
import ScannerGen.Proofs.Automaton.Simulation

/-!
# Minimal automata are minimal

States that are not merged are told apart by some string, so no more of them could be merged.  The
start state is the exception: it is kept by itself even where another state does the same.

* `Separates` — after a string two states name different winners.
* `Witnessed` — the classes of a partition are told apart; each round of refining keeps that.
* `exists_separates` — where nothing leads to the start, winners alone tell the classes apart.
* `minimize_eq_self` — an automaton whose states are told apart is its own minimal automaton, with
  the same numbers.
-/

namespace ScannerGen.Dfa

variable {dfa : Dfa} {partition : Partition}

/-! ## Runs from any state -/

/-- The state after a string that is read from some state on. -/
def after (dfa : Dfa) (s : Nat) (w : List UInt8) : Nat := w.foldl dfa.next s

theorem after_append_singleton (dfa : Dfa) (s : Nat) (w : List UInt8) (b : UInt8) :
    dfa.after s (w ++ [b]) = dfa.next (dfa.after s w) b := by
  simp [after]

theorem run_append (dfa : Dfa) (v w : List UInt8) :
    dfa.run (v ++ w) = dfa.after (dfa.run v) w :=
  List.foldl_append

theorem WellFormed.after_lt (wellFormed : dfa.WellFormed) {s : Nat} (inside : s < dfa.size)
    (w : List UInt8) : dfa.after s w < dfa.size := by
  induction w using List.reverseRecOn with
  | nil => exact inside
  | append_singleton w b ih =>
    rw [after_append_singleton]
    exact wellFormed.next_lt _ ih b

theorem after_ne_start (apart : ∀ s b, dfa.next s b ≠ dfa.start) {s : Nat} (differ : s ≠ dfa.start)
    (w : List UInt8) : dfa.after s w ≠ dfa.start := by
  rcases List.eq_nil_or_concat' w with rfl | ⟨v, b, rfl⟩
  · exact differ
  · rw [after_append_singleton]
    exact apart _ b

/-- Strings lead merged states to merged states. -/
theorem Congruence.get_after (congruence : dfa.Congruence partition) (wellFormed : dfa.WellFormed)
    {s t : Nat} (insideS : s < dfa.size) (insideT : t < dfa.size)
    (same : partition.get s = partition.get t) (w : List UInt8) :
    partition.get (dfa.after s w) = partition.get (dfa.after t w) := by
  induction w using List.reverseRecOn with
  | nil => exact same
  | append_singleton w b ih =>
    rw [after_append_singleton, after_append_singleton]
    exact congruence.next_eq _ (wellFormed.after_lt insideS w) _ (wellFormed.after_lt insideT w) ih b

theorem after_rename (congruence : dfa.Congruence partition) (wellFormed : dfa.WellFormed) {s : Nat}
    (inside : s < dfa.size) (w : List UInt8) :
    (dfa.quotient partition).after (dfa.rename partition s) w =
      dfa.rename partition (dfa.after s w) := by
  induction w using List.reverseRecOn with
  | nil => rfl
  | append_singleton w b ih =>
    rw [after_append_singleton, after_append_singleton, ih]
    exact next_rename congruence (wellFormed.after_lt inside w) b

/-! ## Strings that tell states apart -/

/-- After a string, a token wins from one of two states that does not win from the other. -/
def Separates (dfa : Dfa) (w : List UInt8) (s t : Nat) : Prop :=
  dfa.token? (dfa.after s w) ≠ dfa.token? (dfa.after t w)

/-- States of different classes are led by some string to states that the initial partition keeps
apart. -/
def Witnessed (dfa : Dfa) (partition : Partition) : Prop :=
  ∀ s < dfa.size, ∀ t < dfa.size, partition.get s ≠ partition.get t →
    ∃ w, dfa.initialPartition.get (dfa.after s w) ≠ dfa.initialPartition.get (dfa.after t w)

theorem witnessed_initialPartition (dfa : Dfa) : dfa.Witnessed dfa.initialPartition :=
  fun _ _ _ _ differ => ⟨[], differ⟩

/-- A round of refining splits states that one more byte leads to different classes. -/
theorem Witnessed.refine (wellFormed : dfa.WellFormed) (bytes : List UInt8)
    (witnessed : dfa.Witnessed partition) : dfa.Witnessed (dfa.refine bytes partition) := by
  intro s insideS t insideT differ
  rw [Ne, get_refine bytes partition insideS insideT, Classical.not_and_iff_not_or_not] at differ
  rcases differ with before | split
  · exact witnessed s insideS t insideT before
  · push Not at split
    obtain ⟨b, _, apart⟩ := split
    obtain ⟨w, found⟩ :=
      witnessed _ (wellFormed.next_lt s insideS b) _ (wellFormed.next_lt t insideT b) apart
    exact ⟨b :: w, found⟩

theorem RefinesTo.witnessed (wellFormed : dfa.WellFormed) {bytes : List UInt8} {final : Partition}
    (refining : dfa.RefinesTo bytes partition final) (witnessed : dfa.Witnessed partition) :
    dfa.Witnessed final := by
  induction refining with
  | ended _ => exact witnessed.refine wellFormed bytes
  | again _ _ ih => exact ih (witnessed.refine wellFormed bytes)

/-- Where nothing leads to the start, states of different classes are told apart by a winner. -/
theorem exists_separates (wellFormed : dfa.WellFormed) (apart : ∀ s b, dfa.next s b ≠ dfa.start)
    {s t : Nat} (insideS : s < dfa.size) (insideT : t < dfa.size) (notStartS : s ≠ dfa.start)
    (notStartT : t ≠ dfa.start) (differ : dfa.stablePartition.get s ≠ dfa.stablePartition.get t) :
    ∃ w, dfa.Separates w s t := by
  obtain ⟨w, found⟩ := (refinesTo_stablePartition dfa).witnessed wellFormed
    (witnessed_initialPartition dfa) s insideS t insideT differ
  refine ⟨w, fun same => found ?_⟩
  -- Neither state after the string is the start, so the winners alone decide.
  rw [get_initialPartition (wellFormed.after_lt insideS w) (wellFormed.after_lt insideT w),
    beq_false_of_ne (after_ne_start apart notStartS w),
    beq_false_of_ne (after_ne_start apart notStartT w)]
  exact ⟨rfl, same⟩

/-! ## States of the minimal automaton -/

theorem get_eq_of_rename_eq (covers : partition.Covers dfa.size) {s t : Nat}
    (insideS : s < dfa.size) (insideT : t < dfa.size)
    (same : dfa.rename partition s = dfa.rename partition t) :
    partition.get s = partition.get t := by
  have first := (rename_eq_iff covers insideS).1 same
  have second := (rename_eq_iff covers insideT).1 rfl
  exact Option.some.inj (first.symm.trans second)

theorem rename_stablePartition_start (wellFormed : dfa.WellFormed) :
    dfa.rename dfa.stablePartition dfa.start = dfa.minimize.start :=
  (rename_reject_start wellFormed (congruence_stablePartition wellFormed)).2

/-- Where nothing leads to the start, nothing leads to the start of the minimal automaton. -/
theorem next_minimize_ne_start (wellFormed : dfa.WellFormed)
    (apart : ∀ s b, dfa.next s b ≠ dfa.start) (i : Nat) (b : UInt8) :
    dfa.minimize.next i b ≠ dfa.minimize.start := by
  have congruence := congruence_stablePartition wellFormed
  by_cases inside : i < dfa.minimize.size
  · obtain ⟨s, insideS, rfl⟩ := exists_rename wellFormed congruence inside
    intro entered
    rw [minimize, next_rename congruence insideS b, ← minimize,
      ← rename_stablePartition_start wellFormed] at entered
    have bound := wellFormed.next_lt s insideS b
    have merged := get_eq_of_rename_eq congruence.covers bound wellFormed.start_lt entered
    exact apart s b (congruence.start_apart _ bound merged)
  · rw [next_of_le (Nat.le_of_not_lt inside)]
    exact Nat.zero_ne_one

/-- Any two states are told apart, the start state aside. -/
def StatesApart (dfa : Dfa) : Prop :=
  ∀ s < dfa.size, ∀ t < dfa.size, s ≠ dfa.start → t ≠ dfa.start → s ≠ t → ∃ w, dfa.Separates w s t

theorem statesApart_minimize (wellFormed : dfa.WellFormed)
    (apart : ∀ s b, dfa.next s b ≠ dfa.start) : dfa.minimize.StatesApart := by
  have congruence := congruence_stablePartition wellFormed
  intro i insideI j insideJ notStartI notStartJ differ
  obtain ⟨s, insideS, rfl⟩ := exists_rename wellFormed congruence insideI
  obtain ⟨t, insideT, rfl⟩ := exists_rename wellFormed congruence insideJ
  have notStart : ∀ s, dfa.rename dfa.stablePartition s ≠ dfa.minimize.start → s ≠ dfa.start := by
    rintro s renamed rfl
    exact renamed (rename_stablePartition_start wellFormed)
  -- States of the minimal automaton are classes, and what tells members apart tells classes apart.
  obtain ⟨w, separates⟩ := exists_separates wellFormed apart insideS insideT
    (notStart s notStartI) (notStart t notStartJ) (mt rename_congr differ)
  refine ⟨w, ?_⟩
  rw [Separates, minimize, after_rename congruence wellFormed insideS,
    after_rename congruence wellFormed insideT, token?_rename congruence (wellFormed.after_lt insideS w),
    token?_rename congruence (wellFormed.after_lt insideT w)]
  exact separates

/-! ## Minimizing once more -/

/-- States that are told apart are not merged. -/
theorem StatesApart.get_injective (statesApart : dfa.StatesApart) (wellFormed : dfa.WellFormed)
    (congruence : dfa.Congruence partition) {s t : Nat} (insideS : s < dfa.size)
    (insideT : t < dfa.size) (same : partition.get s = partition.get t) : s = t := by
  by_contra differ
  have notStartS : s ≠ dfa.start := by
    rintro rfl
    exact differ (congruence.start_apart t insideT same.symm).symm
  have notStartT : t ≠ dfa.start := by
    rintro rfl
    exact differ (congruence.start_apart s insideS same)
  obtain ⟨w, separates⟩ := statesApart s insideS t insideT notStartS notStartT differ
  exact separates (congruence.token_eq _ (wellFormed.after_lt insideS w) _
    (wellFormed.after_lt insideT w) (congruence.get_after wellFormed insideS insideT same w))

theorem getElem?_classes (covers : partition.Covers dfa.size) {s : Nat} (inside : s < dfa.size) :
    partition.classes.toList[s]? = some (partition.get s) := by
  have bound : s < partition.classes.size := covers.size_eq ▸ inside
  rw [Array.getElem?_toList, Partition.get, Array.getD_eq_getD_getElem?,
    Array.getElem?_eq_getElem bound, Option.getD_some]

theorem nodup_classes (covers : partition.Covers dfa.size)
    (injective : ∀ s < dfa.size, ∀ t < dfa.size, partition.get s = partition.get t → s = t) :
    partition.classes.toList.Nodup := by
  rw [List.nodup_iff_getElem?_ne_getElem?]
  intro s t less bound same
  rw [Array.length_toList, covers.size_eq] at bound
  have inside := Nat.lt_trans less bound
  rw [getElem?_classes covers inside, getElem?_classes covers bound, Option.some.injEq] at same
  exact Nat.ne_of_lt less (injective s inside t bound same)

/-- With every state in a class of its own, the classes are numbered in the order of the states. -/
theorem values_mergedOrder (wellFormed : dfa.WellFormed) (reject : dfa.reject = rejectId)
    (start : dfa.start = startId) (covers : partition.Covers dfa.size)
    (distinct : partition.classes.toList.Nodup) :
    (dfa.mergedOrder partition).values.toList = partition.classes.toList := by
  have first := getElem?_classes covers (reject ▸ wellFormed.reject_lt)
  have second := getElem?_classes covers (start ▸ wellFormed.start_lt)
  rw [mergedOrder, reject, start]
  -- The list begins with the classes of the first two states.
  cases listed : partition.classes.toList with
  | nil =>
    rw [listed] at first
    cases first
  | cons c cs =>
    cases cs with
    | nil =>
      rw [listed] at second
      cases second
    | cons d cs =>
      rw [listed] at first second distinct
      cases first
      cases second
      exact Numbering.values_numberAll_front distinct

theorem rename_of_distinct (wellFormed : dfa.WellFormed) (reject : dfa.reject = rejectId)
    (start : dfa.start = startId) (covers : partition.Covers dfa.size)
    (distinct : partition.classes.toList.Nodup) {s : Nat} (inside : s < dfa.size) :
    dfa.rename partition s = s := by
  rw [rename_eq_iff covers inside, ← Array.getElem?_toList,
    values_mergedOrder wellFormed reject start covers distinct]
  exact getElem?_classes covers inside

/-- A state is given by its successors and its winner. -/
theorem State.ext_next {state state' : State} (next : ∀ b, state.next b = state'.next b)
    (token : state.token = state'.token) : state = state' := by
  obtain ⟨successors, winner⟩ := state
  obtain ⟨successors', winner'⟩ := state'
  have same : successors = successors' :=
    Vector.ext fun i bound => next (UInt8.ofFin ⟨i, bound⟩)
  rw [same, show winner = winner' from token]

/-- An automaton whose states are told apart is left as it is. -/
theorem StatesApart.minimize_eq_self (statesApart : dfa.StatesApart) (wellFormed : dfa.WellFormed)
    (reject : dfa.reject = rejectId) (start : dfa.start = startId) : dfa.minimize = dfa := by
  have congruence := congruence_stablePartition wellFormed
  have covers := congruence.covers
  have injective : ∀ s < dfa.size, ∀ t < dfa.size,
      dfa.stablePartition.get s = dfa.stablePartition.get t → s = t :=
    fun s insideS t insideT => statesApart.get_injective wellFormed congruence insideS insideT
  have renamed : ∀ s < dfa.size, dfa.rename dfa.stablePartition s = s := fun s =>
    rename_of_distinct wellFormed reject start covers (nodup_classes covers injective)
  have size : dfa.minimize.size = dfa.size := by
    -- The last state is among the merged ones.
    have some_state := wellFormed.start_lt
    have last : dfa.size - 1 < dfa.size := by omega
    have kept : dfa.rename dfa.stablePartition (dfa.size - 1) < dfa.minimize.size :=
      rename_lt covers last
    have fewer := size_minimize_le wellFormed
    rw [renamed _ last] at kept
    omega
  have states : dfa.minimize.states = dfa.states := by
    refine Array.ext size fun s insideMinimal inside => State.ext_next (fun b => ?_) ?_
    · -- Every state is its own merger, and so is its successor.
      have next := next_rename congruence inside b
      rw [renamed s inside, renamed _ (wellFormed.next_lt s inside b), ← minimize] at next
      rwa [next_of_lt insideMinimal, next_of_lt inside] at next
    · have token := token?_rename congruence inside
      rw [renamed s inside, ← minimize] at token
      rwa [token?_of_lt insideMinimal, token?_of_lt inside] at token
  calc dfa.minimize = ⟨dfa.minimize.states, startId, rejectId⟩ := rfl
    _ = ⟨dfa.states, dfa.start, dfa.reject⟩ := by rw [states, reject, start]

/-- Minimizing the automaton of any trees, with any ranks, leaves no two states that could be merged:
the start aside, any two of them are told apart by a string.  Minimizing again changes nothing. -/
theorem minimize_determinize_minimal (trees : List Pattern) (rank : Nat → Nat) :
    let minimal := ((Nfa.ofPatterns trees).determinize rank).dfa.minimize
    (∀ s < minimal.size, ∀ t < minimal.size, s ≠ minimal.start → t ≠ minimal.start → s ≠ t →
      ∃ w, minimal.Separates w s t) ∧
    minimal.minimize = minimal := by
  have nonempty := Nfa.ofPatterns_nonempty trees
  have wellFormed := Nfa.wellFormed_determinize rank nonempty
  have statesApart := statesApart_minimize wellFormed
    (Nfa.next_ne_startId rank nonempty (Nfa.ofPatterns_startApart trees))
  exact ⟨statesApart, statesApart.minimize_eq_self (wellFormed_minimize wellFormed) rfl rfl⟩

end ScannerGen.Dfa
