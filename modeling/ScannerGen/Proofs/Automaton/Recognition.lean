import ScannerGen.Proofs.Automaton.Fragments

/-!
# What an automaton recognises

The automaton of a list of patterns accepts the token of a pattern after exactly the strings of
its language.  All fragments hang off one start, and only the start is shared: the states of
different patterns lie in different ranges, so no pattern accepts for another.

* `takes_ofPlan`, `token_ofPlan` — what the states hold once the plan is carried out.
* `plan_annotated`, `plan_traversed` — the two halves of `Fragment.Compiles`, for a whole plan.
* `mem_accepting_run_iff` — the tokens accepted after a string.
-/

namespace ScannerGen.Nfa

open Fragment (Compiles Ranged Within)

/-! ## Carrying out a plan -/

variable {states : Array State}

/-- A state that has no number of the automaton is fresh. -/
def stateAt (states : Array State) (s : Nat) : State := states.getD s .fresh

@[simp] theorem size_addTransition (states : Array State) (t : Transition) :
    (addTransition states t).size = states.size := Array.size_modify

@[simp] theorem size_addAccept (states : Array State) (accept : Nat × Nat) :
    (addAccept states accept).size = states.size := Array.size_modify

theorem stateAt_modify {s t : Nat} (inside : t < states.size) (f : State → State) :
    stateAt (states.modify s f) t = if s = t then f (stateAt states t) else stateAt states t := by
  simp only [stateAt, Array.getD_eq_getD_getElem?, Array.getElem?_modify,
    Array.getElem?_eq_getElem inside]
  split <;> rfl

theorem State.has_add {state : State} {label label' : Option ByteSet} {target target' : Nat} :
    (state.add label target).Has label' target' ↔
      state.Has label' target' ∨ (label = label' ∧ target = target') := by
  cases label <;> cases label' <;> simp [State.add, State.Has, eq_comm]

theorem has_addTransition {t : Transition} {s target : Nat} {label : Option ByteSet}
    (inside : s < states.size) :
    (stateAt (addTransition states t) s).Has label target ↔
      (stateAt states s).Has label target ∨ t = ⟨s, label, target⟩ := by
  rw [addTransition, stateAt_modify inside]
  obtain ⟨source, label', target'⟩ := t
  by_cases same : source = s
  · simp [same, State.has_add]
  · simp [same]

theorem has_foldl_addTransition {ts : List Transition} {s target : Nat} {label : Option ByteSet}
    (inside : s < states.size) :
    (stateAt (ts.foldl addTransition states) s).Has label target ↔
      (stateAt states s).Has label target ∨ ⟨s, label, target⟩ ∈ ts := by
  induction ts generalizing states with
  | nil => simp
  | cons t ts ih =>
    rw [List.foldl_cons, ih (by simpa using inside), has_addTransition inside, List.mem_cons, or_assoc,
      eq_comm (a := t)]

theorem size_foldl_addTransition (ts : List Transition) (states : Array State) :
    (ts.foldl addTransition states).size = states.size := by
  induction ts generalizing states with
  | nil => rfl
  | cons t ts ih => rw [List.foldl_cons, ih, size_addTransition]

theorem token_foldl_addTransition {ts : List Transition} {s : Nat} (inside : s < states.size) :
    (stateAt (ts.foldl addTransition states) s).token = (stateAt states s).token := by
  induction ts generalizing states with
  | nil => rfl
  | cons t ts ih =>
    rw [List.foldl_cons, ih (by simpa using inside), addTransition, stateAt_modify inside]
    split
    · cases t.label <;> rfl
    · rfl

theorem has_foldl_addAccept {accepts : List (Nat × Nat)} {s target : Nat} {label : Option ByteSet}
    (inside : s < states.size) :
    (stateAt (accepts.foldl addAccept states) s).Has label target ↔
      (stateAt states s).Has label target := by
  induction accepts generalizing states with
  | nil => rfl
  | cons accept accepts ih =>
    rw [List.foldl_cons, ih (by simpa using inside), addAccept, stateAt_modify inside]
    split
    · cases label <;> rfl
    · rfl

theorem size_foldl_addAccept (accepts : List (Nat × Nat)) (states : Array State) :
    (accepts.foldl addAccept states).size = states.size := by
  induction accepts generalizing states with
  | nil => rfl
  | cons accept accepts ih => rw [List.foldl_cons, ih, size_addAccept]

/-- Where no state is told twice what to accept, every state accepts what it was told. -/
theorem token_foldl_addAccept {accepts : List (Nat × Nat)} {s token : Nat}
    (inside : s < states.size) (apart : accepts.Pairwise fun a b => a.1 ≠ b.1) :
    (stateAt (accepts.foldl addAccept states) s).token = some token ↔
      (s, token) ∈ accepts ∨
        ((∀ accept ∈ accepts, accept.1 ≠ s) ∧ (stateAt states s).token = some token) := by
  induction accepts generalizing states with
  | nil => simp
  | cons accept accepts ih =>
    obtain ⟨headApart, tailApart⟩ := List.pairwise_cons.1 apart
    rw [List.foldl_cons, ih (by simpa using inside) tailApart, addAccept, stateAt_modify inside,
      List.mem_cons, List.forall_mem_cons]
    obtain ⟨stop, accepted⟩ := accept
    by_cases same : stop = s
    · -- The head tells `s` what to accept, so nothing later does.
      subst same
      have notLater : ∀ accept ∈ accepts, accept.1 ≠ stop :=
        fun accept member => (headApart accept member).symm
      have notListed : (stop, token) ∉ accepts := fun member => notLater _ member rfl
      simp only [notListed, false_or, ↓reduceIte, Option.some.injEq, Prod.mk.injEq, true_and, or_false,
        ne_eq, not_true_eq_false, false_and]
      exact ⟨fun accepts => accepts.2.symm, fun same => ⟨notLater, same.symm⟩⟩
    · simp [same, Ne.symm same]

theorem size_ofPlan (plan : Plan) : (ofPlan plan).states.size = plan.size := by
  rw [ofPlan, size_foldl_addAccept, size_foldl_addTransition, Array.size_replicate]

theorem stateAt_replicate (size s : Nat) :
    stateAt (Array.replicate size State.fresh) s = State.fresh := by
  simp only [stateAt, Array.getD_eq_getD_getElem?, Array.getElem?_replicate]
  split <;> rfl

theorem takes_ofPlan {plan : Plan} (ranged : Ranged 0 plan.size plan.transitions)
    (t : Transition) : (ofPlan plan).Takes t ↔ t ∈ plan.transitions := by
  have inside : ∀ s < plan.size,
      (stateAt (ofPlan plan).states s).Has t.label t.target ↔ ⟨s, t.label, t.target⟩ ∈ plan.transitions := by
    intro s bound
    rw [ofPlan, has_foldl_addAccept (by simpa [size_foldl_addTransition] using bound),
      has_foldl_addTransition (by simpa using bound), stateAt_replicate]
    cases t.label <;> simp [State.Has, State.fresh]
  constructor
  · rintro ⟨has, _⟩
    by_cases bound : t.source < plan.size
    · exact (inside t.source bound).1 has
    · -- Beyond the automaton states are fresh, and a fresh state has no transitions.
      have outside : (ofPlan plan).state t.source = .fresh := by
        rw [state, Array.getD_eq_getD_getElem?, Array.getElem?_eq_none (by rw [size_ofPlan]; omega)]
        rfl
      rw [outside] at has
      cases label : t.label <;> simp [State.Has, State.fresh, label] at has
  · intro member
    have bounds := ranged t member
    exact ⟨(inside t.source bounds.1.2).2 member, by rw [size_ofPlan]; exact bounds.2.2⟩

theorem token_ofPlan {plan : Plan} (apart : plan.accepts.Pairwise fun a b => a.1 ≠ b.1) {s token : Nat}
    (inside : s < plan.size) :
    ((ofPlan plan).state s).token = some token ↔ (s, token) ∈ plan.accepts := by
  change (stateAt (ofPlan plan).states s).token = some token ↔ _
  rw [ofPlan, token_foldl_addAccept (by simpa [size_foldl_addTransition] using inside) apart,
    token_foldl_addTransition (by simpa using inside), stateAt_replicate]
  simp [State.fresh]

/-! ## The plan of a list of patterns -/

theorem next_le_plan {ps : List Pattern} (ordered : ∀ p ∈ ps, p.countsOrdered = true)
    (token next : Nat) : next ≤ (plan token next ps).size := by
  induction ps generalizing token next with
  | nil => exact Nat.le_refl next
  | cons p ps ih =>
    obtain ⟨head, tail⟩ := List.forall_mem_cons.1 ordered
    have grown := (Fragment.compiles_ofPattern p head).base_lt next
    exact Nat.le_trans (Nat.le_of_lt grown) (ih tail _ _)

theorem plan_ranged {ps : List Pattern} (ordered : ∀ p ∈ ps, p.countsOrdered = true)
    (token : Nat) {next : Nat} (positive : start < next) :
    Ranged 0 (plan token next ps).size (plan token next ps).transitions := by
  induction ps generalizing token next with
  | nil => exact Fragment.ranged_nil 0 next
  | cons p ps ih =>
    obtain ⟨head, tail⟩ := List.forall_mem_cons.1 ordered
    have compiles := Fragment.compiles_ofPattern p head
    have first := compiles.within next
    have begins := first.start_mem
    have grown := compiles.base_lt next
    have grows := next_le_plan tail (token + 1) (Fragment.ofPattern p next).next
    refine Fragment.ranged_append.2
      ⟨first.ranged.mono (Nat.zero_le next) grows, Fragment.ranged_silent.2 ⟨?_, ih tail _ (by omega)⟩⟩
    simp only [plan]
    omega

/-- No transition leads below the first state of the patterns: the common start is entered by
none. -/
theorem plan_target {ps : List Pattern} (ordered : ∀ p ∈ ps, p.countsOrdered = true)
    (token next : Nat) : ∀ t ∈ (plan token next ps).transitions, next ≤ t.target := by
  induction ps generalizing token next with
  | nil => exact fun _ member => absurd member List.not_mem_nil
  | cons p ps ih =>
    obtain ⟨head, tail⟩ := List.forall_mem_cons.1 ordered
    have compiles := Fragment.compiles_ofPattern p head
    have first := compiles.within next
    intro t member
    simp only [plan, List.mem_append, List.mem_cons] at member
    rcases member with member | rfl | member
    · exact (first.ranged t member).2.1
    · exact first.start_mem.1
    · exact Nat.le_trans (Nat.le_of_lt (compiles.base_lt next)) (ih tail _ _ t member)

/-- The accepting states lie in the ranges of their patterns, which follow one another. -/
theorem plan_accepts {ps : List Pattern} (ordered : ∀ p ∈ ps, p.countsOrdered = true)
    (token next : Nat) :
    (∀ accept ∈ (plan token next ps).accepts,
      next ≤ accept.1 ∧ accept.1 < (plan token next ps).size) ∧
    (plan token next ps).accepts.Pairwise fun a b => a.1 ≠ b.1 := by
  induction ps generalizing token next with
  | nil => exact ⟨fun _ member => absurd member List.not_mem_nil, .nil⟩
  | cons p ps ih =>
    obtain ⟨head, tail⟩ := List.forall_mem_cons.1 ordered
    have compiles := Fragment.compiles_ofPattern p head
    have ends := (compiles.within next).stop_mem
    have grown := compiles.base_lt next
    have grows := next_le_plan tail (token + 1) (Fragment.ofPattern p next).next
    obtain ⟨others, apart⟩ := ih tail (token + 1) (Fragment.ofPattern p next).next
    -- The accepting state of the head lies below the range of the others.
    refine ⟨List.forall_mem_cons.2 ⟨?_, ?_⟩, List.pairwise_cons.2 ⟨?_, apart⟩⟩
    · simp only [plan]
      omega
    · intro accept member
      have := others accept member
      simp only [plan]
      omega
    · intro accept member
      have := others accept member
      omega

/-- A plan can be annotated so that the label of an accepting state is no more than that of the
start followed by the language of its pattern. -/
theorem plan_annotated {ps : List Pattern} (ordered : ∀ p ∈ ps, p.countsOrdered = true)
    (token : Nat) {next : Nat} (positive : start < next) (notes : Nat → Language UInt8) :
    ∃ notes', AgreeBelow next notes notes' ∧ Annotates notes' (plan token next ps).transitions ∧
      ∀ accept ∈ (plan token next ps).accepts, ∃ i p, accept.2 = token + i ∧ ps[i]? = some p ∧
        notes' accept.1 ≤ notes start * p.language := by
  induction ps generalizing token next notes with
  | nil =>
    exact ⟨notes, .refl next notes, annotates_nil notes,
      fun _ member => absurd member List.not_mem_nil⟩
  | cons p ps ih =>
    obtain ⟨head, tail⟩ := List.forall_mem_cons.1 ordered
    have compiles := Fragment.compiles_ofPattern p head
    have first := compiles.within next
    have grown := compiles.base_lt next
    obtain ⟨notes₁, agree₁, annotates₁, entry, exit⟩ := compiles.annotated next notes (notes start)
    obtain ⟨notes₂, agree₂, annotates₂, others⟩ :=
      @ih tail (token + 1) (Fragment.ofPattern p next).next (by omega) notes₁
    have agree := agree₁.trans (Nat.le_of_lt grown) agree₂
    refine ⟨notes₂, agree, ?_, List.forall_mem_cons.2 ⟨⟨0, p, rfl, rfl, ?_⟩, ?_⟩⟩
    · refine annotates_append.2 ⟨first.ranged.annotates agree₂ annotates₁, ?_⟩
      refine annotates_silent.2 ⟨?_, annotates₂⟩
      rw [agree start positive, agree₂ _ first.start_mem.2]
      exact entry
    · rw [agree₂ _ first.stop_mem.2]
      exact exit
    · intro accept member
      obtain ⟨i, q, number, found, bound⟩ := others accept member
      rw [agree₁ start positive] at bound
      exact ⟨i + 1, q, by omega, found, bound⟩

/-- A plan has for each pattern an accepting state that its strings lead to. -/
theorem plan_traversed {ps : List Pattern} (ordered : ∀ p ∈ ps, p.countsOrdered = true)
    (token next : Nat) {nfa : Nfa} (taken : ∀ t ∈ (plan token next ps).transitions, nfa.Takes t)
    {i : Nat} {p : Pattern} (found : ps[i]? = some p) :
    ∃ stop, (stop, token + i) ∈ (plan token next ps).accepts ∧
      ∀ w ∈ p.language, nfa.Path start w stop := by
  induction ps generalizing token next i with
  | nil => simp at found
  | cons q ps ih =>
    obtain ⟨head, tail⟩ := List.forall_mem_cons.1 ordered
    simp only [plan, List.forall_mem_append, List.forall_mem_cons] at taken
    obtain ⟨firstTaken, entry, othersTaken⟩ := taken
    cases i with
    | zero =>
      rw [List.getElem?_cons_zero, Option.some.injEq] at found
      subst found
      exact ⟨_, List.mem_cons_self, fun w matched => .silent entry
        ((Fragment.compiles_ofPattern q head).traversed next nfa firstTaken w matched)⟩
    | succ i =>
      obtain ⟨stop, accepts, paths⟩ := ih tail (token + 1) _ othersTaken found
      refine ⟨stop, List.mem_cons_of_mem _ ?_, paths⟩
      rwa [Nat.add_right_comm] at accepts

/-! ## The automaton of a list of patterns -/

variable {trees : List Pattern}

theorem size_ofPatterns_pos (ordered : ∀ p ∈ trees, p.countsOrdered = true) :
    0 < (ofPatterns trees).states.size := by
  rw [ofPatterns, size_ofPlan]
  exact next_le_plan ordered 0 1

theorem startApart_ofPatterns (ordered : ∀ p ∈ trees, p.countsOrdered = true) :
    (ofPatterns trees).StartApart := by
  have taken := takes_ofPlan (plan_ranged ordered 0 Nat.zero_lt_one)
  have targets := plan_target ordered 0 1
  refine ⟨fun s silent => ?_, fun s b reads => ?_⟩
  · have entered := targets _ ((taken (.silent s start)).1 silent)
    exact absurd entered (by decide : ¬ 1 ≤ start)
  · obtain ⟨bytes, edge, _⟩ := mem_targets.1 reads.1
    have entered := targets _ ((taken ⟨s, some bytes, start⟩).1 ⟨edge, reads.2⟩)
    exact absurd entered (by decide : ¬ 1 ≤ start)

/-- Paths from the start to a state that accepts a token read the strings of its pattern. -/
theorem path_accepts_iff (ordered : ∀ p ∈ trees, p.countsOrdered = true) {w : List UInt8}
    {token : Nat} :
    (∃ s, (ofPatterns trees).Path start w s ∧ ((ofPatterns trees).state s).token = some token) ↔
      ∃ p, trees[token]? = some p ∧ w ∈ p.language := by
  have ranged := plan_ranged ordered 0 Nat.zero_lt_one
  have taken := takes_ofPlan ranged
  obtain ⟨bounds, apart⟩ := plan_accepts ordered 0 1
  constructor
  · -- The label of an accepting state bounds what leads to it, from the empty string on.
    rintro ⟨s, path, accepted⟩
    have inside : s < (plan 0 1 trees).size := by
      by_contra outside
      rw [state, Array.getD_eq_getD_getElem?, Array.getElem?_eq_none] at accepted
      · cases accepted
      · rw [ofPatterns, size_ofPlan]
        omega
    obtain ⟨notes, agree, annotates, labels⟩ :=
      plan_annotated ordered 0 Nat.zero_lt_one fun _ => 1
    obtain ⟨i, p, number, found, bound⟩ := labels _ ((token_ofPlan apart inside).1 accepted)
    have before : [] ∈ notes start := by
      rw [agree start Nat.zero_lt_one]
      exact Language.nil_mem_one
    have labelled := bound (path.annotated (fun t => (taken t).1) annotates before)
    rw [one_mul, List.nil_append] at labelled
    obtain rfl : token = i := number.trans (Nat.zero_add i)
    exact ⟨p, found, labelled⟩
  · rintro ⟨p, found, matched⟩
    obtain ⟨stop, accepts, paths⟩ :=
      plan_traversed ordered 0 1 (fun t member => (taken t).2 member) found
    rw [Nat.zero_add] at accepts
    exact ⟨stop, paths w matched, (token_ofPlan apart (bounds _ accepts).2).2 accepts⟩

/-- The tokens accepted after a string are those whose patterns match it. -/
theorem mem_accepting_run_iff (trees : List Pattern)
    (ordered : ∀ p ∈ trees, p.countsOrdered = true) (w : List UInt8) (token : Nat) :
    token ∈ (ofPatterns trees).accepting ((ofPatterns trees).run w) ↔
      ∃ p, trees[token]? = some p ∧ w ∈ p.language := by
  rw [mem_accepting, ← path_accepts_iff ordered]
  simp only [mem_run (size_ofPatterns_pos ordered)]

/-- A counted repetition of a nullable body beside an empty alternation. -/
theorem mem_accepting_run_iff_nullable :
    let trees : List Pattern := [.alt [], .rep (.rep (.byte 0x61) 0 none) 2 (some 3)]
    (∀ p ∈ trees, p.countsOrdered = true) ∧
      1 ∈ (ofPatterns trees).accepting ((ofPatterns trees).run []) := by
  intro trees
  have ordered : ∀ p ∈ trees, p.countsOrdered = true := by decide
  refine ⟨ordered, (mem_accepting_run_iff trees ordered [] 1).2 ⟨_, rfl, 2, ?_⟩⟩
  refine ⟨Nat.le_refl 2, by simp, Language.mem_pow.2 ⟨[[], []], rfl, rfl, ?_⟩⟩
  simp only [List.mem_cons, List.not_mem_nil, or_false, or_self, forall_eq]
  exact ⟨0, Nat.le_refl 0, by simp, Language.nil_mem_one⟩

end ScannerGen.Nfa
