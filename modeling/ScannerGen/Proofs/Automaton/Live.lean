import ScannerGen.Proofs.Automaton.Distinguished
import ScannerGen.Proofs.Pattern.NormalForm

/-!
# No dead states

Every set of a normal tree has a member and every choice a branch, so each state of its automaton leads
to the end.  What makes an automaton deterministic, or minimal, adds no dead state but the reject
state.

* `Fragment.Live`, `Fragment.LiveBetween` — all states of a fragment lead to its end, or to the second
  of the two states that it joins; one lemma for each way of joining fragments.
* `live_ofPattern` — the induction over normal trees.
* `Dfa.Trim` — every state but the reject state is reached, and leads to a winner unless it is the
  start; `Nfa.trim_determinize` and `Dfa.Trim.minimize`.
-/

namespace ScannerGen

/-! ## States that lead to others -/

namespace Nfa

/-- Some string leads from one state to another. -/
def Leads (nfa : Nfa) (s t : Nat) : Prop := ∃ w, nfa.Path s w t

variable {nfa : Nfa} {s t u : Nat}

theorem Leads.refl (s : Nat) : nfa.Leads s s := ⟨[], .refl s⟩

theorem Leads.trans (first : nfa.Leads s t) (second : nfa.Leads t u) : nfa.Leads s u := by
  obtain ⟨v, first⟩ := first
  obtain ⟨w, second⟩ := second
  exact ⟨v ++ w, first.trans second⟩

theorem Leads.silent (step : nfa.Silent s t) (rest : nfa.Leads t u) : nfa.Leads s u := by
  obtain ⟨w, path⟩ := rest
  exact ⟨w, .silent step path⟩

end Nfa

namespace Fragment

open Nfa (Leads Takes)

variable {body : Nat → Fragment} {bodies : List (Nat → Fragment)}

/-- A way of making fragments all of whose states lead to their ends. -/
def Live (body : Nat → Fragment) : Prop :=
  ∀ base nfa, (∀ t ∈ (body base).transitions, Takes nfa t) → ∀ s,
    s = (body base).start ∨ base ≤ s ∧ s < (body base).next → nfa.Leads s (body base).stop

/-- A way of joining two given states whose new states, and the first of the two, lead to the second. -/
def LiveBetween (between : Nat → Nat → Nat → Fragment) : Prop :=
  ∀ current stop next nfa, (∀ t ∈ (between current stop next).transitions, Takes nfa t) → ∀ s,
    s = current ∨ next ≤ s ∧ s < (between current stop next).next → nfa.Leads s stop

theorem chain_live (each : ∀ body ∈ bodies, Live body) {current next : Nat} {nfa : Nfa}
    (taken : ∀ t ∈ (chain bodies current next).transitions, Takes nfa t) {s : Nat}
    (place : s = current ∨ next ≤ s ∧ s < (chain bodies current next).next) :
    nfa.Leads s (chain bodies current next).stop := by
  induction bodies generalizing current next s with
  | nil =>
    rcases place with rfl | ⟨least, below⟩
    · exact .refl _
    · exact absurd below (Nat.not_lt_of_le least)
  | cons body bodies ih =>
    obtain ⟨head, tail⟩ := List.forall_mem_cons.1 each
    simp only [chain, List.forall_mem_append, List.forall_mem_cons] at taken
    obtain ⟨firstTaken, entry, othersTaken⟩ := taken
    have first := head next nfa firstTaken
    have later := fun s => @ih tail (body next).stop (body next).next othersTaken s
    rcases place with rfl | ⟨least, below⟩
    · exact .silent entry ((first _ (.inl rfl)).trans (later _ (.inl rfl)))
    · -- A new state belongs to the first fragment or to one of the others.
      rcases Nat.lt_or_ge s (body next).next with inFirst | inOthers
      · exact (first s (.inr ⟨least, inFirst⟩)).trans (later _ (.inl rfl))
      · exact later s (.inr ⟨inOthers, below⟩)

theorem parallel_live_new (each : ∀ body ∈ bodies, Live body) {start stop next : Nat} {nfa : Nfa}
    (taken : ∀ t ∈ (parallel bodies start stop next).transitions, Takes nfa t) {s : Nat}
    (least : next ≤ s) (below : s < (parallel bodies start stop next).next) : nfa.Leads s stop := by
  induction bodies generalizing next with
  | nil => exact absurd below (Nat.not_lt_of_le least)
  | cons body bodies ih =>
    obtain ⟨head, tail⟩ := List.forall_mem_cons.1 each
    simp only [parallel, List.forall_mem_append, List.forall_mem_cons] at taken
    obtain ⟨firstTaken, _, leave, othersTaken⟩ := taken
    rcases Nat.lt_or_ge s (body next).next with inFirst | inOthers
    · exact (head next nfa firstTaken s (.inr ⟨least, inFirst⟩)).trans (.silent leave (.refl stop))
    · exact ih tail othersTaken inOthers below

/-- Fragments side by side lead on, provided that there is one. -/
theorem parallel_live (each : ∀ body ∈ bodies, Live body) (some_body : bodies ≠ []) :
    LiveBetween (parallel bodies) := by
  intro start stop next nfa taken s place
  rcases place with rfl | ⟨least, below⟩
  · obtain ⟨body, others, rfl⟩ := List.exists_cons_of_ne_nil some_body
    simp only [parallel, List.forall_mem_append, List.forall_mem_cons] at taken
    obtain ⟨firstTaken, entry, leave, _⟩ := taken
    have first := each body List.mem_cons_self next nfa firstTaken _ (.inl rfl)
    exact .silent entry (first.trans (.silent leave (.refl stop)))
  · exact parallel_live_new each taken least below

theorem optionalCopies_live (live : Live body) (count : Nat) :
    LiveBetween fun current stop next => optionalCopies body current stop next count := by
  induction count with
  | zero =>
    intro current stop next nfa taken s place
    rcases place with rfl | ⟨least, below⟩
    · exact .silent (taken _ List.mem_cons_self) (.refl stop)
    · exact absurd below (Nat.not_lt_of_le least)
  | succ count ih =>
    intro current stop next nfa taken s place
    simp only [optionalCopies, List.forall_mem_append, List.forall_mem_cons] at taken
    obtain ⟨firstTaken, _, leave, othersTaken⟩ := taken
    have later := ih (body next).stop stop (body next).next nfa othersTaken
    rcases place with rfl | ⟨least, below⟩
    · exact .silent leave (.refl stop)
    · rcases Nat.lt_or_ge s (body next).next with inFirst | inOthers
      · exact (live next nfa firstTaken s (.inr ⟨least, inFirst⟩)).trans (later _ (.inl rfl))
      · exact later s (.inr ⟨inOthers, below⟩)

theorem loop_live (live : Live body) : LiveBetween (loop body) := by
  intro current stop next nfa taken s place
  simp only [loop, List.forall_mem_append, List.forall_mem_cons] at taken
  obtain ⟨copyTaken, enter, _, back, leave, _⟩ := taken
  -- The first new state stands between the copies: it can always leave the loop.
  have hub : nfa.Leads next stop := .silent leave (.refl stop)
  rcases place with rfl | ⟨least, below⟩
  · exact .silent enter hub
  · rcases Nat.eq_or_lt_of_le least with rfl | inCopy
    · exact hub
    · exact (live (next + 1) nfa copyTaken s (.inr ⟨inCopy, below⟩)).trans (.silent back hub)

theorem spanned_live {between : Nat → Nat → Nat → Fragment} (each : ∀ body ∈ bodies, Live body)
    (bridge : LiveBetween between) : Live (spanned bodies between) := by
  intro base nfa taken s place
  simp only [spanned, List.forall_mem_append] at taken
  obtain ⟨requiredTaken, moreTaken⟩ := taken
  have required := fun s => @chain_live bodies each base (base + 2) nfa requiredTaken s
  have more := bridge _ (base + 1) _ nfa moreTaken
  have started : nfa.Leads base (base + 1) := (required base (.inl rfl)).trans (more _ (.inl rfl))
  rcases place with rfl | ⟨least, below⟩
  · exact started
  · -- The two ends, the new states of the chain, and those behind it.
    obtain rfl | rfl | later : s = base ∨ s = base + 1 ∨ base + 2 ≤ s := by omega
    · exact started
    · exact .refl _
    · rcases Nat.lt_or_ge s (chain bodies base (base + 2)).next with inRequired | inMore
      · exact (required s (.inr ⟨later, inRequired⟩)).trans (more _ (.inl rfl))
      · exact more s (.inr ⟨inMore, below⟩)

theorem single_live {label : Option ByteSet} (readable : ∃ w, w ∈ Transition.language ⟨0, label, 0⟩) :
    Live fun base => ⟨base, base + 1, base + 2, [⟨base, label, base + 1⟩]⟩ := by
  intro base nfa taken s place
  obtain ⟨w, matched⟩ := readable
  have path : nfa.Leads base (base + 1) := ⟨w, (taken _ List.mem_cons_self).path matched⟩
  obtain rfl | rfl : s = base ∨ s = base + 1 := by
    rcases place with atStart | ⟨least, below⟩
    · exact .inl atStart
    · dsimp only at below
      omega
  · exact path
  · exact .refl _

/-- In the fragment of a normal tree every state leads to the end. -/
theorem live_ofPattern {p : Pattern} (normal : p.Normal) : Live (ofPattern p) := by
  induction normal with
  | empty => exact single_live ⟨[], rfl⟩
  | set inhabited =>
    obtain ⟨b, member⟩ := inhabited
    exact single_live ⟨[b], b, member, rfl⟩
  | seq _ _ _ ih =>
    rw [ofPattern_seq]
    intro base nfa taken s place
    refine chain_live (List.forall_mem_map.2 ih) taken ?_
    dsimp only at place
    rw [chain_start] at place
    omega
  | @alt ps several _ _ ih =>
    have some_body : ps.map ofPattern ≠ [] :=
      mt List.map_eq_nil_iff.1 (Pattern.ne_nil_of_several several)
    rw [ofPattern_alt]
    exact spanned_live (fun _ absent => absurd absent List.not_mem_nil)
      (parallel_live (List.forall_mem_map.2 ih) some_body)
  | @rep body min max _ _ ih =>
    have required : ∀ copy ∈ List.replicate min (ofPattern body), Live copy := fun copy member =>
      (List.mem_replicate.1 member).2 ▸ ih
    rw [ofPattern_rep]
    cases max with
    | none =>
      rw [repeated_none]
      exact spanned_live required (loop_live ih)
    | some max =>
      rw [repeated_some]
      exact spanned_live required (optionalCopies_live ih (max - min))

end Fragment

/-! ## The automaton of all patterns -/

namespace Nfa

variable {trees : List Pattern}

/-- Each new state of a plan leads to an accepting one: the end of its pattern. -/
theorem plan_live {ps : List Pattern} (normal : ∀ p ∈ ps, p.Normal) {token next : Nat} {nfa : Nfa}
    (taken : ∀ t ∈ (plan token next ps).transitions, nfa.Takes t) {s : Nat} (least : next ≤ s)
    (below : s < (plan token next ps).size) :
    ∃ accept ∈ (plan token next ps).accepts, nfa.Leads s accept.1 := by
  induction ps generalizing token next with
  | nil => exact absurd below (Nat.not_lt_of_le least)
  | cons p ps ih =>
    obtain ⟨head, tail⟩ := List.forall_mem_cons.1 normal
    simp only [plan, List.forall_mem_append, List.forall_mem_cons] at taken
    obtain ⟨firstTaken, _, othersTaken⟩ := taken
    rcases Nat.lt_or_ge s (Fragment.ofPattern p next).next with inFirst | inOthers
    · exact ⟨_, List.mem_cons_self,
        Fragment.live_ofPattern head next nfa firstTaken s (.inr ⟨least, inFirst⟩)⟩
    · obtain ⟨accept, member, leads⟩ := ih tail othersTaken inOthers below
      exact ⟨accept, List.mem_cons_of_mem _ member, leads⟩

/-- Every state but the start leads to one that accepts a token. -/
theorem exists_accepting (normal : ∀ p ∈ trees, p.Normal) {s : Nat} (new : s ≠ start)
    (inside : s < (ofPatterns trees).states.size) :
    ∃ t token, (ofPatterns trees).Leads s t ∧ ((ofPatterns trees).state t).token = some token := by
  have ordered : ∀ p ∈ trees, p.countsOrdered = true := fun p member => (normal p member).countsOrdered
  have taken := takes_ofPlan (plan_ranged ordered 0 Nat.zero_lt_one)
  obtain ⟨bounds, apart⟩ := plan_accepts ordered 0 1
  rw [ofPatterns, size_ofPlan] at inside
  obtain ⟨⟨stop, token⟩, member, leads⟩ :=
    plan_live normal (fun t member => (taken t).2 member) (Nat.pos_of_ne_zero new) inside
  exact ⟨stop, token, leads, (token_ofPlan apart (bounds _ member).2).2 member⟩

/-- After a string that is neither empty nor rejected, some string leads to a winner. -/
theorem exists_token?_run_append (normal : ∀ p ∈ trees, p.Normal) (rank : Nat → Nat) {w : List UInt8}
    (read : w ≠ []) (accessible : (ofPatterns trees).run w ≠ []) :
    ∃ v token, ((ofPatterns trees).determinize rank).dfa.token?
      (((ofPatterns trees).determinize rank).dfa.run (w ++ v)) = some token := by
  have nonempty := ofPatterns_nonempty trees
  have apart := ofPatterns_startApart trees
  obtain ⟨s, member⟩ := List.exists_mem_of_ne_nil _ accessible
  -- The string has a last byte, and what is there after a byte is not the start.
  obtain ⟨before, b, rfl⟩ := (List.eq_nil_or_concat' w).resolve_left read
  have stepped : s ∈ (ofPatterns trees).step ((ofPatterns trees).run before) b := by
    rwa [run_append_singleton] at member
  have new : s ≠ start := by
    rintro rfl
    exact apart.not_mem_step _ b stepped
  obtain ⟨t, token, ⟨v, path⟩, accepts⟩ :=
    exists_accepting normal new (lt_size_of_mem_closure stepped)
  -- Of the tokens accepted at `t` and beside it some one wins, whatever the ranks.
  have arrives : t ∈ (ofPatterns trees).run (before ++ [b] ++ v) :=
    (mem_run nonempty).2 (((mem_run nonempty).1 member).trans path)
  have accepted : token ∈ (ofPatterns trees).accepting ((ofPatterns trees).run (before ++ [b] ++ v)) :=
    mem_accepting.2 ⟨t, arrives, accepts⟩
  refine ⟨v, ?_⟩
  rw [token?_run rank nonempty apart (List.append_ne_nil_of_left_ne_nil read v), ← Option.ne_none_iff_exists',
    Ne, head?_candidates_eq_none]
  exact List.ne_nil_of_mem accepted

end Nfa

/-! ## Trim automata -/

/-- An automaton without needless states: all are reached from the start, and none but the reject
state is dead.  The start has no winner, and nothing leads back to it. -/
structure Dfa.Trim (dfa : Dfa) : Prop where
  reached : ∀ s < dfa.size, s ≠ dfa.reject → ∃ w, dfa.run w = s
  live : ∀ s < dfa.size, s ≠ dfa.reject → s ≠ dfa.start →
    ∃ w token, dfa.token? (dfa.after s w) = some token
  start_token : dfa.token? dfa.start = none
  start_apart : ∀ s b, dfa.next s b ≠ dfa.start

theorem Nfa.trim_determinize {trees : List Pattern} (normal : ∀ p ∈ trees, p.Normal)
    (rank : Nat → Nat) : ((ofPatterns trees).determinize rank).dfa.Trim where
  reached _ inside accessible := exists_run rank (ofPatterns_nonempty trees) inside accessible
  live s inside accessible notStart := by
    have nonempty := ofPatterns_nonempty trees
    obtain ⟨w, rfl⟩ := exists_run rank nonempty inside accessible
    have read : w ≠ [] := by
      rintro rfl
      exact notStart rfl
    obtain ⟨v, token, wins⟩ := exists_token?_run_append normal rank read
      (mt (run_eq_rejectId_iff rank nonempty).2 accessible)
    rw [Dfa.run_append] at wins
    exact ⟨v, token, wins⟩
  start_token := token?_determinize_run rank (ofPatterns_nonempty trees) (ofPatterns_startApart trees) []
  start_apart := next_ne_startId rank (ofPatterns_nonempty trees) (ofPatterns_startApart trees)

theorem Dfa.Trim.minimize {dfa : Dfa} (trim : dfa.Trim) (wellFormed : dfa.WellFormed) :
    dfa.minimize.Trim := by
  have congruence := congruence_stablePartition wellFormed
  obtain ⟨reject, start⟩ := rename_reject_start wellFormed congruence
  refine ⟨fun i inside accessible => ?_, fun i inside accessible notStart => ?_, ?_,
    next_minimize_ne_start wellFormed trim.start_apart⟩
  · obtain ⟨s, insideS, rfl⟩ := exists_rename wellFormed congruence inside
    obtain ⟨w, rfl⟩ := trim.reached s insideS (by rintro rfl; exact accessible reject)
    exact ⟨w, run_quotient wellFormed congruence w⟩
  · obtain ⟨s, insideS, rfl⟩ := exists_rename wellFormed congruence inside
    obtain ⟨w, token, wins⟩ := trim.live s insideS (by rintro rfl; exact accessible reject)
      (by rintro rfl; exact notStart start)
    refine ⟨w, token, ?_⟩
    rw [Dfa.minimize, after_rename congruence wellFormed insideS,
      token?_rename congruence (wellFormed.after_lt insideS w), wins]
  · rw [← rename_stablePartition_start wellFormed, Dfa.minimize,
      token?_rename congruence wellFormed.start_lt, trim.start_token]

end ScannerGen
