import ScannerGen.Proofs.Automaton.Runs
import ScannerGen.Proofs.Pattern.Language

/-!
# Fragments of automata

The fragment of a pattern reads exactly the language of the pattern.  The two halves are carried by
different notions:

* a fragment is *traversed*: in every automaton that has its transitions, a path from its start to
  its end reads each string of the language;
* a fragment is *annotated*: its states can be labelled with languages such that every transition
  leads from the label of its source into that of its target, and the label of the end is no more
  than the label of the start followed by the language.

Annotations are glued without looking at paths: the states of a fragment are new, so an annotation
of what was built before is extended and never changed.  `Fragment.Compiles` puts both halves
together with the range of the states, and `compiles_ofPattern` proves it by induction over the
tree, with one lemma for each way of joining fragments.
-/

namespace ScannerGen

open Computability

/-! ## Transitions and annotations -/

/-- The strings that a transition reads. -/
def Transition.language (t : Transition) : Language UInt8 :=
  match t.label with
  | none => 1
  | some bytes => bytes.language

@[simp] theorem Transition.language_silent (s t : Nat) :
    (Transition.silent s t).language = 1 := rfl

/-- Languages for the states that every transition of a list respects. -/
def Annotates (notes : Nat → Language UInt8) (ts : List Transition) : Prop :=
  ∀ t ∈ ts, notes t.source * t.language ≤ notes t.target

/-- Two annotations are the same below a state number. -/
def AgreeBelow (bound : Nat) (notes notes' : Nat → Language UInt8) : Prop :=
  ∀ s < bound, notes' s = notes s

theorem AgreeBelow.refl (bound : Nat) (notes : Nat → Language UInt8) :
    AgreeBelow bound notes notes := fun _ _ => rfl

theorem AgreeBelow.trans {m n : Nat} {notes₁ notes₂ notes₃ : Nat → Language UInt8} (le : m ≤ n)
    (first : AgreeBelow m notes₁ notes₂) (second : AgreeBelow n notes₂ notes₃) :
    AgreeBelow m notes₁ notes₃ :=
  fun s bound => (second s (Nat.lt_of_lt_of_le bound le)).trans (first s bound)

theorem AgreeBelow.update (notes : Nat → Language UInt8) (s : Nat) (l : Language UInt8) :
    AgreeBelow s notes (Function.update notes s l) :=
  fun _ bound => Function.update_of_ne (Nat.ne_of_lt bound) l notes

/-- Two new states can be labelled at will. -/
theorem exists_endNotes (base : Nat) (notes : Nat → Language UInt8) (entry exit : Language UInt8) :
    ∃ notes', AgreeBelow base notes notes' ∧ notes' base = entry ∧ notes' (base + 1) = exit := by
  refine ⟨Function.update (Function.update notes base entry) (base + 1) exit, ?_, ?_, ?_⟩
  · exact (AgreeBelow.update notes base entry).trans (Nat.le_succ base) (.update _ (base + 1) _)
  · rw [Function.update_of_ne (Nat.ne_of_lt (Nat.lt_succ_self base)), Function.update_self]
  · rw [Function.update_self]

theorem annotates_nil (notes : Nat → Language UInt8) : Annotates notes [] :=
  fun _ member => absurd member List.not_mem_nil

theorem annotates_cons {notes : Nat → Language UInt8} {t : Transition} {ts : List Transition} :
    Annotates notes (t :: ts) ↔
      notes t.source * t.language ≤ notes t.target ∧ Annotates notes ts :=
  List.forall_mem_cons

theorem annotates_append {notes : Nat → Language UInt8} {ts us : List Transition} :
    Annotates notes (ts ++ us) ↔ Annotates notes ts ∧ Annotates notes us :=
  List.forall_mem_append

theorem annotates_silent {notes : Nat → Language UInt8} {s t : Nat} {ts : List Transition} :
    Annotates notes (.silent s t :: ts) ↔ notes s ≤ notes t ∧ Annotates notes ts := by
  rw [annotates_cons, Transition.language_silent, mul_one]
  rfl

namespace Nfa

/-- A state has a transition with a label to a target. -/
def State.Has (state : State) (label : Option ByteSet) (target : Nat) : Prop :=
  match label with
  | none => target ∈ state.silent
  | some bytes => (bytes, target) ∈ state.edges

/-- An automaton has a transition, to one of its states. -/
def Takes (nfa : Nfa) (t : Transition) : Prop :=
  (nfa.state t.source).Has t.label t.target ∧ t.target < nfa.states.size

theorem Takes.path {nfa : Nfa} {t : Transition} {w : List UInt8} (taken : nfa.Takes t)
    (matched : w ∈ t.language) : nfa.Path t.source w t.target := by
  obtain ⟨source, label, target⟩ := t
  cases label with
  | none =>
    rw [Transition.language, Language.mem_one] at matched
    subst matched
    exact .of_silent taken
  | some bytes =>
    obtain ⟨b, inside, rfl⟩ := matched
    exact .read ⟨mem_targets.2 ⟨bytes, taken.1, inside⟩, taken.2⟩ (.refl target)

/-- An annotation of all transitions is one of all paths. -/
theorem Path.annotated {nfa : Nfa} {ts : List Transition} {notes : Nat → Language UInt8}
    (only : ∀ t, nfa.Takes t → t ∈ ts) (annotates : Annotates notes ts) {s u : Nat}
    {v w : List UInt8} (path : nfa.Path s w u) (before : v ∈ notes s) : v ++ w ∈ notes u := by
  induction path generalizing v with
  | refl s => rwa [List.append_nil]
  | @silent s t u w step _ ih =>
    have respected := annotates (.silent s t) (only _ step)
    rw [Transition.language_silent, mul_one] at respected
    exact ih (respected before)
  | @read s t u b w step _ ih =>
    obtain ⟨bytes, edge, inside⟩ := mem_targets.1 step.1
    have respected := annotates ⟨s, some bytes, t⟩ (only _ ⟨edge, step.2⟩)
    have read : [b] ∈ bytes.language := ⟨b, inside, rfl⟩
    have after := ih (respected (Language.append_mem_mul before read))
    rwa [List.append_assoc, List.singleton_append] at after

end Nfa

namespace Fragment

/-! ## The range of the states -/

/-- Transitions between states numbered from `lo` up to `hi`. -/
def Ranged (lo hi : Nat) (ts : List Transition) : Prop :=
  ∀ t ∈ ts, (lo ≤ t.source ∧ t.source < hi) ∧ (lo ≤ t.target ∧ t.target < hi)

theorem ranged_nil (lo hi : Nat) : Ranged lo hi [] :=
  fun _ member => absurd member List.not_mem_nil

theorem ranged_append {lo hi : Nat} {ts us : List Transition} :
    Ranged lo hi (ts ++ us) ↔ Ranged lo hi ts ∧ Ranged lo hi us :=
  List.forall_mem_append

theorem ranged_silent {lo hi s t : Nat} {ts : List Transition} :
    Ranged lo hi (.silent s t :: ts) ↔
      ((lo ≤ s ∧ s < hi) ∧ (lo ≤ t ∧ t < hi)) ∧ Ranged lo hi ts :=
  List.forall_mem_cons

theorem Ranged.mono {lo lo' hi hi' : Nat} {ts : List Transition} (ranged : Ranged lo hi ts)
    (low : lo' ≤ lo) (high : hi ≤ hi') : Ranged lo' hi' ts := by
  intro t member
  have := ranged t member
  omega

/-- What was annotated stays so when the annotation is changed above it. -/
theorem Ranged.annotates {lo hi : Nat} {ts : List Transition} {notes notes' : Nat → Language UInt8}
    (ranged : Ranged lo hi ts) (agree : AgreeBelow hi notes notes')
    (annotates : Annotates notes ts) : Annotates notes' ts := by
  intro t member
  obtain ⟨source, target⟩ := ranged t member
  rw [agree t.source source.2, agree t.target target.2]
  exact annotates t member

/-- The states of a fragment are numbered from `lo` up to its first free number. -/
structure Within (lo : Nat) (f : Fragment) : Prop where
  start_mem : lo ≤ f.start ∧ f.start < f.next
  stop_mem : lo ≤ f.stop ∧ f.stop < f.next
  ranged : Ranged lo f.next f.transitions

/-- A way of making fragments that read a language. -/
structure Compiles (body : Nat → Fragment) (l : Language UInt8) : Prop where
  within : ∀ base, (body base).Within base
  annotated : ∀ base notes entry, ∃ notes', AgreeBelow base notes notes' ∧
    Annotates notes' (body base).transitions ∧ entry ≤ notes' (body base).start ∧
    notes' (body base).stop ≤ entry * l
  traversed : ∀ base nfa, (∀ t ∈ (body base).transitions, Nfa.Takes nfa t) → ∀ w ∈ l,
    nfa.Path (body base).start w (body base).stop

theorem Compiles.base_lt {body : Nat → Fragment} {l : Language UInt8} (compiles : Compiles body l)
    (base : Nat) : base < (body base).next := by
  have := (compiles.within base).start_mem
  omega

/-! ## Fragments one after the other -/

/-- Fragments one after the other, behind the state `current`: the common form of the parts of a
sequence and of the copies of a repetition. -/
def chain : List (Nat → Fragment) → Nat → Nat → Fragment
  | [], current, next => ⟨current, current, next, []⟩
  | body :: bodies, current, next =>
    let first := body next
    let others := chain bodies first.stop first.next
    ⟨current, others.stop, others.next,
      first.transitions ++ .silent current first.start :: others.transitions⟩

theorem ofParts_eq_chain (ps : List Pattern) (current next : Nat) :
    ofParts ps current next = chain (ps.map ofPattern) current next := by
  induction ps generalizing current next with
  | nil => rfl
  | cons p ps ih => simp only [ofParts, List.map_cons, chain, ih]

theorem copies_eq_chain (body : Nat → Fragment) (current next count : Nat) :
    copies body current next count = chain (List.replicate count body) current next := by
  induction count generalizing current next with
  | zero => rfl
  | succ count ih => simp only [copies, List.replicate_succ, chain, ih]

variable {bodies : List (Nat → Fragment)} {ls : List (Language UInt8)}

theorem chain_start (bodies : List (Nat → Fragment)) (current next : Nat) :
    (chain bodies current next).start = current := by
  cases bodies <;> rfl

theorem next_le_chain (compiles : List.Forall₂ Compiles bodies ls) (current next : Nat) :
    next ≤ (chain bodies current next).next := by
  induction compiles generalizing current next with
  | nil => exact Nat.le_refl next
  | cons head _ ih => exact Nat.le_trans (Nat.le_of_lt (head.base_lt next)) (ih _ _)

theorem chain_within (compiles : List.Forall₂ Compiles bodies ls) {lo current next : Nat}
    (low : lo ≤ current) (high : current < next) : (chain bodies current next).Within lo := by
  induction compiles generalizing current next with
  | nil => exact ⟨⟨low, high⟩, ⟨low, high⟩, ranged_nil lo next⟩
  | @cons body l bodies ls head tail ih =>
    have first := head.within next
    have begins := first.start_mem
    have ends := first.stop_mem
    have others := @ih (body next).stop (body next).next (by omega) (by omega)
    have grows := next_le_chain tail (body next).stop (body next).next
    refine ⟨⟨low, ?_⟩, others.stop_mem, ranged_append.2 ⟨?_, ranged_silent.2 ⟨?_, others.ranged⟩⟩⟩
    · exact Nat.lt_of_lt_of_le high (Nat.le_trans (by omega) grows)
    · exact first.ranged.mono (by omega) grows
    · simp only [chain]
      omega

theorem chain_annotated (compiles : List.Forall₂ Compiles bodies ls) {current next : Nat}
    (high : current < next) (notes : Nat → Language UInt8) :
    ∃ notes', AgreeBelow next notes notes' ∧
      Annotates notes' (chain bodies current next).transitions ∧
      notes' (chain bodies current next).stop ≤ notes current * ls.prod := by
  induction compiles generalizing current next notes with
  | nil =>
    refine ⟨notes, .refl next notes, annotates_nil notes, ?_⟩
    rw [List.prod_nil, mul_one]
    exact le_refl _
  | @cons body l bodies ls head tail ih =>
    -- The first fragment is annotated from the label of `current`, the others from that of its
    -- end; their states are new, so the first annotation stands.
    have first := head.within next
    obtain ⟨notes₁, agree₁, annotates₁, entry, exit⟩ := head.annotated next notes (notes current)
    obtain ⟨notes₂, agree₂, annotates₂, stop⟩ := ih first.stop_mem.2 notes₁
    have agree := agree₁.trans (Nat.le_of_lt (head.base_lt next)) agree₂
    refine ⟨notes₂, agree, ?_, ?_⟩
    · refine annotates_append.2 ⟨first.ranged.annotates agree₂ annotates₁, ?_⟩
      refine annotates_silent.2 ⟨?_, annotates₂⟩
      rw [agree current high, agree₂ _ first.start_mem.2]
      exact entry
    · calc notes₂ (chain bodies (body next).stop (body next).next).stop
          ≤ notes₁ (body next).stop * ls.prod := stop
        _ ≤ notes current * l * ls.prod := mul_le_mul_left exit _
        _ = notes current * (l :: ls).prod := by rw [List.prod_cons, mul_assoc]

theorem chain_traversed (compiles : List.Forall₂ Compiles bodies ls) {nfa : Nfa}
    {current next : Nat} (taken : ∀ t ∈ (chain bodies current next).transitions, nfa.Takes t)
    {w : List UInt8} (matched : w ∈ ls.prod) :
    nfa.Path current w (chain bodies current next).stop := by
  induction compiles generalizing current next w with
  | nil =>
    rw [List.prod_nil, Language.mem_one] at matched
    subst matched
    exact .refl current
  | @cons body l bodies ls head tail ih =>
    rw [List.prod_cons, Language.mem_mul] at matched
    obtain ⟨u, inHead, v, inTail, rfl⟩ := matched
    simp only [chain, List.forall_mem_append, List.forall_mem_cons] at taken
    obtain ⟨firstTaken, entry, othersTaken⟩ := taken
    have first := head.traversed next nfa firstTaken u inHead
    exact .silent entry (first.trans (ih othersTaken inTail))

/-! ## Fragments between two states -/

/-- A way of joining two given states by transitions that read a language. -/
structure Bridges (between : Nat → Nat → Nat → Fragment) (l : Language UInt8) : Prop where
  next_le : ∀ current stop next, next ≤ (between current stop next).next
  ranged : ∀ lo current stop next, lo ≤ current ∧ current < next → lo ≤ stop ∧ stop < next →
    Ranged lo (between current stop next).next (between current stop next).transitions
  annotated : ∀ current stop next notes, current < next → stop < next →
    notes current * l ≤ notes stop → ∃ notes', AgreeBelow next notes notes' ∧
      Annotates notes' (between current stop next).transitions
  traversed : ∀ current stop next nfa,
    (∀ t ∈ (between current stop next).transitions, Nfa.Takes nfa t) → ∀ w ∈ l,
      nfa.Path current w stop

/-- Fragments side by side between two states, for the branches of an alternation. -/
def parallel : List (Nat → Fragment) → Nat → Nat → Nat → Fragment
  | [], start, stop, next => ⟨start, stop, next, []⟩
  | body :: bodies, start, stop, next =>
    let first := body next
    let others := parallel bodies start stop first.next
    ⟨start, stop, others.next,
      first.transitions ++
        .silent start first.start :: .silent first.stop stop :: others.transitions⟩

theorem ofBranches_eq_parallel (ps : List Pattern) (start stop next : Nat) :
    ofBranches ps start stop next = parallel (ps.map ofPattern) start stop next := by
  induction ps generalizing next with
  | nil => rfl
  | cons p ps ih => simp only [ofBranches, List.map_cons, parallel, ih]

theorem parallel_bridges_nil : Bridges (parallel []) 0 where
  next_le _ _ next := Nat.le_refl next
  ranged lo _ _ next _ _ := ranged_nil lo next
  annotated _ _ next notes _ _ _ := ⟨notes, .refl next notes, annotates_nil notes⟩
  traversed _ _ _ _ _ w matched := absurd matched (Language.notMem_zero w)

theorem parallel_bridges_cons {body : Nat → Fragment} {l m : Language UInt8}
    (head : Compiles body l) (tail : Bridges (parallel bodies) m) :
    Bridges (parallel (body :: bodies)) (l + m) where
  next_le start stop next :=
    Nat.le_trans (Nat.le_of_lt (head.base_lt next)) (tail.next_le start stop _)
  ranged lo start stop next starts stops := by
    have first := head.within next
    have begins := first.start_mem
    have ends := first.stop_mem
    have others := tail.ranged lo start stop (body next).next (by omega) (by omega)
    have grows := tail.next_le start stop (body next).next
    refine ranged_append.2
      ⟨first.ranged.mono (by omega) grows, ranged_silent.2 ⟨?_, ranged_silent.2 ⟨?_, others⟩⟩⟩
    all_goals
      simp only [parallel]
      omega
  annotated start stop next notes starts stops room := by
    have first := head.within next
    have grown := head.base_lt next
    rw [mul_add, add_le_iff] at room
    obtain ⟨notes₁, agree₁, annotates₁, entry, exit⟩ := head.annotated next notes (notes start)
    obtain ⟨notes₂, agree₂, annotates₂⟩ :=
      tail.annotated start stop (body next).next notes₁ (by omega) (by omega) (by
        rw [agree₁ start starts, agree₁ stop stops]
        exact room.2)
    have agree := agree₁.trans (Nat.le_of_lt grown) agree₂
    -- Both ends of the branch are joined to states that no fragment relabels.
    refine ⟨notes₂, agree, annotates_append.2 ⟨first.ranged.annotates agree₂ annotates₁, ?_⟩⟩
    refine annotates_silent.2 ⟨?_, annotates_silent.2 ⟨?_, annotates₂⟩⟩
    · rw [agree start starts, agree₂ _ first.start_mem.2]
      exact entry
    · rw [agree stop stops, agree₂ _ first.stop_mem.2]
      exact exit.trans room.1
  traversed start stop next nfa taken w matched := by
    simp only [parallel, List.forall_mem_append, List.forall_mem_cons] at taken
    obtain ⟨firstTaken, entry, exit, othersTaken⟩ := taken
    rcases (Language.mem_add l m w).1 matched with inHead | inTail
    · have first := head.traversed next nfa firstTaken w inHead
      have whole := first.trans (.of_silent exit)
      rw [List.append_nil] at whole
      exact .silent entry whole
    · exact tail.traversed start stop _ nfa othersTaken w inTail

theorem parallel_bridges (compiles : List.Forall₂ Compiles bodies ls) :
    Bridges (parallel bodies) ls.sum := by
  induction compiles with
  | nil => exact parallel_bridges_nil
  | cons head _ ih => exact parallel_bridges_cons head ih

/-! ## Repetitions -/

variable {body : Nat → Fragment} {l : Language UInt8}

/-- Copies that may be left out read any number of strings up to their own. -/
theorem optionalCopies_bridges (compiles : Compiles body l) (count : Nat) :
    Bridges (fun current stop next => optionalCopies body current stop next count)
      (repeatedLanguage l 0 (some count)) := by
  -- A further copy stands in front of the others, and from each one may leave at once.
  induction count with
  | zero =>
    refine ⟨fun _ _ next => Nat.le_refl next,
      fun lo _ _ next starts stops => ranged_silent.2 ⟨⟨starts, stops⟩, ranged_nil lo _⟩, ?_, ?_⟩
    · intro current stop next notes _ _ room
      refine ⟨notes, .refl next notes, annotates_silent.2 ⟨?_, annotates_nil notes⟩⟩
      rwa [repeatedLanguage_zero, mul_one] at room
    · intro current stop next nfa taken w matched
      rw [repeatedLanguage_zero, Language.mem_one] at matched
      subst matched
      exact .of_silent (taken _ List.mem_cons_self)
  | succ count ih =>
    refine ⟨fun current stop next =>
      Nat.le_trans (Nat.le_of_lt (compiles.base_lt next)) (ih.next_le _ stop _), ?_, ?_, ?_⟩
    · intro lo current stop next starts stops
      have first := compiles.within next
      have begins := first.start_mem
      have ends := first.stop_mem
      have others := ih.ranged lo (body next).stop stop (body next).next (by omega) (by omega)
      have grows := ih.next_le (body next).stop stop (body next).next
      refine ranged_append.2
        ⟨first.ranged.mono (by omega) grows, ranged_silent.2 ⟨?_, ranged_silent.2 ⟨?_, others⟩⟩⟩
      all_goals
        simp only [optionalCopies]
        omega
    · intro current stop next notes starts stops room
      have first := compiles.within next
      have grown := compiles.base_lt next
      rw [repeatedLanguage_succ, mul_add, mul_one, add_le_iff] at room
      obtain ⟨notes₁, agree₁, annotates₁, entry, exit⟩ :=
        compiles.annotated next notes (notes current)
      obtain ⟨notes₂, agree₂, annotates₂⟩ :=
        ih.annotated (body next).stop stop (body next).next notes₁ first.stop_mem.2 (by omega) (by
          rw [agree₁ stop stops]
          refine le_trans (mul_le_mul_left exit _) ?_
          rw [mul_assoc]
          exact room.2)
      have agree := agree₁.trans (Nat.le_of_lt grown) agree₂
      refine ⟨notes₂, agree, annotates_append.2 ⟨first.ranged.annotates agree₂ annotates₁, ?_⟩⟩
      refine annotates_silent.2 ⟨?_, annotates_silent.2 ⟨?_, annotates₂⟩⟩
      · rw [agree current starts, agree₂ _ first.start_mem.2]
        exact entry
      · rw [agree current starts, agree stop stops]
        exact room.1
    · intro current stop next nfa taken w matched
      simp only [optionalCopies, List.forall_mem_append, List.forall_mem_cons] at taken
      obtain ⟨firstTaken, entry, leave, othersTaken⟩ := taken
      rw [repeatedLanguage_succ, Language.mem_add] at matched
      rcases matched with left_out | taken_up
      · rw [Language.mem_one] at left_out
        subst left_out
        exact .of_silent leave
      · obtain ⟨u, inFirst, v, inOthers, rfl⟩ := Language.mem_mul.1 taken_up
        have first := compiles.traversed next nfa firstTaken u inFirst
        exact .silent entry (first.trans (ih.traversed _ stop _ nfa othersTaken v inOthers))

/-- A loop reads any number of strings.  Its hub is labelled with all of them, so that the copy of
the body leads back into the label. -/
theorem loop_bridges (compiles : Compiles body l) : Bridges (loop body) l∗ where
  next_le _ _ next := by
    have := compiles.base_lt (next + 1)
    simp only [loop]
    omega
  ranged lo current stop next starts stops := by
    have first := compiles.within (next + 1)
    have begins := first.start_mem
    have ends := first.stop_mem
    refine ranged_append.2 ⟨first.ranged.mono (by omega) (Nat.le_refl _), ?_⟩
    refine ranged_silent.2 ⟨?_, ranged_silent.2 ⟨?_, ranged_silent.2 ⟨?_,
      ranged_silent.2 ⟨?_, ranged_nil _ _⟩⟩⟩⟩
    all_goals
      simp only [loop]
      omega
  annotated current stop next notes starts stops room := by
    have first := compiles.within (next + 1)
    have hubBelow : AgreeBelow next notes (Function.update notes next (notes current * l∗)) :=
      .update notes next _
    obtain ⟨notes', agree, annotates, entry, exit⟩ :=
      compiles.annotated (next + 1) (Function.update notes next (notes current * l∗))
        (notes current * l∗)
    -- The hub is the state just below those of the body, which keeps its label.
    have hub : notes' next = notes current * l∗ := by
      rw [agree next (Nat.lt_succ_self next), Function.update_self]
    have below := hubBelow.trans (Nat.le_succ next) agree
    refine ⟨notes', below, annotates_append.2 ⟨annotates, ?_⟩⟩
    refine annotates_silent.2 ⟨?_, annotates_silent.2 ⟨?_, annotates_silent.2 ⟨?_,
      annotates_silent.2 ⟨?_, annotates_nil notes'⟩⟩⟩⟩
    · rw [below current starts, hub]
      exact le_mul_of_one_le_right' one_le_kstar
    · rw [hub]
      exact entry
    · rw [hub]
      refine exit.trans ?_
      rw [mul_assoc]
      exact mul_le_mul_right kstar_mul_le_kstar _
    · rw [hub, below stop stops]
      exact room
  traversed current stop next nfa taken w matched := by
    simp only [loop, List.forall_mem_append, List.forall_mem_cons] at taken
    obtain ⟨copyTaken, enter, entry, back, leave, _⟩ := taken
    obtain ⟨strings, rfl, inBody⟩ := Language.mem_kstar.1 matched
    -- Behind the entry, one round from the hub back to it for each string.
    refine .silent enter ?_
    induction strings with
    | nil => exact .of_silent leave
    | cons u strings ih =>
      obtain ⟨inHead, inTail⟩ := List.forall_mem_cons.1 inBody
      have copy := compiles.traversed (next + 1) nfa copyTaken u inHead
      exact .silent entry (copy.trans (.silent back
        (ih inTail (Language.join_mem_kstar inTail))))

/-! ## Patterns -/

/-- Two new states, joined by a chain and what leads on from its end. -/
def spanned (bodies : List (Nat → Fragment)) (between : Nat → Nat → Nat → Fragment)
    (base : Nat) : Fragment :=
  let required := chain bodies base (base + 2)
  let more := between required.stop (base + 1) required.next
  ⟨base, base + 1, more.next, required.transitions ++ more.transitions⟩

theorem spanned_compiles {between : Nat → Nat → Nat → Fragment} {m : Language UInt8}
    (compiles : List.Forall₂ Compiles bodies ls) (bridges : Bridges between m) :
    Compiles (spanned bodies between) (ls.prod * m) where
  within base := by
    have required := chain_within compiles (Nat.le_refl base) (by omega : base < base + 2)
    have grown := next_le_chain compiles base (base + 2)
    have grows := bridges.next_le (chain bodies base (base + 2)).stop (base + 1)
      (chain bodies base (base + 2)).next
    have more := bridges.ranged base (chain bodies base (base + 2)).stop (base + 1)
      (chain bodies base (base + 2)).next required.stop_mem (by omega)
    refine ⟨⟨Nat.le_refl base, ?_⟩, ⟨Nat.le_succ base, ?_⟩,
      ranged_append.2 ⟨required.ranged.mono (Nat.le_refl base) grows, more⟩⟩
    all_goals
      simp only [spanned]
      omega
  annotated base notes entry := by
    have required := chain_within compiles (Nat.le_refl base) (by omega : base < base + 2)
    have grown := next_le_chain compiles base (base + 2)
    obtain ⟨notes₀, agree₀, startNote, stopNote⟩ :=
      exists_endNotes base notes entry (entry * (ls.prod * m))
    obtain ⟨notes₁, agree₁, annotates₁, exit⟩ :=
      chain_annotated compiles (by omega : base < base + 2) notes₀
    obtain ⟨notes₂, agree₂, annotates₂⟩ :=
      bridges.annotated (chain bodies base (base + 2)).stop (base + 1)
        (chain bodies base (base + 2)).next notes₁ required.stop_mem.2 (by omega) (by
          rw [agree₁ (base + 1) (by omega), stopNote, ← mul_assoc, ← startNote]
          exact mul_le_mul_left exit m)
    have agree := agree₁.trans grown agree₂
    refine ⟨notes₂, agree₀.trans (by omega) agree,
      annotates_append.2 ⟨required.ranged.annotates agree₂ annotates₁, annotates₂⟩, ?_, ?_⟩
    · change entry ≤ notes₂ base
      rw [agree base (by omega), startNote]
    · change notes₂ (base + 1) ≤ _
      rw [agree (base + 1) (by omega), stopNote]
  traversed base nfa taken w matched := by
    simp only [spanned, List.forall_mem_append] at taken
    obtain ⟨u, inRequired, v, inMore, rfl⟩ := Language.mem_mul.1 matched
    exact (chain_traversed compiles taken.1 inRequired).trans
      (bridges.traversed _ (base + 1) _ nfa taken.2 v inMore)

theorem repeated_none (body : Nat → Fragment) (min : Nat) :
    repeated body min none = spanned (List.replicate min body) (loop body) := by
  funext base
  simp only [repeated, copies_eq_chain, spanned]

theorem repeated_some (body : Nat → Fragment) (min max : Nat) :
    repeated body min (some max) = spanned (List.replicate min body)
      fun current stop next => optionalCopies body current stop next (max - min) := by
  funext base
  simp only [repeated, copies_eq_chain, spanned]

/-- The copies that a repetition needs, then a loop or the copies that may be left out. -/
theorem repeated_compiles (compiles : Compiles body l) {min : Nat} {max : Option Nat}
    (ordered : max.all (min ≤ ·) = true) :
    Compiles (repeated body min max) (repeatedLanguage l min max) := by
  have required : List.Forall₂ Compiles (List.replicate min body) (List.replicate min l) :=
    List.forall₂_iff_get.2 ⟨by simp, by simpa using fun _ _ => compiles⟩
  cases max with
  | none =>
    have spanned := spanned_compiles required (loop_bridges compiles)
    rw [List.prod_replicate, ← repeatedLanguage_none] at spanned
    rw [repeated_none]
    exact spanned
  | some max =>
    have spanned := spanned_compiles required (optionalCopies_bridges compiles (max - min))
    have least : min ≤ max := by simpa using ordered
    rw [List.prod_replicate, ← repeatedLanguage_some least] at spanned
    rw [repeated_some]
    exact spanned

theorem chain_compiles (compiles : List.Forall₂ Compiles bodies ls) :
    Compiles (fun base => chain bodies base (base + 1)) ls.prod where
  within base := chain_within compiles (Nat.le_refl base) (Nat.lt_succ_self base)
  annotated base notes entry := by
    obtain ⟨notes', agree, annotates, exit⟩ :=
      chain_annotated compiles (Nat.lt_succ_self base) (Function.update notes base entry)
    refine ⟨notes', (AgreeBelow.update notes base entry).trans (Nat.le_succ base) agree,
      annotates, ?_, ?_⟩
    · rw [chain_start, agree base (Nat.lt_succ_self base), Function.update_self]
    · rwa [Function.update_self] at exit
  traversed base nfa taken w matched := by
    rw [chain_start]
    exact chain_traversed compiles taken matched

theorem forall₂_compiles {ps : List Pattern}
    (each : ∀ p ∈ ps, Compiles (ofPattern p) p.language) :
    List.Forall₂ Compiles (ps.map ofPattern) (ps.map Pattern.language) := by
  rw [List.forall₂_map_left_iff, List.forall₂_map_right_iff]
  exact List.forall₂_same.2 each

theorem single_compiles (label : Option ByteSet) :
    Compiles (fun base => ⟨base, base + 1, base + 2, [⟨base, label, base + 1⟩]⟩)
      (Transition.language ⟨0, label, 0⟩) where
  within base := by
    refine ⟨⟨Nat.le_refl base, ?_⟩, ⟨Nat.le_succ base, ?_⟩, ?_⟩
    · exact Nat.lt_add_of_pos_right (by omega)
    · exact Nat.lt_succ_self _
    · intro t member
      rw [List.mem_singleton] at member
      subst member
      simp
  annotated base notes entry := by
    obtain ⟨notes₀, agree₀, startNote, stopNote⟩ :=
      exists_endNotes base notes entry (entry * Transition.language ⟨0, label, 0⟩)
    refine ⟨notes₀, agree₀, annotates_cons.2 ⟨?_, annotates_nil notes₀⟩, ?_, ?_⟩
    · change notes₀ base * Transition.language ⟨0, label, 0⟩ ≤ notes₀ (base + 1)
      rw [startNote, stopNote]
    · exact le_of_eq startNote.symm
    · exact le_of_eq stopNote
  traversed base nfa taken w matched :=
    (taken ⟨base, label, base + 1⟩ List.mem_cons_self).path matched

theorem ofPattern_seq (ps : List Pattern) :
    ofPattern (.seq ps) = fun base => chain (ps.map ofPattern) base (base + 1) := by
  funext base
  rw [ofPattern, ofParts_eq_chain]

/-- A choice needs nothing before its branches: its chain is the empty one. -/
theorem ofPattern_alt (ps : List Pattern) :
    ofPattern (.alt ps) = spanned [] (parallel (ps.map ofPattern)) := by
  funext base
  simp only [ofPattern, ofBranches_eq_parallel, spanned, chain, List.nil_append]

theorem ofPattern_rep (body : Pattern) (min : Nat) (max : Option Nat) :
    ofPattern (.rep body min max) = repeated (ofPattern body) min max := by
  funext base
  rw [ofPattern]

/-- The fragment of a pattern reads its language. -/
theorem compiles_ofPattern (p : Pattern) (ordered : p.countsOrdered = true) :
    Compiles (ofPattern p) p.language := by
  induction p with
  | empty => exact single_compiles none
  | set bytes => exact single_compiles (some bytes)
  | seq parts ih =>
    have each := Pattern.allCountsOrdered_iff.1 ordered
    rw [Pattern.language_seq, ofPattern_seq]
    exact chain_compiles (forall₂_compiles fun p member => ih p member (each p member))
  | alt branches ih =>
    have each := Pattern.allCountsOrdered_iff.1 ordered
    have spanned := spanned_compiles .nil
      (parallel_bridges (forall₂_compiles fun p member => ih p member (each p member)))
    rw [List.prod_nil, one_mul] at spanned
    rw [Pattern.language_alt, ofPattern_alt]
    exact spanned
  | rep body min max ih =>
    rw [Pattern.countsOrdered, Bool.and_eq_true] at ordered
    rw [ofPattern_rep]
    exact repeated_compiles (ih ordered.2) ordered.1

end Fragment

end ScannerGen
