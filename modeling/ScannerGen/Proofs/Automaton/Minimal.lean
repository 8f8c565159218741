import Mathlib.Data.Finset.Card
import ScannerGen.Automaton.Minimal
import ScannerGen.Proofs.Automaton.Deterministic

/-!
# Minimization

Merging states changes neither the winner after any string nor the shape of the automaton.

* `Partition.get_eq_of_count_eq` — a refinement with as many classes has the same classes, which is
  why the refinement may stop when the count does.
* `RefinesTo` — the rounds of refining, which end whatever the automaton.
* `Congruence` — what makes a partition fit for merging; `congruence_stablePartition`.
* `rename` — the state that a state is merged into; `run_quotient`, `token?_rename`.
-/

namespace ScannerGen.Dfa

/-! ## Partitions -/

namespace Partition

/-- The classes of the states below `size` are the numbers below the count. -/
structure Covers (partition : Partition) (size : Nat) : Prop where
  size_eq : partition.classes.size = size
  get_lt : ∀ s < size, partition.get s < partition.count
  exists_get : ∀ c < partition.count, ∃ s < size, partition.get s = c

/-- States in one class of the finer partition are in one class of the coarser one. -/
def Refines (fine coarse : Partition) (size : Nat) : Prop :=
  ∀ s < size, ∀ t < size, fine.get s = fine.get t → coarse.get s = coarse.get t

variable {fine coarse : Partition} {size : Nat}

theorem Refines.refl (partition : Partition) (size : Nat) : partition.Refines partition size :=
  fun _ _ _ _ same => same

theorem Refines.trans {partition : Partition} (first : partition.Refines fine size)
    (second : fine.Refines coarse size) : partition.Refines coarse size :=
  fun s insideS t insideT same => second s insideS t insideT (first s insideS t insideT same)

theorem Covers.count_eq {partition : Partition} (covers : partition.Covers size) :
    partition.count = ((Finset.range size).image partition.get).card := by
  have classes : (Finset.range size).image partition.get = Finset.range partition.count := by
    ext c
    rw [Finset.mem_image, Finset.mem_range]
    constructor
    · rintro ⟨s, inside, rfl⟩
      exact covers.get_lt s (Finset.mem_range.1 inside)
    · intro bound
      obtain ⟨s, inside, found⟩ := covers.exists_get c bound
      exact ⟨s, Finset.mem_range.2 inside, found⟩
  rw [classes, Finset.card_range]

theorem Covers.count_le {partition : Partition} (covers : partition.Covers size) :
    partition.count ≤ size := by
  rw [covers.count_eq]
  exact Finset.card_image_le.trans (Nat.le_of_eq (Finset.card_range size))

/-- The class in the coarser partition is a function of the class in the finer one. -/
theorem Refines.exists_factor (refines : fine.Refines coarse size) :
    ∃ factor : Nat → Nat, ∀ s < size, factor (fine.get s) = coarse.get s := by
  classical
  refine ⟨fun c => if member : ∃ s < size, fine.get s = c then coarse.get member.choose else 0,
    fun s inside => ?_⟩
  have member : ∃ t < size, fine.get t = fine.get s := ⟨s, inside, rfl⟩
  show (if member : ∃ t < size, fine.get t = fine.get s then coarse.get member.choose else 0) = _
  rw [dif_pos member]
  exact refines _ member.choose_spec.1 s inside member.choose_spec.2

theorem image_of_factor {factor : Nat → Nat}
    (factors : ∀ s < size, factor (fine.get s) = coarse.get s) :
    ((Finset.range size).image fine.get).image factor = (Finset.range size).image coarse.get := by
  rw [Finset.image_image]
  exact Finset.image_congr fun s inside => factors s (Finset.mem_range.1 inside)

/-- Refining loses no classes. -/
theorem Refines.count_le (refines : fine.Refines coarse size) (coversFine : fine.Covers size)
    (coversCoarse : coarse.Covers size) : coarse.count ≤ fine.count := by
  obtain ⟨factor, factors⟩ := refines.exists_factor
  rw [coversFine.count_eq, coversCoarse.count_eq, ← image_of_factor factors]
  exact Finset.card_image_le

/-- A refinement with as many classes has the same classes: the function from its classes onto the
coarser ones is injective. -/
theorem Refines.get_eq_of_count_eq (refines : fine.Refines coarse size)
    (coversFine : fine.Covers size) (coversCoarse : coarse.Covers size)
    (count : fine.count = coarse.count) : coarse.Refines fine size := by
  intro s insideS t insideT same
  obtain ⟨factor, factors⟩ := refines.exists_factor
  have injective : Set.InjOn factor ((Finset.range size).image fine.get) := by
    apply Finset.injOn_of_card_image_eq
    rw [image_of_factor factors, ← coversFine.count_eq, ← coversCoarse.count_eq, count]
  have memberOf : ∀ s < size, fine.get s ∈ ((Finset.range size).image fine.get : Set Nat) :=
    fun s inside => Finset.mem_coe.2 (Finset.mem_image_of_mem _ (Finset.mem_range.2 inside))
  apply injective (memberOf s insideS) (memberOf t insideT)
  rw [factors s insideS, factors t insideT, same]

/-! ## Partitions by a key -/

section Keys

variable {κ : Type} [BEq κ] [Hashable κ] [LawfulBEq κ] [LawfulHashable κ] {keys : List κ}

theorem get_ofKeys (keys : List κ) (s : Nat) :
    (ofKeys keys).get s = ((Numbering.empty.numberAll keys).1[s]?).getD 0 := by
  rw [get, Array.getD_eq_getD_getElem?, ← List.getElem?_toArray]
  rfl

theorem values_get_ofKeys {s : Nat} {key : κ} (found : keys[s]? = some key) :
    (Numbering.empty.numberAll keys).2.values[(ofKeys keys).get s]? = some key := by
  obtain ⟨i, number, value⟩ := Numbering.getElem?_numberAll Numbering.empty found
  rw [get_ofKeys, number, Option.getD_some]
  exact value

theorem get_ofKeys_eq_iff {s t : Nat} {keyS keyT : κ} (foundS : keys[s]? = some keyS)
    (foundT : keys[t]? = some keyT) :
    (ofKeys keys).get s = (ofKeys keys).get t ↔ keyS = keyT := by
  have valueS := values_get_ofKeys foundS
  have valueT := values_get_ofKeys foundT
  constructor
  · intro same
    rw [same, valueT] at valueS
    exact (Option.some.inj valueS).symm
  · rintro rfl
    exact Numbering.number_unique valueS valueT

theorem covers_ofKeys (keys : List κ) : (ofKeys keys).Covers keys.length where
  size_eq := Numbering.length_numberAll Numbering.empty keys
  get_lt s inside :=
    (Array.getElem?_eq_some_iff.1 (values_get_ofKeys (List.getElem?_eq_getElem inside))).1
  exists_get c bound := by
    have value := Array.getElem?_eq_getElem bound
    obtain ⟨_, _, only⟩ := Numbering.empty.numberAll_spec keys
    rcases only _ (Array.mem_of_getElem? value) with known | listed
    · exact absurd known (Array.not_mem_empty _)
    · obtain ⟨s, found⟩ := List.mem_iff_getElem?.1 listed
      refine ⟨s, (List.getElem?_eq_some_iff.1 found).1, ?_⟩
      exact Numbering.number_unique (values_get_ofKeys found) value

end Keys

end Partition

variable {dfa : Dfa}

/-! ## The stable partition -/

/-- Merged states have one winner, the start is merged with no other state, and each byte leads
merged states to merged states. -/
structure Congruence (dfa : Dfa) (partition : Partition) : Prop where
  covers : partition.Covers dfa.size
  token_eq : ∀ s < dfa.size, ∀ t < dfa.size, partition.get s = partition.get t →
    dfa.token? s = dfa.token? t
  start_apart : ∀ s < dfa.size, partition.get s = partition.get dfa.start → s = dfa.start
  next_eq : ∀ s < dfa.size, ∀ t < dfa.size, partition.get s = partition.get t →
    ∀ b, partition.get (dfa.next s b) = partition.get (dfa.next t b)

theorem getElem?_initialKeys {s : Nat} (inside : s < dfa.size) :
    (dfa.states.toList.mapIdx fun s state => (s == dfa.start, state.token))[s]? =
      some (s == dfa.start, dfa.token? s) := by
  rw [List.getElem?_mapIdx, Array.getElem?_toList, Array.getElem?_eq_getElem inside,
    Option.map_some, token?_of_lt inside]

theorem get_initialPartition {s t : Nat} (insideS : s < dfa.size) (insideT : t < dfa.size) :
    dfa.initialPartition.get s = dfa.initialPartition.get t ↔
      (s == dfa.start) = (t == dfa.start) ∧ dfa.token? s = dfa.token? t := by
  rw [initialPartition,
    Partition.get_ofKeys_eq_iff (getElem?_initialKeys insideS) (getElem?_initialKeys insideT), Prod.mk.injEq]

theorem covers_initialPartition (dfa : Dfa) : dfa.initialPartition.Covers dfa.size := by
  have covers := Partition.covers_ofKeys (dfa.states.toList.mapIdx fun s state => (s == dfa.start, state.token))
  rwa [List.length_mapIdx, Array.length_toList] at covers

theorem get_refine (bytes : List UInt8) (partition : Partition) {s t : Nat}
    (insideS : s < dfa.size) (insideT : t < dfa.size) :
    (dfa.refine bytes partition).get s = (dfa.refine bytes partition).get t ↔
      partition.get s = partition.get t ∧
        ∀ b ∈ bytes, partition.get (dfa.next s b) = partition.get (dfa.next t b) := by
  have key : ∀ s < dfa.size, ((List.range dfa.size).map (dfa.signature bytes partition))[s]? =
      some (dfa.signature bytes partition s) := by
    intro s inside
    rw [List.getElem?_map, List.getElem?_range inside, Option.map_some]
  rw [refine, Partition.get_ofKeys_eq_iff (key s insideS) (key t insideT), signature, signature,
    Prod.mk.injEq, List.map_inj_left]

theorem covers_refine (dfa : Dfa) (bytes : List UInt8) (partition : Partition) :
    (dfa.refine bytes partition).Covers dfa.size := by
  have covers := Partition.covers_ofKeys ((List.range dfa.size).map (dfa.signature bytes partition))
  rwa [List.length_map, List.length_range] at covers

theorem refines_refine (dfa : Dfa) (bytes : List UInt8) (partition : Partition) :
    (dfa.refine bytes partition).Refines partition dfa.size :=
  fun _ insideS _ insideT same => ((get_refine bytes partition insideS insideT).1 same).1

/-- Refining from a partition on ends with another one: round follows round as long as the number of
classes changes. -/
inductive RefinesTo (dfa : Dfa) (bytes : List UInt8) : Partition → Partition → Prop
  | ended {partition : Partition} (same : (dfa.refine bytes partition).count = partition.count) :
      RefinesTo dfa bytes partition (dfa.refine bytes partition)
  | again {partition final : Partition}
      (differ : (dfa.refine bytes partition).count ≠ partition.count)
      (others : RefinesTo dfa bytes (dfa.refine bytes partition) final) :
      RefinesTo dfa bytes partition final

/-- Refining ends: each round but the last raises the count, which stays within the number of
states. -/
theorem refinesTo_refineAll (bytes : List UInt8) (fuel : Nat) {partition : Partition}
    (covers : partition.Covers dfa.size) (enough : dfa.size < fuel + partition.count) :
    dfa.RefinesTo bytes partition (dfa.refineAll bytes fuel partition) := by
  induction fuel generalizing partition with
  | zero =>
    have := covers.count_le
    omega
  | succ fuel ih =>
    have coversRefined := covers_refine dfa bytes partition
    rw [refineAll]
    split
    · next same => exact .ended same
    · next differ =>
      have more := (refines_refine dfa bytes partition).count_le coversRefined covers
      exact .again differ (ih coversRefined (by omega))

theorem refinesTo_stablePartition (dfa : Dfa) :
    dfa.RefinesTo dfa.columnClasses.representatives dfa.initialPartition dfa.stablePartition :=
  refinesTo_refineAll _ _ (covers_initialPartition dfa) (by omega)

/-- Refining ends with a partition that refines the first one and that the bytes respect. -/
theorem RefinesTo.spec (wellFormed : dfa.WellFormed) {bytes : List UInt8} {partition final : Partition}
    (refining : dfa.RefinesTo bytes partition final) (covers : partition.Covers dfa.size) :
    final.Covers dfa.size ∧ final.Refines partition dfa.size ∧
      ∀ s < dfa.size, ∀ t < dfa.size, final.get s = final.get t →
        ∀ b ∈ bytes, final.get (dfa.next s b) = final.get (dfa.next t b) := by
  induction refining with
  | @ended partition stopped =>
    have coversRefined := covers_refine dfa bytes partition
    have refines := refines_refine dfa bytes partition
    refine ⟨coversRefined, refines, fun s insideS t insideT same b listed => ?_⟩
    -- Nothing was split, so what the bytes respected before they respect now.
    apply refines.get_eq_of_count_eq coversRefined covers stopped
    · exact wellFormed.next_lt s insideS b
    · exact wellFormed.next_lt t insideT b
    · exact ((get_refine bytes partition insideS insideT).1 same).2 b listed
  | @again partition final _ _ ih =>
    obtain ⟨coversFinal, refines, respected⟩ := ih (covers_refine dfa bytes partition)
    exact ⟨coversFinal, refines.trans (refines_refine dfa bytes partition), respected⟩

theorem congruence_stablePartition (wellFormed : dfa.WellFormed) :
    dfa.Congruence dfa.stablePartition := by
  obtain ⟨covers, refines, stable⟩ :=
    (refinesTo_stablePartition dfa).spec wellFormed (covers_initialPartition dfa)
  refine ⟨covers, fun s insideS t insideT same => ?_, fun s inside same => ?_,
    fun s insideS t insideT same b => ?_⟩
  · exact ((get_initialPartition insideS insideT).1 (refines s insideS t insideT same)).2
  · have marks := ((get_initialPartition inside wellFormed.start_lt).1
      (refines s inside _ wellFormed.start_lt same)).1
    rw [beq_self_eq_true] at marks
    exact eq_of_beq marks
  · -- Some byte that was tried does the same as `b` in every state.
    obtain ⟨r, found, agree⟩ := dfa.exists_representative b
    rw [← agree s, ← agree t]
    exact stable s insideS t insideT same r (List.mem_of_getElem? found)

/-! ## Merging -/

section Merging

variable {partition : Partition}

/-- The classes in the order of the merged states. -/
def mergedOrder (dfa : Dfa) (partition : Partition) : Numbering Nat :=
  (Numbering.empty.numberAll
    (partition.get dfa.reject :: partition.get dfa.start :: partition.classes.toList)).2

/-- The state that a state is merged into. -/
def rename (dfa : Dfa) (partition : Partition) (s : Nat) : Nat :=
  ((dfa.mergedOrder partition).index[partition.get s]?).getD 0

/-- The first state of a class. -/
def leader (partition : Partition) (c : Nat) : Nat := partition.classes.idxOf c

theorem mem_classes (covers : partition.Covers dfa.size) {s : Nat} (inside : s < dfa.size) :
    partition.get s ∈ partition.classes := by
  have bound : s < partition.classes.size := by
    rw [covers.size_eq]
    exact inside
  rw [Partition.get, Array.getD_eq_getD_getElem?, Array.getElem?_eq_getElem bound, Option.getD_some]
  exact Array.getElem_mem bound

theorem exists_get (covers : partition.Covers dfa.size) {c : Nat} (member : c ∈ partition.classes) :
    ∃ s < dfa.size, partition.get s = c := by
  obtain ⟨s, found⟩ := Array.mem_iff_getElem?.1 member
  refine ⟨s, ?_, ?_⟩
  · rw [← covers.size_eq]
    exact (Array.getElem?_eq_some_iff.1 found).1
  · rw [Partition.get, Array.getD_eq_getD_getElem?, found, Option.getD_some]

/-- A merged state stands for the class of the states merged into it. -/
theorem rename_eq_iff (covers : partition.Covers dfa.size) {s : Nat} (inside : s < dfa.size)
    {i : Nat} :
    dfa.rename partition s = i ↔ (dfa.mergedOrder partition).values[i]? = some (partition.get s) := by
  have listed : partition.get s ∈ partition.get dfa.reject :: partition.get dfa.start ::
      partition.classes.toList := by
    refine List.mem_cons_of_mem _ (List.mem_cons_of_mem _ (Array.mem_toList_iff.2 ?_))
    exact mem_classes covers inside
  obtain ⟨k, found⟩ := Array.mem_iff_getElem?.1
    (Numbering.mem_values_numberAll (n := Numbering.empty) listed)
  have number : dfa.rename partition s = k := by
    rw [rename, ((dfa.mergedOrder partition).agree _ k).2 found, Option.getD_some]
  rw [number]
  constructor
  · rintro rfl
    exact found
  · exact Numbering.number_unique found

theorem rename_congr {s t : Nat} (same : partition.get s = partition.get t) :
    dfa.rename partition s = dfa.rename partition t := by
  rw [rename, rename, same]

theorem get_leader (covers : partition.Covers dfa.size) {s : Nat} (inside : s < dfa.size) :
    leader partition (partition.get s) < dfa.size ∧
      partition.get (leader partition (partition.get s)) = partition.get s := by
  have member := mem_classes covers inside
  have bound := Array.idxOf_lt_length_of_mem member
  constructor
  · rw [← covers.size_eq]
    exact bound
  · rw [leader, Partition.get, Array.getD_eq_getD_getElem?, Array.getElem?_eq_getElem bound,
      Option.getD_some]
    exact eq_of_beq (Array.findIdx_getElem (w := bound))

/-- The state at a number is made from the leader of its class. -/
theorem getElem?_states_quotient (dfa : Dfa) (partition : Partition) (i : Nat) :
    (dfa.quotient partition).states[i]? = (dfa.mergedOrder partition).values[i]?.map fun c =>
      { successors := Vector.ofFn fun b =>
          dfa.rename partition (dfa.next (leader partition c) (UInt8.ofFin b))
        token := dfa.token? (leader partition c) } := by
  rw [quotient]
  simp only [Array.getElem?_map, Option.map_map]
  rfl

theorem next_rename (congruence : dfa.Congruence partition) {s : Nat}
    (inside : s < dfa.size) (b : UInt8) :
    (dfa.quotient partition).next (dfa.rename partition s) b =
      dfa.rename partition (dfa.next s b) := by
  have value := (rename_eq_iff congruence.covers inside).1 rfl
  obtain ⟨bound, same⟩ := get_leader congruence.covers inside
  rw [Dfa.next, getElem?_states_quotient, value, Option.map_some]
  -- The merged state moves as the leader of its class does, and so does every state of the class.
  show (Vector.ofFn _).get b.toFin = _
  rw [vector_get_ofFn]
  exact rename_congr (congruence.next_eq _ bound s inside same b)

theorem token?_rename (congruence : dfa.Congruence partition) {s : Nat} (inside : s < dfa.size) :
    (dfa.quotient partition).token? (dfa.rename partition s) = dfa.token? s := by
  have value := (rename_eq_iff congruence.covers inside).1 rfl
  obtain ⟨bound, same⟩ := get_leader congruence.covers inside
  rw [token?, getElem?_states_quotient, value, Option.map_some, Option.bind_some]
  exact congruence.token_eq _ bound s inside same

theorem rename_lt (covers : partition.Covers dfa.size) {s : Nat} (inside : s < dfa.size) :
    dfa.rename partition s < (dfa.quotient partition).size := by
  have value := (rename_eq_iff covers inside).1 rfl
  have bound := (Array.getElem?_eq_some_iff.1 value).1
  rw [size, quotient, Array.size_map, Array.size_map]
  exact bound

/-- Every state of the merged automaton is the merger of some states. -/
theorem exists_rename (wellFormed : dfa.WellFormed) (congruence : dfa.Congruence partition) {i : Nat}
    (inside : i < (dfa.quotient partition).size) :
    ∃ s < dfa.size, dfa.rename partition s = i := by
  rw [size, quotient, Array.size_map, Array.size_map] at inside
  have value := Array.getElem?_eq_getElem inside
  obtain ⟨_, _, only⟩ := Numbering.empty.numberAll_spec
    (partition.get dfa.reject :: partition.get dfa.start :: partition.classes.toList)
  rcases only _ (Array.mem_of_getElem? value) with known | listed
  · exact absurd known (Array.not_mem_empty _)
  · -- A class that was listed is that of the reject state, of the start or of some state.
    obtain ⟨s, insideS, same⟩ : ∃ s < dfa.size, partition.get s = _ := by
      rcases List.mem_cons.1 listed with same | listed
      · exact ⟨_, wellFormed.reject_lt, same.symm⟩
      · rcases List.mem_cons.1 listed with same | listed
        · exact ⟨_, wellFormed.start_lt, same.symm⟩
        · exact exists_get congruence.covers (Array.mem_toList_iff.1 listed)
    refine ⟨s, insideS, (rename_eq_iff congruence.covers insideS).2 ?_⟩
    rw [same]
    exact value

/-- The class of the reject state is numbered first, that of the start second. -/
theorem rename_reject_start (wellFormed : dfa.WellFormed) (congruence : dfa.Congruence partition) :
    dfa.rename partition dfa.reject = rejectId ∧ dfa.rename partition dfa.start = startId := by
  have fresh : partition.get dfa.start ≠ partition.get dfa.reject := by
    intro same
    exact wellFormed.start_ne_reject
      (congruence.start_apart _ wellFormed.reject_lt same.symm).symm
  obtain ⟨reject, start⟩ := Numbering.getElem?_numberAll_pair fresh partition.classes.toList
  exact ⟨(rename_eq_iff congruence.covers wellFormed.reject_lt).2 reject,
    (rename_eq_iff congruence.covers wellFormed.start_lt).2 start⟩

/-- A string leads to the state that the state after it is merged into. -/
theorem run_quotient (wellFormed : dfa.WellFormed) (congruence : dfa.Congruence partition)
    (w : List UInt8) : (dfa.quotient partition).run w = dfa.rename partition (dfa.run w) := by
  induction w using List.reverseRecOn with
  | nil => exact (rename_reject_start wellFormed congruence).2.symm
  | append_singleton w b ih =>
    rw [run_append_singleton, run_append_singleton, ih]
    exact next_rename congruence (wellFormed.run_lt w) b

end Merging

/-! ## The minimal automaton -/

theorem token?_run_minimize (wellFormed : dfa.WellFormed) (w : List UInt8) :
    dfa.minimize.token? (dfa.minimize.run w) = dfa.token? (dfa.run w) := by
  have congruence := congruence_stablePartition wellFormed
  rw [minimize, run_quotient wellFormed congruence]
  exact token?_rename congruence (wellFormed.run_lt w)

/-- Merging states makes no new winners. -/
theorem exists_token?_of_minimize (wellFormed : dfa.WellFormed) {s token : Nat}
    (wins : dfa.minimize.token? s = some token) : ∃ t, dfa.token? t = some token := by
  have congruence := congruence_stablePartition wellFormed
  obtain ⟨state, place, _⟩ := Option.bind_eq_some_iff.1 wins
  have inside : s < dfa.minimize.size := (Array.getElem?_eq_some_iff.1 place).1
  obtain ⟨t, insideT, rfl⟩ := exists_rename wellFormed congruence inside
  exact ⟨t, (token?_rename congruence insideT).symm.trans wins⟩

/-- Merging makes no more states: each merged state stands for states of its own. -/
theorem size_minimize_le (wellFormed : dfa.WellFormed) : dfa.minimize.size ≤ dfa.size := by
  have merged : Finset.range dfa.minimize.size ⊆
      (Finset.range dfa.size).image (dfa.rename dfa.stablePartition) := by
    intro i listed
    obtain ⟨s, inside, same⟩ := exists_rename wellFormed (congruence_stablePartition wellFormed)
      (Finset.mem_range.1 listed)
    exact Finset.mem_image.2 ⟨s, Finset.mem_range.2 inside, same⟩
  calc dfa.minimize.size = (Finset.range dfa.minimize.size).card := (Finset.card_range _).symm
    _ ≤ ((Finset.range dfa.size).image (dfa.rename dfa.stablePartition)).card :=
      Finset.card_le_card merged
    _ ≤ (Finset.range dfa.size).card := Finset.card_image_le
    _ = dfa.size := Finset.card_range _

theorem wellFormed_minimize (wellFormed : dfa.WellFormed) : dfa.minimize.WellFormed := by
  have congruence := congruence_stablePartition wellFormed
  obtain ⟨reject, start⟩ := rename_reject_start wellFormed congruence
  refine ⟨?_, ?_, Nat.one_ne_zero, fun s inside b => ?_, fun b => ?_, ?_⟩
  · have bound := rename_lt congruence.covers wellFormed.start_lt
    rw [start] at bound
    exact bound
  · have bound := rename_lt congruence.covers wellFormed.reject_lt
    rw [reject] at bound
    exact bound
  · obtain ⟨t, insideT, rfl⟩ := exists_rename wellFormed congruence inside
    rw [minimize, next_rename congruence insideT b]
    exact rename_lt congruence.covers (wellFormed.next_lt t insideT b)
  · have next := next_rename congruence wellFormed.reject_lt b
    rw [wellFormed.reject_next, reject] at next
    exact next
  · have token := token?_rename congruence wellFormed.reject_lt
    rw [wellFormed.reject_token, reject] at token
    exact token

end ScannerGen.Dfa
