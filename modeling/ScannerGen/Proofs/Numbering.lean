import Mathlib.Data.Finset.Card
import ScannerGen.Automaton.ByteClasses

/-!
# Numberings and classes of bytes

What is numbered is recovered from its number, and numbers given before stay.

* `Numbering.Extends` — a numbering knows what another one knows, under the same numbers.
* `Numbering.numberAll_spec` — the numbers of a list are those of its values.
* `ByteClasses.get_ofKey_eq_iff` — bytes are in one class exactly if they have one key;
  `ByteClasses.exists_representative` finds for each byte the representative of its class.
-/

namespace ScannerGen

variable {α : Type} [BEq α] [Hashable α]

namespace Numbering

/-- Every value of a numbering keeps its number in another one. -/
def Extends (n n' : Numbering α) : Prop :=
  ∀ (i : Nat) (x : α), n.values[i]? = some x → n'.values[i]? = some x

theorem Extends.refl (n : Numbering α) : n.Extends n := fun _ _ known => known

theorem Extends.trans {n₁ n₂ n₃ : Numbering α} (first : n₁.Extends n₂) (second : n₂.Extends n₃) :
    n₁.Extends n₃ := fun i x known => second i x (first i x known)

/-- Numbers that were found stay right when more values are known. -/
theorem Extends.map_eq {n n' : Numbering α} (grows : n.Extends n') {row : List Nat}
    {xs : List α} (agree : row.map (fun i => n.values[i]?) = xs.map some) :
    row.map (fun i => n'.values[i]?) = xs.map some := by
  induction row generalizing xs with
  | nil =>
    cases xs with
    | nil => rfl
    | cons => cases agree
  | cons i row ih =>
    cases xs with
    | nil => cases agree
    | cons x xs =>
      simp only [List.map_cons, List.cons.injEq] at agree ⊢
      exact ⟨grows i x agree.1, ih agree.2⟩

theorem number_unique {n : Numbering α} {i j : Nat} {x : α} (first : n.values[i]? = some x)
    (second : n.values[j]? = some x) : i = j := by
  rw [← n.agree] at first second
  exact Option.some.inj (first.symm.trans second)

theorem nodup_values (n : Numbering α) : n.values.toList.Nodup := by
  rw [List.nodup_iff_getElem?_ne_getElem?]
  intro i j less bound same
  rw [Array.length_toList] at bound
  have known : n.values[j]? = some n.values[j] := Array.getElem?_eq_getElem bound
  rw [Array.getElem?_toList, Array.getElem?_toList, known] at same
  exact absurd (number_unique same known) (Nat.ne_of_lt less)

variable [LawfulBEq α] [LawfulHashable α]

@[simp] theorem values_push (n : Numbering α) (x : α) (fresh : n.index[x]? = none) :
    (n.push x fresh).values = n.values.push x := rfl

/-- A value that is numbered is found under its number; nothing else is added. -/
theorem number_spec (n : Numbering α) (x : α) :
    n.Extends (n.number x).2 ∧ (n.number x).2.values[(n.number x).1]? = some x ∧
      ∀ y ∈ (n.number x).2.values, y ∈ n.values ∨ y = x := by
  unfold number
  split
  · next i known => exact ⟨.refl n, (n.agree x i).1 known, fun _ member => .inl member⟩
  · next fresh =>
    refine ⟨?_, ?_, ?_⟩
    · intro i y known
      have bound := (Array.getElem?_eq_some_iff.1 known).1
      rw [values_push, Array.getElem?_push, if_neg (Nat.ne_of_lt bound)]
      exact known
    · simp [size]
    · intro y member
      simpa using member

theorem values_number_of_fresh {n : Numbering α} {x : α} (fresh : x ∉ n.values) :
    (n.number x).2.values = n.values.push x := by
  unfold number
  split
  · next i known => exact absurd (Array.mem_of_getElem? ((n.agree x i).1 known)) fresh
  · rfl

theorem number_of_known {n : Numbering α} {x : α} (known : x ∈ n.values) : (n.number x).2 = n := by
  unfold number
  split
  · rfl
  · next absent =>
    obtain ⟨i, found⟩ := Array.mem_iff_getElem?.1 known
    cases absent.symm.trans ((n.agree x i).2 found)

theorem numberAll_cons (n : Numbering α) (x : α) (xs : List α) :
    (n.numberAll (x :: xs)).2 = ((n.number x).2.numberAll xs).2 := rfl

/-- New values, no two of them equal, are all appended. -/
theorem values_numberAll_of_nodup {n : Numbering α} {xs : List α} (distinct : xs.Nodup)
    (fresh : ∀ x ∈ xs, x ∉ n.values) :
    (n.numberAll xs).2.values.toList = n.values.toList ++ xs := by
  induction xs generalizing n with
  | nil => exact (List.append_nil _).symm
  | cons x xs ih =>
    obtain ⟨head, tail⟩ := List.nodup_cons.1 distinct
    obtain ⟨freshHead, freshTail⟩ := List.forall_mem_cons.1 fresh
    have pushed := values_number_of_fresh freshHead
    rw [numberAll_cons, ih tail, pushed, Array.toList_push, List.append_assoc, List.singleton_append]
    intro y member known
    rw [pushed, Array.mem_push] at known
    rcases known with old | rfl
    · exact freshTail y member old
    · exact head member

/-- The numbers of a list are those of its values, in the numbering that results. -/
theorem numberAll_spec (n : Numbering α) (xs : List α) :
    n.Extends (n.numberAll xs).2 ∧
      (n.numberAll xs).1.map (fun i => (n.numberAll xs).2.values[i]?) = xs.map some ∧
      ∀ y ∈ (n.numberAll xs).2.values, y ∈ n.values ∨ y ∈ xs := by
  induction xs generalizing n with
  | nil => exact ⟨.refl n, rfl, fun _ member => .inl member⟩
  | cons x xs ih =>
    obtain ⟨grows, found, only⟩ := number_spec n x
    obtain ⟨growsAll, foundAll, onlyAll⟩ := ih (n.number x).2
    refine ⟨grows.trans growsAll, ?_, ?_⟩
    · simp only [numberAll, List.map_cons, foundAll]
      rw [growsAll _ _ found]
    · -- What is known in the end was known before, or is the head, or comes from the tail.
      intro y member
      rcases onlyAll y member with known | listed
      · rcases only y known with known | rfl
        · exact .inl known
        · exact .inr List.mem_cons_self
      · exact .inr (List.mem_cons_of_mem x listed)

/-- The value at a place of a list is found under the number at that place. -/
theorem getElem?_numberAll (n : Numbering α) {xs : List α} {k : Nat} {x : α}
    (found : xs[k]? = some x) :
    ∃ i, (n.numberAll xs).1[k]? = some i ∧ (n.numberAll xs).2.values[i]? = some x := by
  have place := congrArg (·[k]?) (numberAll_spec n xs).2.1
  simp only [List.getElem?_map, found, Option.map_some, Option.map_eq_some_iff] at place
  exact place

theorem mem_values_numberAll {n : Numbering α} {xs : List α} {x : α} (member : x ∈ xs) :
    x ∈ (n.numberAll xs).2.values := by
  obtain ⟨k, found⟩ := List.mem_iff_getElem?.1 member
  obtain ⟨i, _, known⟩ := getElem?_numberAll n found
  exact Array.mem_of_getElem? known

theorem values_numberAll_pair {x y : α} (differ : y ≠ x) :
    ((empty.number x).2.number y).2.values = #[x, y] := by
  have first : (empty.number x).2.values = #[x] :=
    values_number_of_fresh (Array.not_mem_empty x)
  rw [values_number_of_fresh, first]
  · rfl
  · rw [first, Array.mem_singleton]
    exact differ

/-- Putting the first two values of a list in front of it once more changes no number. -/
theorem values_numberAll_front {x y : α} {xs : List α} (distinct : (x :: y :: xs).Nodup) :
    (empty.numberAll (x :: y :: x :: y :: xs)).2.values.toList = x :: y :: xs := by
  obtain ⟨first, others⟩ := List.nodup_cons.1 distinct
  obtain ⟨second, tail⟩ := List.nodup_cons.1 others
  have differ : y ≠ x := fun same => first (List.mem_cons.2 (.inl same.symm))
  have pair := values_numberAll_pair differ
  have knowsFirst : x ∈ ((empty.number x).2.number y).2.values := by
    rw [pair]
    simp
  have knowsSecond : y ∈ ((empty.number x).2.number y).2.values := by
    rw [pair]
    simp
  rw [numberAll_cons, numberAll_cons, numberAll_cons, numberAll_cons, number_of_known knowsFirst,
    number_of_known knowsSecond, values_numberAll_of_nodup tail, pair]
  · rfl
  · intro z member known
    rw [pair] at known
    simp only [List.mem_toArray, List.mem_cons, List.not_mem_nil, or_false] at known
    rcases known with rfl | rfl
    · exact first (List.mem_cons_of_mem _ member)
    · exact second member

/-- Two different values at the front of a list are numbered 0 and 1. -/
theorem getElem?_numberAll_pair {x y : α} (differ : y ≠ x) (xs : List α) :
    (empty.numberAll (x :: y :: xs)).2.values[0]? = some x ∧
      (empty.numberAll (x :: y :: xs)).2.values[1]? = some y := by
  have second := values_numberAll_pair differ
  obtain ⟨grows, _, _⟩ := numberAll_spec ((empty.number x).2.number y).2 xs
  constructor
  · apply grows
    rw [second]
    rfl
  · apply grows
    rw [second]
    rfl

end Numbering

/-! ## Classes of bytes -/

theorem getElem?_allBytes (b : UInt8) : allBytes[b.toNat]? = some b := by
  simp [allBytes, ByteSet.toNat_lt]

namespace ByteClasses

variable {κ : Type} [BEq κ] [Hashable κ] [LawfulBEq κ] [LawfulHashable κ] {key : UInt8 → κ}

/-- The keys of the classes, in the order of the classes. -/
def keys (key : UInt8 → κ) : Numbering κ := (Numbering.empty.numberAll (allBytes.map key)).2

theorem getElem?_ofList (numbers : List Nat) (length : numbers.toArray.size = 256) (b : UInt8) :
    numbers[b.toNat]? = some ((Vector.mk numbers.toArray length).get b.toFin) := by
  rw [Vector.get, ← List.getElem?_toArray]
  exact Array.getElem?_eq_getElem _

theorem getElem?_classes (key : UInt8 → κ) (b : UInt8) :
    (firstAppearance (allBytes.map key))[b.toNat]? = some ((ofKey key).get b) :=
  getElem?_ofList _ _ b

/-- The class of a byte is the number of its key. -/
theorem keys_get_ofKey (key : UInt8 → κ) (b : UInt8) :
    (keys key).values[(ofKey key).get b]? = some (key b) := by
  have listed : (allBytes.map key)[b.toNat]? = some (key b) := by
    rw [List.getElem?_map, getElem?_allBytes, Option.map_some]
  obtain ⟨i, number, found⟩ := Numbering.getElem?_numberAll Numbering.empty listed
  have place := getElem?_classes key b
  rw [firstAppearance, number, Option.some.injEq] at place
  rw [← place, keys]
  exact found

theorem get_ofKey_eq_iff {b c : UInt8} :
    (ofKey key).get b = (ofKey key).get c ↔ key b = key c := by
  have first := keys_get_ofKey key b
  have second := keys_get_ofKey key c
  constructor
  · intro same
    rw [same, second] at first
    exact (Option.some.inj first).symm
  · intro same
    rw [same] at first
    exact Numbering.number_unique first second

theorem representatives_ofKey (key : UInt8 → κ) :
    (ofKey key).representatives = (List.range (distinctCount (allBytes.map key))).map fun c =>
      UInt8.ofNat ((firstAppearance (allBytes.map key)).idxOf c) := by
  rw [ofKey]

/-- The representative of a class is a byte of the class. -/
theorem exists_representative (key : UInt8 → κ) (b : UInt8) :
    ∃ r, (ofKey key).representatives[(ofKey key).get b]? = some r ∧ key r = key b := by
  have bound : (ofKey key).get b < distinctCount (allBytes.map key) := by
    rw [distinctCount, Numbering.size, ← keys]
    exact (Array.getElem?_eq_some_iff.1 (keys_get_ofKey key b)).1
  have member : (ofKey key).get b ∈ firstAppearance (allBytes.map key) :=
    List.mem_of_getElem? (getElem?_classes key b)
  have first := List.idxOf_lt_length_of_mem member
  -- The representative is the byte at which the class turns up first.
  refine ⟨UInt8.ofNat ((firstAppearance (allBytes.map key)).idxOf ((ofKey key).get b)), ?_, ?_⟩
  · rw [representatives_ofKey, List.getElem?_map, List.getElem?_range bound, Option.map_some]
  · have small : (firstAppearance (allBytes.map key)).idxOf ((ofKey key).get b) < 256 := by
      rwa [firstAppearance, Numbering.length_numberAll, List.length_map, length_allBytes] at first
    have place := getElem?_classes key
      (UInt8.ofNat ((firstAppearance (allBytes.map key)).idxOf ((ofKey key).get b)))
    rw [UInt8.toNat_ofNat', Nat.mod_eq_of_lt small, List.getElem?_eq_getElem first,
      List.getElem_idxOf, Option.some.injEq] at place
    exact get_ofKey_eq_iff.1 place.symm

theorem get_lt_size (key : UInt8 → κ) (b : UInt8) : (ofKey key).get b < (ofKey key).size := by
  obtain ⟨r, found, _⟩ := exists_representative key b
  exact (List.getElem?_eq_some_iff.1 found).1

end ByteClasses

end ScannerGen
