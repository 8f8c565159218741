import Std.Data.HashMap

/-!
# Numbering values by first appearance

A numbering gives every value it has met a number, counted from zero in the order in which
new values turned up.  Equal values get equal numbers and different values different ones,
because the index and the list of values are kept in step by a field of the type.

* `Numbering.number` looks a value up, or gives it the next number.
* `Numbering.numberAll` does so for a list of values.
* `firstAppearance` is the numbers of a list, numbered on its own.
-/

namespace ScannerGen

/-- Numbers and lists of numbers are values that can be numbered: a class is one, and a set of
states is one. -/
instance lawfulBEqListNat : LawfulBEq (List Nat) := inferInstance

instance lawfulHashableListNat : LawfulHashable (List Nat) := inferInstance

instance lawfulHashableNat : LawfulHashable Nat := inferInstance

variable {α : Type} [BEq α] [Hashable α] [LawfulBEq α] [LawfulHashable α]

/-- Values in the order of their numbers, with an index from the value to its number. -/
structure Numbering (α : Type) [BEq α] [Hashable α] where
  values : Array α
  index : Std.HashMap α Nat
  agree : ∀ (x : α) (i : Nat), index[x]? = some i ↔ values[i]? = some x

namespace Numbering

def empty : Numbering α := ⟨#[], ∅, by simp⟩

def size (numbering : Numbering α) : Nat := numbering.values.size

def push (numbering : Numbering α) (x : α) (fresh : numbering.index[x]? = none) : Numbering α where
  values := numbering.values.push x
  index := numbering.index.insert x numbering.values.size
  agree y i := by
    rw [Std.HashMap.getElem?_insert, Array.getElem?_push]
    by_cases same : x == y
    · rw [if_pos same]
      have := eq_of_beq same
      subst this
      by_cases atEnd : i = numbering.values.size
      · simp [atEnd]
      · simp only [if_neg atEnd, ← numbering.agree x i, fresh, Option.some.injEq, reduceCtorEq,
          iff_false]
        omega
    · rw [if_neg same, numbering.agree y i]
      by_cases atEnd : i = numbering.values.size
      · simp only [if_pos atEnd, Option.some.injEq]
        subst atEnd
        simp at same
        simp [same]
      · rw [if_neg atEnd]

/-- The number of a value, and the numbering that knows it. -/
def number (numbering : Numbering α) (x : α) : Nat × Numbering α :=
  match known : numbering.index[x]? with
  | some i => (i, numbering)
  | none => (numbering.size, numbering.push x known)

/-- The numbers of a list of values. -/
def numberAll (numbering : Numbering α) : List α → List Nat × Numbering α
  | [] => ([], numbering)
  | x :: xs =>
    let (i, numbering) := numbering.number x
    let (is, numbering) := numbering.numberAll xs
    (i :: is, numbering)

theorem length_numberAll (numbering : Numbering α) (xs : List α) :
    (numbering.numberAll xs).1.length = xs.length := by
  induction xs generalizing numbering with
  | nil => rfl
  | cons x xs ih => simp [numberAll, ih]

end Numbering

def firstAppearance (xs : List α) : List Nat := (Numbering.empty.numberAll xs).1

def distinctCount (xs : List α) : Nat := (Numbering.empty.numberAll xs).2.size

end ScannerGen
