import Mathlib.Data.Fintype.Card
import ScannerGen.Proofs.Automaton.Order
import ScannerGen.Proofs.Tables.Dump

/-!
# Compressed columns

The tables of an automaton have a column for each class of bytes in place of one for each byte.  Nothing
is lost by that, and no fewer columns would do.

* `ByteClasses.lt_size_iff`, `ByteClasses.exists_lower` — the classes that are used, and the order in
  which bytes come to them.
* `Tables.FirstByte` — the first byte of a class.
* `Tables.byteClass_ofDfa_eq_iff` — when bytes share a class.
* `Tables.classCount_le` — other classes that say the same are at least as many.
* `Tables.compression_exact` — all of this together.
-/

namespace ScannerGen

/-! ## Classes and their first bytes -/

namespace ByteClasses

variable {κ : Type} [BEq κ] [Hashable κ] [LawfulBEq κ] [LawfulHashable κ] (key : UInt8 → κ)

/-- Every class is that of its representative, and the bytes below that one are in lower classes. -/
theorem exists_lowest {c : Nat} (inside : c < (ofKey key).size) :
    ∃ r, (ofKey key).get r = c ∧ ∀ b < r, (ofKey key).get b < c :=
  ⟨_, representative_spec key (List.getElem?_eq_getElem inside)⟩

/-- The classes of bytes are the numbers below the size. -/
theorem lt_size_iff {c : Nat} : c < (ofKey key).size ↔ ∃ b, (ofKey key).get b = c := by
  constructor
  · intro inside
    obtain ⟨r, class_eq, _⟩ := exists_lowest key inside
    exact ⟨r, class_eq⟩
  · rintro ⟨b, rfl⟩
    exact get_lt_size key b

/-- Before a byte is given its class, every lower class has been given to a byte. -/
theorem exists_lower {c : Nat} {b : UInt8} (lower : c < (ofKey key).get b) :
    ∃ a < b, (ofKey key).get a = c := by
  obtain ⟨r, rfl, below⟩ := exists_lowest key (Nat.lt_trans lower (get_lt_size key b))
  refine ⟨r, ?_, rfl⟩
  -- Otherwise the byte is the representative itself, or it is below it and so in a lower class.
  by_contra notBelow
  rcases UInt8.lt_or_eq_of_le (UInt8.not_lt.1 notBelow) with less | same
  · have := below b less
    omega
  · rw [same] at lower
    omega

end ByteClasses

namespace Tables

/-- A byte is the first one of its class. -/
structure FirstByte (t : Tables) (c : Nat) (b : UInt8) : Prop where
  class_eq : t.byteClass b = c
  least : ∀ a, t.byteClass a = c → b ≤ a

variable (dfa : Dfa) (endsLines : Array Bool)

/-! ## What the columns say -/

theorem byteClass_ofDfa (b : UInt8) : (ofDfa dfa endsLines).byteClass b = dfa.columnClasses.get b := rfl

/-- Bytes share a class exactly if they do the same in every state. -/
theorem byteClass_ofDfa_eq_iff {b c : UInt8} :
    (ofDfa dfa endsLines).byteClass b = (ofDfa dfa endsLines).byteClass c ↔
      ∀ s < dfa.size, dfa.next s b = dfa.next s c := by
  rw [byteClass_ofDfa, byteClass_ofDfa, Dfa.columnClasses, ByteClasses.get_ofKey_eq_iff]
  constructor
  · intro same s inside
    have entry := congrArg (·[s]?) same
    simpa [Dfa.column, Dfa.next, Dfa.size, List.getElem?_map, Array.getElem?_eq_getElem inside] using entry
  · intro same
    apply List.map_congr_left
    intro state member
    obtain ⟨s, inside, rfl⟩ := List.mem_iff_getElem.1 member
    have entry := same s inside
    rwa [Dfa.next_of_lt inside, Dfa.next_of_lt inside] at entry

/-! ## The numbers of classes -/

theorem lt_classCount_iff {c : Nat} :
    c < (ofDfa dfa endsLines).classCount ↔ ∃ b, (ofDfa dfa endsLines).byteClass b = c := by
  rw [classCount_ofDfa]
  exact ByteClasses.lt_size_iff dfa.column

theorem classCount_ofDfa_le : (ofDfa dfa endsLines).classCount ≤ 256 := by
  rw [classCount_ofDfa]
  exact size_le_256 dfa.column

/-- Classes are in the order of their first bytes. -/
theorem firstByte_lt_iff {c d : Nat} {a b : UInt8} (first : (ofDfa dfa endsLines).FirstByte c a)
    (second : (ofDfa dfa endsLines).FirstByte d b) : c < d ↔ a < b := by
  -- A lower class has turned up before, and so has its first byte.
  have forth : ∀ {c d : Nat} {a b : UInt8}, (ofDfa dfa endsLines).FirstByte c a →
      (ofDfa dfa endsLines).FirstByte d b → c < d → a < b := by
    intro c d a b first second less
    obtain ⟨lower, below, class_eq⟩ := ByteClasses.exists_lower dfa.column (second.class_eq ▸ less)
    exact UInt8.lt_of_le_of_lt (first.least lower class_eq) below
  refine ⟨forth first second, fun less => ?_⟩
  by_contra notLess
  rcases Nat.lt_or_eq_of_le (Nat.le_of_not_lt notLess) with greater | rfl
  · exact UInt8.lt_asymm less (forth second first greater)
  · exact UInt8.not_lt.2 (second.least a first.class_eq) less

/-- However bytes are put into classes, there are as many of them at least if a class determines the
successors. -/
theorem classCount_le {count : Nat} (classOf : UInt8 → Fin count) (rows : Nat → Fin count → Nat)
    (exact : ∀ s < dfa.size, ∀ b, rows s (classOf b) = dfa.next s b) :
    (ofDfa dfa endsLines).classCount ≤ count := by
  have used : ∀ c : Fin (ofDfa dfa endsLines).classCount, ∃ b, (ofDfa dfa endsLines).byteClass b = c :=
    fun c => (lt_classCount_iff dfa endsLines).1 c.isLt
  choose byte class_eq using used
  -- Bytes of different classes differ in some state, so they cannot share one of the other classes.
  have injective : Function.Injective fun c => classOf (byte c) := by
    intro c d same
    have alike : ∀ s < dfa.size, dfa.next s (byte c) = dfa.next s (byte d) := by
      intro s inside
      rw [← exact s inside, ← exact s inside]
      exact congrArg (rows s) same
    apply Fin.ext
    rw [← class_eq c, ← class_eq d]
    exact (byteClass_ofDfa_eq_iff dfa endsLines).2 alike
  simpa using Fintype.card_le_of_injective _ injective

/-- Compressing the columns of an automaton is exact, and no other classes of bytes are fewer.  The entry of
a state for the class of a byte is the successor of the state.  Bytes share a class exactly if they have the
same successors in every state.  The classes of bytes are the numbers from zero to the number of classes, of
which there are 256 at most, in the order of their first bytes, and every row has an entry for each. -/
theorem compression_exact (dfa : Dfa) (endsLines : Array Bool) :
    let t := ofDfa dfa endsLines
    (∀ s < dfa.size, ∀ b, t.step? s b = some (dfa.next s b)) ∧
    (∀ b c, t.byteClass b = t.byteClass c ↔ ∀ s < dfa.size, dfa.next s b = dfa.next s c) ∧
    (∀ c, c < t.classCount ↔ ∃ b, t.byteClass b = c) ∧
    t.classCount ≤ 256 ∧
    (∀ c d a b, t.FirstByte c a → t.FirstByte d b → (c < d ↔ a < b)) ∧
    t.stateCount = dfa.size ∧ (∀ row ∈ t.next, row.size = t.classCount) ∧
    ∀ (count : Nat) (classOf : UInt8 → Fin count) (rows : Nat → Fin count → Nat),
      (∀ s < dfa.size, ∀ b, rows s (classOf b) = dfa.next s b) → t.classCount ≤ count :=
  ⟨fun _ inside b => step?_ofDfa inside b,
    fun _ _ => byteClass_ofDfa_eq_iff dfa endsLines,
    fun _ => lt_classCount_iff dfa endsLines,
    classCount_ofDfa_le dfa endsLines,
    fun _ _ _ _ first second => firstByte_lt_iff dfa endsLines first second,
    stateCount_ofDfa dfa endsLines,
    fun _ member => size_of_mem_next member,
    fun _ classOf rows exact => classCount_le dfa endsLines classOf rows exact⟩

end Tables

end ScannerGen
