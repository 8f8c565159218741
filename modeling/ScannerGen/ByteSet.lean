import ScannerGen.Text.Ascii

/-!
# Sets of bytes

A set of input bytes is a word of 256 bits, one bit per byte value, so two sets with the
same members are equal.  Every operation is determined by its members: each has a lemma
that says which bytes the result contains.

* `ByteSet.elements` and `ByteSet.ranges` list a set in ascending order.
* `ByteSet.text` shows a set the way a character class is written.
-/

namespace ScannerGen

/-- A set of bytes, bit `b` telling whether byte `b` is a member. -/
structure ByteSet where
  bits : BitVec 256
  deriving DecidableEq, Hashable

/-- Every byte, in ascending order. -/
def allBytes : List UInt8 := (List.range 256).map UInt8.ofNat

namespace ByteSet

def contains (s : ByteSet) (b : UInt8) : Bool := s.bits.getLsbD b.toNat

def empty : ByteSet := ⟨0⟩

def full : ByteSet := ⟨BitVec.allOnes 256⟩

def single (b : UInt8) : ByteSet := ⟨BitVec.twoPow 256 b.toNat⟩

/-- The bytes from `lo` up to `hi`, both included; nothing when `hi` comes first. -/
def range (lo hi : UInt8) : ByteSet :=
  ⟨(BitVec.allOnes 256 <<< lo.toNat) &&& ~~~(BitVec.allOnes 256 <<< (hi.toNat + 1))⟩

def union (s t : ByteSet) : ByteSet := ⟨s.bits ||| t.bits⟩

def compl (s : ByteSet) : ByteSet := ⟨~~~s.bits⟩

def insert (s : ByteSet) (b : UInt8) : ByteSet := s.union (single b)

def erase (s : ByteSet) (b : UInt8) : ByteSet := ⟨s.bits &&& ~~~(single b).bits⟩

/-- Every byte except the newline. -/
def dot : ByteSet := full.erase Ascii.newline

def isEmpty (s : ByteSet) : Bool := s.bits == 0

def elements (s : ByteSet) : List UInt8 := allBytes.filter s.contains

def size (s : ByteSet) : Nat := s.elements.length

/-! ## Membership -/

theorem toNat_lt (b : UInt8) : b.toNat < 256 := UInt8.toNat_lt b

@[simp] theorem contains_empty (b : UInt8) : empty.contains b = false := by
  simp [contains, empty]

@[simp] theorem contains_full (b : UInt8) : full.contains b = true := by
  simp only [contains, full, BitVec.getLsbD_allOnes, toNat_lt, decide_true]

@[simp] theorem contains_single (b c : UInt8) : (single b).contains c = (b == c) := by
  rw [Bool.eq_iff_iff]
  simp only [contains, single, BitVec.getLsbD_twoPow, toNat_lt, decide_true, Bool.true_and,
    UInt8.toNat_inj, decide_eq_true_eq, beq_iff_eq]

@[simp] theorem contains_union (s t : ByteSet) (b : UInt8) :
    (s.union t).contains b = (s.contains b || t.contains b) := by
  simp [contains, union]

@[simp] theorem contains_compl (s : ByteSet) (b : UInt8) :
    s.compl.contains b = !s.contains b := by
  simp [contains, compl, toNat_lt]

@[simp] theorem contains_insert (s : ByteSet) (b c : UInt8) :
    (s.insert b).contains c = (s.contains c || b == c) := by
  simp [insert]

@[simp] theorem contains_erase (s : ByteSet) (b c : UInt8) :
    (s.erase b).contains c = (s.contains c && !(b == c)) := by
  rw [← contains_single b c]
  simp only [contains, erase, BitVec.getLsbD_and, BitVec.getLsbD_not, toNat_lt, decide_true,
    Bool.true_and]

@[simp] theorem contains_range (lo hi b : UInt8) :
    (range lo hi).contains b = (decide (lo ≤ b) && decide (b ≤ hi)) := by
  have := toNat_lt b
  simp only [contains, range, BitVec.getLsbD_and, BitVec.getLsbD_shiftLeft, BitVec.getLsbD_not,
    BitVec.getLsbD_allOnes, UInt8.le_iff_toNat_le]
  grind

/-- Sets with the same members are equal. -/
theorem ext {s t : ByteSet} (same : ∀ b, s.contains b = t.contains b) : s = t := by
  obtain ⟨x⟩ := s
  obtain ⟨y⟩ := t
  congr
  apply BitVec.eq_of_getLsbD_eq
  intro i bound
  have h := same (UInt8.ofNat i)
  simpa [contains, Nat.mod_eq_of_lt bound] using h

theorem mem_allBytes (b : UInt8) : b ∈ allBytes := by
  refine List.mem_map.2 ⟨b.toNat, List.mem_range.2 (toNat_lt b), ?_⟩
  simp

@[simp] theorem mem_elements {s : ByteSet} {b : UInt8} : b ∈ s.elements ↔ s.contains b = true := by
  simp [elements, mem_allBytes]

/-! ## Ranges and text -/

/-- Puts a byte in front of a list of ranges, into the first range if it continues it. -/
def consRange (b : UInt8) : List (UInt8 × UInt8) → List (UInt8 × UInt8)
  | (lo, hi) :: rest =>
    if lo.toNat = b.toNat + 1 then (b, hi) :: rest else (b, b) :: (lo, hi) :: rest
  | [] => [(b, b)]

/-- The members as maximal runs of neighbours, in ascending order. -/
def ranges (s : ByteSet) : List (UInt8 × UInt8) := s.elements.foldr consRange []

/-- One run inside a class. -/
def rangeText : UInt8 × UInt8 → String
  | (lo, hi) => if lo = hi then Ascii.escaped lo else s!"{Ascii.escaped lo}-{Ascii.escaped hi}"

/-- A set in brackets, run by run. -/
def text (s : ByteSet) : String := s!"[{String.join (s.ranges.map rangeText)}]"

end ByteSet

end ScannerGen
