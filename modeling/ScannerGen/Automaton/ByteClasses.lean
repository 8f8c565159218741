import ScannerGen.ByteSet
import ScannerGen.Numbering

/-!
# Bytes that nothing tells apart

Where the behaviour of a machine depends on a byte only through some key, bytes with the same
key form one class.  Classes are numbered in the order of their first bytes, and each is
represented by its first byte.
-/

namespace ScannerGen

/-- A partition of the bytes. -/
structure ByteClasses where
  /-- The class of each byte. -/
  classOf : Vector Nat 256
  /-- The first byte of each class, in the order of the classes. -/
  representatives : List UInt8

theorem length_allBytes : allBytes.length = 256 := by simp [allBytes]

namespace ByteClasses

variable {κ : Type} [BEq κ] [Hashable κ] [LawfulBEq κ] [LawfulHashable κ]

def get (classes : ByteClasses) (b : UInt8) : Nat := classes.classOf.get b.toFin

def size (classes : ByteClasses) : Nat := classes.representatives.length

/-- The classes of bytes with equal keys. -/
def ofKey (key : UInt8 → κ) : ByteClasses :=
  let keys := allBytes.map key
  let numbers := firstAppearance keys
  { classOf := ⟨numbers.toArray, by
      simp [numbers, keys, firstAppearance, Numbering.length_numberAll, length_allBytes]⟩
    representatives :=
      (List.range (distinctCount keys)).map fun c => UInt8.ofNat (numbers.idxOf c) }

end ByteClasses

end ScannerGen
