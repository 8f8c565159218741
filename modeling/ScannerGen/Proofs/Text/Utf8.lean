import Mathlib.Data.String.Basic
import ScannerGen.Text.Utf8

/-!
# Texts and their bytes

* A text whose UTF-8 bytes are all ASCII has one byte for each character, so it can be read back from
  its bytes (`decode?_of_narrow`, `asciiText_utf8`) and written again (`utf8_asciiText`).
* The order of texts is that of their bytes (`utf8_lt_utf8`), so different texts have different bytes
  (`utf8_injective`).
-/

namespace ScannerGen

/-! ## Single characters -/

theorem utf8EncodeChar_of_narrow {b : UInt8} (narrow : b < 0x80) :
    String.utf8EncodeChar (Char.ofNat b.toNat) = [b] := by
  have small : b.toNat < 128 := narrow
  have valid : b.toNat.isValidChar := .inl (by omega)
  have value : (Char.ofNat b.toNat).val.toNat = b.toNat := by
    rw [Char.ofNat, dif_pos valid]
    rfl
  rw [String.utf8EncodeChar, if_pos (by omega), value, UInt8.ofNat_toNat]

theorem wide_ofNat {n base : Nat} (least : 128 ≤ base) (most : n + base < 256) :
    ¬ UInt8.ofNat (n + base) < 0x80 := by
  intro narrow
  have small : (UInt8.ofNat (n + base)).toNat < 128 := narrow
  rw [UInt8.toNat_ofNat', Nat.mod_eq_of_lt most] at small
  omega

/-- Every byte of the code of a character that is not ASCII is wide, its first one too. -/
theorem narrow_of_utf8EncodeChar {c : Char} (narrow : ∀ b ∈ String.utf8EncodeChar c, b < 0x80) :
    ∃ b : UInt8, String.utf8EncodeChar c = [b] ∧ Char.ofNat b.toNat = c := by
  rw [String.utf8EncodeChar] at narrow ⊢
  split at narrow
  · next short =>
    refine ⟨UInt8.ofNat c.val.toNat, if_pos short, ?_⟩
    rw [UInt8.toNat_ofNat', Nat.mod_eq_of_lt (by omega)]
    exact Char.ofNat_toNat c
  · -- Codes of two, three and four bytes.
    split at narrow
    · exact absurd (narrow _ List.mem_cons_self) (wide_ofNat (by decide) (by omega))
    · split at narrow
      · exact absurd (narrow _ List.mem_cons_self) (wide_ofNat (by decide) (by omega))
      · exact absurd (narrow _ List.mem_cons_self) (wide_ofNat (by decide) (by omega))

/-! ## Texts -/

theorem utf8_append (s t : String) : utf8 (s ++ t) = utf8 s ++ utf8 t := by
  rw [utf8, String.toList_append, List.flatMap_append, utf8, utf8]

/-- The text of bytes that each stand for an ASCII character. -/
def asciiText (bytes : List UInt8) : String := String.ofList (bytes.map fun b => Char.ofNat b.toNat)

theorem decode?_of_narrow {bytes : List UInt8} (narrow : ∀ b ∈ bytes, b < 0x80) :
    decode? bytes = some (asciiText bytes) := by
  have read : (Utf8.pieces none bytes).mapM Utf8.Piece.char? =
      some (bytes.map fun b => Char.ofNat b.toNat) := by
    induction bytes with
    | nil => rfl
    | cons b bytes ih =>
      obtain ⟨first, others⟩ := List.forall_mem_cons.1 narrow
      rw [Utf8.pieces, if_pos first, List.mapM_cons, ih others]
      rfl
  rw [decode?, read, Option.map_some, asciiText]

theorem utf8_asciiText {bytes : List UInt8} (narrow : ∀ b ∈ bytes, b < 0x80) :
    utf8 (asciiText bytes) = bytes := by
  rw [utf8, asciiText, String.toList_ofList]
  induction bytes with
  | nil => rfl
  | cons b bytes ih =>
    obtain ⟨first, others⟩ := List.forall_mem_cons.1 narrow
    rw [List.map_cons, List.flatMap_cons, utf8EncodeChar_of_narrow first, ih others]
    rfl

theorem asciiText_utf8 {text : String} (narrow : ∀ b ∈ utf8 text, b < 0x80) :
    asciiText (utf8 text) = text := by
  have same : (utf8 text).map (fun b => Char.ofNat b.toNat) = text.toList := by
    rw [utf8] at narrow ⊢
    generalize text.toList = chars at narrow ⊢
    induction chars with
    | nil => rfl
    | cons c cs ih =>
      rw [List.flatMap_cons] at narrow
      obtain ⟨first, others⟩ := List.forall_mem_append.1 narrow
      obtain ⟨b, encoded, char⟩ := narrow_of_utf8EncodeChar first
      rw [List.flatMap_cons, encoded, List.map_append, ih others, List.map_singleton, char]
      rfl
  rw [asciiText, same, String.ofList_toList]

/-! ## Order -/

theorem ofNat_lt_ofNat {m n : Nat} (boundM : m < 256) (boundN : n < 256) :
    UInt8.ofNat m < UInt8.ofNat n ↔ m < n := by
  rw [UInt8.lt_iff_toNat_lt, UInt8.toNat_ofNat', UInt8.toNat_ofNat', Nat.mod_eq_of_lt boundM,
    Nat.mod_eq_of_lt boundN]

theorem ofNat_inj {m n : Nat} (boundM : m < 256) (boundN : n < 256) :
    UInt8.ofNat m = UInt8.ofNat n ↔ m = n := by
  rw [← UInt8.toNat_inj, UInt8.toNat_ofNat', UInt8.toNat_ofNat', Nat.mod_eq_of_lt boundM,
    Nat.mod_eq_of_lt boundN]

/-- The codes of two characters differ, and at the first difference as the characters do. -/
theorem utf8EncodeChar_append_lt {c d : Char} (less : c < d) (bytes bytes' : List UInt8) :
    String.utf8EncodeChar c ++ bytes < String.utf8EncodeChar d ++ bytes' := by
  have order : c.val.toNat < d.val.toNat := less
  have bound : d.val.toNat < 0x110000 := by
    rcases d.valid with low | high
    · exact Nat.lt_trans low (by decide)
    · exact high.2
  simp only [String.utf8EncodeChar]
  generalize c.val.toNat = v at *
  generalize d.val.toNat = w at *
  -- The digits to the base 64; the highest one is all that is above the others.
  have digits : ∀ n < 0x110000, n / 64 / 64 = n / 4096 ∧ n / 4096 / 64 = n / 262144 ∧
      n / 262144 % 8 = n / 262144 := fun n bound =>
    ⟨Nat.div_div_eq_div_mul n 64 64, Nat.div_div_eq_div_mul n 4096 64, Nat.mod_eq_of_lt (by omega)⟩
  obtain ⟨middleV, highV, topV⟩ := digits v (Nat.lt_trans order bound)
  obtain ⟨middleW, highW, topW⟩ := digits w bound
  rw [topV, topW]
  clear topV topW digits
  split_ifs <;>
    simp (disch := omega) only [List.cons_append, List.cons_lt_cons_iff, ofNat_lt_ofNat, ofNat_inj] <;>
    omega

/-- The order of texts, character by character, is the order of their bytes. -/
theorem utf8_lt_utf8 {s t : String} (less : s < t) : utf8 s < utf8 t := by
  have chars : List.Lex (· < ·) s.toList t.toList := String.lt_iff_toList_lt.1 less
  rw [utf8, utf8]
  generalize s.toList = cs, t.toList = ds at chars
  induction chars with
  | @nil c cs =>
    rw [List.flatMap_cons]
    cases code : String.utf8EncodeChar c with
    | nil => exact absurd code (String.utf8EncodeChar_ne_nil)
    | cons b bs => exact List.nil_lt_cons _ _
  | cons _ ih =>
    rw [List.flatMap_cons, List.flatMap_cons]
    exact List.append_left_lt ih
  | rel less =>
    rw [List.flatMap_cons, List.flatMap_cons]
    exact utf8EncodeChar_append_lt less _ _

/-- Different texts have different bytes. -/
theorem utf8_injective : Function.Injective utf8 := by
  intro s t same
  rcases lt_trichotomy s t with less | equal | greater
  · exact absurd (utf8_lt_utf8 less) (same ▸ List.lt_irrefl _)
  · exact equal
  · exact absurd (utf8_lt_utf8 greater) (same ▸ List.lt_irrefl _)

end ScannerGen
