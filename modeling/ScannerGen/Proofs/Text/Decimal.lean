import ScannerGen.Text.Utf8

/-!
# Decimal numerals

The text of a natural number is its decimal digits, highest first and without a leading zero
(`exists_head_toString`), and so is never an identifier (`isIdentifier_toString`).  Reading the digits as a numeral gives the number back, character by
character (`foldl_toString`) and byte by byte (`numeral_utf8_toString`).
-/

namespace ScannerGen

/-! ## Characters -/

/-- The last digit comes off the end. -/
theorem toList_toString (n : Nat) :
    (toString n).toList =
      if n < 10 then [Nat.digitChar n] else (toString (n / 10)).toList ++ [Nat.digitChar (n % 10)] := by
  show n.repr.toList = if n < 10 then _ else (n / 10).repr.toList ++ _
  rw [Nat.toList_repr, Nat.toList_repr]
  exact Nat.toDigits_eq_if (by decide)

theorem toList_toString_ne_nil (n : Nat) : (toString n).toList ≠ [] := by
  rw [toList_toString]
  split
  · exact List.cons_ne_nil _ _
  · exact List.append_ne_nil_of_right_ne_nil _ (List.cons_ne_nil _ _)

/-- Induction over the texts of numbers: one digit, or one more digit at the end. -/
theorem toString_induction {motive : Nat → List Char → Prop}
    (digit : ∀ d < 10, motive d [Nat.digitChar d])
    (snoc : ∀ n d cs, 0 < n → d < 10 → motive n cs → motive (n * 10 + d) (cs ++ [Nat.digitChar d]))
    (n : Nat) : motive n (toString n).toList := by
  induction n using Nat.strongRecOn with
  | ind n ih =>
    rw [toList_toString]
    split
    · next small => exact digit n small
    · next large =>
      have parts : n / 10 * 10 + n % 10 = n := by omega
      have extended := snoc (n / 10) (n % 10) _ (by omega) (by omega) (ih (n / 10) (by omega))
      rwa [parts] at extended

theorem isDigitChar_toString (n : Nat) : (toString n).toList.all Ascii.isDigitChar = true := by
  have each : ∀ d < 10, Ascii.isDigitChar (Nat.digitChar d) = true := by decide
  refine @toString_induction (fun _ cs => cs.all Ascii.isDigitChar = true) ?_ ?_ n
  · intro d small
    simp [each d small]
  · intro n d cs _ small all
    simp [List.all_append, all, each d small]

theorem foldl_toString (n : Nat) :
    (toString n).toList.foldl (fun value c => value * 10 + (c.toNat - 48)) 0 = n := by
  have value : ∀ d < 10, (Nat.digitChar d).toNat - 48 = d := by decide
  refine @toString_induction
    (fun n cs => cs.foldl (fun value c => value * 10 + (c.toNat - 48)) 0 = n) ?_ ?_ n
  · intro d small
    simp [value d small]
  · intro n d cs _ small read
    rw [List.foldl_append, read, List.foldl_cons, List.foldl_nil, value d small]

theorem isIdentifier_toString (n : Nat) : Ascii.isIdentifier (toString n) = false := by
  obtain ⟨c, cs, chars⟩ := List.exists_cons_of_ne_nil (toList_toString_ne_nil n)
  have digit := List.all_eq_true.1 (isDigitChar_toString n) c (chars ▸ List.mem_cons_self)
  have noUnderscore : (c == '_') = false := by
    rw [beq_eq_false_iff_ne]
    rintro rfl
    cases digit
  have noLetter : Ascii.isAlphaChar c = false := by
    simp only [Ascii.isDigitChar, Ascii.isAlphaChar, Bool.and_eq_true, decide_eq_true_eq,
      Bool.or_eq_false_iff, Bool.and_eq_false_iff, decide_eq_false_iff_not, Char.le_def,
      UInt32.le_iff_toNat_le, Char.toNat_val, Char.reduceToNat] at digit ⊢
    omega
  simp only [Ascii.isIdentifier, chars, noLetter, noUnderscore, Bool.or_self, Bool.false_and]

/-! ## Bytes -/

/-- The byte of a digit. -/
def digitByte (d : Nat) : UInt8 := UInt8.ofNat (48 + d)

theorem utf8EncodeChar_digitChar : ∀ d < 10, String.utf8EncodeChar (Nat.digitChar d) = [digitByte d] := by
  decide

/-- The same induction over the bytes of the texts. -/
theorem utf8_toString_induction {motive : Nat → List UInt8 → Prop}
    (digit : ∀ d < 10, motive d [digitByte d])
    (snoc : ∀ n d bs, 0 < n → d < 10 → motive n bs → motive (n * 10 + d) (bs ++ [digitByte d]))
    (n : Nat) : motive n (utf8 (toString n)) := by
  refine @toString_induction (fun n cs => motive n (cs.flatMap String.utf8EncodeChar)) ?_ ?_ n
  · intro d small
    rw [List.flatMap_singleton, utf8EncodeChar_digitChar d small]
    exact digit d small
  · intro n d cs positive small holds
    rw [List.flatMap_append, List.flatMap_singleton, utf8EncodeChar_digitChar d small]
    exact snoc n d _ positive small holds

theorem isDigit_of_mem_utf8_toString {n : Nat} : ∀ b ∈ utf8 (toString n), Ascii.isDigit b = true := by
  have each : ∀ d < 10, Ascii.isDigit (digitByte d) = true := by decide
  refine @utf8_toString_induction (fun _ bs => ∀ b ∈ bs, Ascii.isDigit b = true) ?_ ?_ n
  · intro d small
    exact List.forall_mem_singleton.2 (each d small)
  · intro n d bs _ small all
    exact List.forall_mem_append.2 ⟨all, List.forall_mem_singleton.2 (each d small)⟩

theorem numeral_utf8_toString (n : Nat) : Ascii.numeral 10 (utf8 (toString n)) = n := by
  have value : ∀ d < 10, Ascii.digitValue (digitByte d) = d := by decide
  refine @utf8_toString_induction (fun n bs => Ascii.numeral 10 bs = n) ?_ ?_ n
  · intro d small
    simp [Ascii.numeral, value d small]
  · intro n d bs _ small read
    rw [Ascii.numeral] at read ⊢
    rw [List.foldl_append, read, List.foldl_cons, List.foldl_nil, value d small]

/-- Only zero begins with the digit zero. -/
theorem exists_head_toString (n : Nat) :
    ∃ b rest, utf8 (toString n) = b :: rest ∧ (b = Ascii.zero → n = 0 ∧ rest = []) := by
  have only : ∀ d < 10, digitByte d = Ascii.zero → d = 0 := by decide
  refine @utf8_toString_induction
    (fun n bs => ∃ b rest, bs = b :: rest ∧ (b = Ascii.zero → n = 0 ∧ rest = [])) ?_ ?_ n
  · intro d small
    exact ⟨_, [], rfl, fun zero => ⟨only d small zero, rfl⟩⟩
  · rintro n d _ positive _ ⟨b, rest, rfl, first⟩
    exact ⟨b, _, rfl, fun zero => absurd (first zero).1 (Nat.ne_of_gt positive)⟩

end ScannerGen
