import ScannerGen.Text.Ascii

/-!
# Identifiers of C

What C takes for a name, said of its characters, and `isCIdentifier_iff` — the check accepts no other.
-/

namespace ScannerGen

def IsLetter (c : Char) : Prop := 'a' ≤ c ∧ c ≤ 'z' ∨ 'A' ≤ c ∧ c ≤ 'Z' ∨ c = '_'

/-- A letter or an underscore, and then letters, underscores and digits. -/
def IsCIdentifier (name : String) : Prop :=
  ∃ c cs, name.toList = c :: cs ∧ IsLetter c ∧ ∀ d ∈ cs, IsLetter d ∨ '0' ≤ d ∧ d ≤ '9'

theorem isCIdentifier_iff {name : String} : IsCIdentifier name ↔ Ascii.isIdentifier name = true := by
  have letter : ∀ c, IsLetter c ↔ (Ascii.isAlphaChar c || c == '_') = true := by
    intro c
    simp [IsLetter, Ascii.isAlphaChar, or_assoc]
  have digit : ∀ c, ('0' ≤ c ∧ c ≤ '9') ↔ Ascii.isDigitChar c = true := by
    intro c
    simp [Ascii.isDigitChar]
  rw [IsCIdentifier, Ascii.isIdentifier]
  cases name.toList with
  | nil => simp
  | cons c cs =>
    simp only [letter, digit, List.cons.injEq, Bool.and_eq_true, List.all_eq_true]
    constructor
    · rintro ⟨_, _, ⟨rfl, rfl⟩, first, others⟩
      exact ⟨first, fun d member => by grind [others d member]⟩
    · rintro ⟨first, others⟩
      exact ⟨c, cs, ⟨rfl, rfl⟩, first, fun d member => by grind [others d member]⟩

end ScannerGen
