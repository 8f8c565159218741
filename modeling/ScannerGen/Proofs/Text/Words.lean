import Std.Data.String.ToNat
import ScannerGen.Proofs.Text.Decimal

/-!
# Words in front of other text

Where a word is followed by something that cannot be part of it, the text says where the word ends.  So
texts that are made of words and of marks between them can be told apart word by word.

* `word_append_inj` — words of any kind of characters.
* `ends_append` — what ends a word.
* `numeral_append_inj` — decimal numerals.
-/

namespace ScannerGen

theorem word_append_inj {α : Type} {p : α → Bool} {word word' rest rest' : List α}
    (inside : ∀ c ∈ word, p c = true) (inside' : ∀ c ∈ word', p c = true)
    (ends : ∀ c ∈ rest.head?, p c = false) (ends' : ∀ c ∈ rest'.head?, p c = false)
    (same : word ++ rest = word' ++ rest') : word = word' ∧ rest = rest' := by
  -- What follows a word begins with none of its characters, so the word is taken as a whole.
  have stops : ∀ text : List α, (∀ c ∈ text.head?, p c = false) → text.takeWhile p = [] := by
    intro text ends
    cases text with
    | nil => rfl
    | cons c text => simp [ends c rfl]
  have taken := congrArg (List.takeWhile p) same
  rw [List.takeWhile_append_of_pos inside, List.takeWhile_append_of_pos inside', stops rest ends,
    stops rest' ends', List.append_nil, List.append_nil] at taken
  subst taken
  exact ⟨rfl, List.append_cancel_left same⟩

/-- Where a mark stands, whatever follows it, a word has ended. -/
theorem ends_append {α : Type} {p : α → Bool} {mark : List α}
    (stops : (mark.head?.any fun c => !p c) = true) (rest : List α) :
    ∀ c ∈ (mark ++ rest).head?, p c = false := by
  cases mark with
  | nil => cases stops
  | cons d mark =>
    intro c first
    obtain rfl : d = c := by simpa using first
    simpa using stops

theorem numeral_append_inj {n n' : Nat} {rest rest' : List Char}
    (ends : ∀ c ∈ rest.head?, Ascii.isDigitChar c = false)
    (ends' : ∀ c ∈ rest'.head?, Ascii.isDigitChar c = false)
    (same : (toString n).toList ++ rest = (toString n').toList ++ rest') : n = n' ∧ rest = rest' := by
  obtain ⟨digits, others⟩ := word_append_inj (List.all_eq_true.1 (isDigitChar_toString n))
    (List.all_eq_true.1 (isDigitChar_toString n')) ends ends' same
  exact ⟨Nat.repr_injective (String.toList_inj.1 digits), others⟩

end ScannerGen
