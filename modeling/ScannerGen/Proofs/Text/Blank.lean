import Mathlib.Data.List.DropRight
import Mathlib.Tactic.SplitIfs
import ScannerGen.Text.Blank

/-!
# Trimmed texts

What is left of a text when the characters of a kind are taken from both of its ends.

* `trimChars_eq_iff` — there is one such text, and it is the middle of the original.
* `Tidy` — a text that shows something and has no white space at its ends.
* `tidy_trimmed` — trimming leaves such a text unless it leaves nothing.
-/

namespace ScannerGen

/-- The text stands in the middle of characters that are dropped, and does not begin or end with one. -/
structure Trims (drop : Char → Bool) (chars text : List Char) : Prop where
  middle : ∃ front back, chars = front ++ (text ++ back) ∧
    (∀ c ∈ front, drop c = true) ∧ ∀ c ∈ back, drop c = true
  first : ∀ c ∈ text.head?, drop c = false
  last : ∀ c ∈ text.getLast?, drop c = false

variable {drop : Char → Bool} {chars text : List Char}

theorem dropWhile_eq_self (first : ∀ c ∈ chars.head?, drop c = false) : chars.dropWhile drop = chars := by
  cases chars with
  | nil => rfl
  | cons c cs => exact List.dropWhile_cons_of_neg (by simp [first c rfl])

theorem trims_trimChars (drop : Char → Bool) (chars : List Char) :
    Trims drop chars (trimChars drop chars) := by
  have halves : trimChars drop chars = (chars.dropWhile drop).rdropWhile drop := rfl
  rw [halves]
  refine ⟨⟨chars.takeWhile drop, (chars.dropWhile drop).rtakeWhile drop, ?_, ?_, ?_⟩, ?_, ?_⟩
  · rw [List.rdropWhile_append_rtakeWhile, List.takeWhile_append_dropWhile]
  · exact fun c => List.mem_takeWhile_imp
  · exact fun c => List.mem_rtakeWhile_imp
  · -- The first character that is kept is the one at which the first half stops.
    intro c isFirst
    obtain ⟨rest, kept⟩ := List.head?_eq_some_iff.1 isFirst
    obtain ⟨back, whole⟩ := List.rdropWhile_prefix drop (chars.dropWhile drop)
    have stops := List.head?_dropWhile_not drop chars
    rw [← whole, kept] at stops
    simpa using stops
  · intro c isLast
    obtain ⟨nonempty, same⟩ := List.mem_getLast?_eq_getLast isLast
    rw [same]
    exact Bool.eq_false_iff.2 (List.rdropWhile_last_not drop _ nonempty)

theorem Trims.trimChars_eq (trims : Trims drop chars text) : trimChars drop chars = text := by
  obtain ⟨⟨front, back, rfl, inFront, inBack⟩, first, last⟩ := trims
  have stops : (text ++ back).dropWhile drop = if text = [] then [] else text ++ back := by
    split_ifs with empty
    · rw [empty, List.nil_append]
      exact List.dropWhile_eq_nil_iff.2 inBack
    · obtain ⟨c, rest, rfl⟩ := List.exists_cons_of_ne_nil empty
      exact dropWhile_eq_self first
  rw [trimChars, List.dropWhile_append_of_pos inFront, stops]
  split_ifs with empty
  · exact empty.symm
  · have inReverse : ∀ c ∈ back.reverse, drop c = true := fun c among =>
      inBack c (List.mem_reverse.1 among)
    rw [List.reverse_append, List.dropWhile_append_of_pos inReverse, dropWhile_eq_self, List.reverse_reverse]
    rwa [List.head?_reverse]

theorem trimChars_eq_iff : trimChars drop chars = text ↔ Trims drop chars text :=
  ⟨fun same => same ▸ trims_trimChars drop chars, Trims.trimChars_eq⟩

theorem dropStart?_eq_some_iff {beginning text rest : List Char} :
    dropStart? beginning text = some rest ↔ text = beginning ++ rest := by
  rw [dropStart?]
  constructor
  · intro dropped
    split_ifs at dropped with begun
    obtain ⟨others, rfl⟩ := List.isPrefixOf_iff_prefix.1 begun
    rw [List.drop_left] at dropped
    rw [Option.some.inj dropped]
  · rintro rfl
    rw [if_pos (List.isPrefixOf_iff_prefix.2 (List.prefix_append ..)), List.drop_left]

/-- A text that shows something, without white space at its ends. -/
structure Tidy (text : String) : Prop where
  shows : ∃ c ∈ text.toList, isWhiteSpace c = false
  first : ∀ c ∈ text.toList.head?, isWhiteSpace c = false
  last : ∀ c ∈ text.toList.getLast?, isWhiteSpace c = false

/-- A text that is not empty shows something if it does not even begin with white space. -/
theorem tidy_iff {text : String} (nonempty : text ≠ "") :
    Tidy text ↔ (∀ c ∈ text.toList.head?, isWhiteSpace c = false) ∧
      ∀ c ∈ text.toList.getLast?, isWhiteSpace c = false := by
  refine ⟨fun tidy => ⟨tidy.first, tidy.last⟩, fun ⟨first, last⟩ => ⟨?_, first, last⟩⟩
  obtain ⟨c, rest, chars⟩ := List.exists_cons_of_ne_nil (mt String.toList_eq_nil_iff.1 nonempty)
  rw [chars] at first ⊢
  exact ⟨c, List.mem_cons_self, first c rfl⟩

theorem tidy_trimmed {text : String} (nonempty : trimmed text ≠ "") : Tidy (trimmed text) := by
  have trims := trims_trimChars isWhiteSpace text.toList
  rw [tidy_iff nonempty, trimmed, String.toList_ofList]
  exact ⟨trims.first, trims.last⟩

end ScannerGen
