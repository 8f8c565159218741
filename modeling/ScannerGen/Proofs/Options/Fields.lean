import Mathlib.Tactic.SplitIfs
import ScannerGen.Options
import ScannerGen.Proofs.Text.Identifier

/-!
# Extra fields

A field that the user carries in the state of the scanner becomes a variable or a macro of C, so its
name must be an identifier that C and the scanner leave free, and it must have a type.

* `ExtraField.Allowed` — what is demanded of a field.
* `ExtraField.checked_eq_ok_iff` — the fields that pass the checks are those that are allowed.
-/

namespace ScannerGen

namespace ExtraField

/-- A field with a name that is free for use and with a type. -/
structure Allowed (field : ExtraField) : Prop where
  identifier : IsCIdentifier field.name
  notKeyword : field.name ∉ cKeywords
  notReserved : field.name ∉ reservedNames
  notBegun : ∀ beginning ∈ ["yy", "YY", "TOK_"], ¬ beginning.toList <+: field.name.toList
  typed : field.type ≠ ""

theorem isReserved_iff {name : String} :
    isReserved name = true ↔
      name ∈ reservedNames ∨ ∃ beginning ∈ ["yy", "YY", "TOK_"], beginning.toList <+: name.toList := by
  simp only [isReserved, reservedBeginnings, Bool.or_eq_true, List.contains_iff_mem, List.any_eq_true,
    List.isPrefixOf_iff_prefix]

theorem checked_eq_ok_iff {name type : String} {origin : Origin} {field : ExtraField} :
    checked name type origin = .ok field ↔ field = ⟨name, type⟩ ∧ field.Allowed := by
  simp only [checked]
  constructor
  · intro passed
    split_ifs at passed with bad keyword reserved empty
    cases passed
    rw [isReserved_iff, not_or] at reserved
    refine ⟨rfl, isCIdentifier_iff.2 ?_, ?_, reserved.1, ?_, ?_⟩
    · simpa using bad
    · simpa using keyword
    · exact fun beginning among begun => reserved.2 ⟨beginning, among, begun⟩
    · simpa using empty
  · rintro ⟨rfl, allowed⟩
    have identifier := isCIdentifier_iff.1 allowed.identifier
    have free : ¬ isReserved name = true := by
      rw [isReserved_iff, not_or]
      exact ⟨allowed.notReserved, fun ⟨beginning, among, begun⟩ =>
        allowed.notBegun beginning among begun⟩
    rw [if_neg (by simp [identifier]), if_neg (by simpa using allowed.notKeyword), if_neg free,
      if_neg (by simpa using allowed.typed)]

theorem allowed_of_ofSpec {spec : String} {origin : Origin} {field : ExtraField}
    (passed : ofSpec spec origin = .ok field) : field.Allowed := by
  simp only [ofSpec] at passed
  split at passed
  · cases passed
  · exact (checked_eq_ok_iff.1 passed).2

end ExtraField

end ScannerGen
