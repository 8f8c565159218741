import ScannerGen.Proofs.Options.History
import ScannerGen.Proofs.Options.Invariant
import ScannerGen.Proofs.Text.Blank

/-!
# The types of extra fields

A field is declared by its name and type or by a flag `extra-type=T`.  The first loses the white space
round its type before the type is looked at.  The second loses the white space round the flag and then
the quotes round the type, and keeps the white space inside of the quotes.

* `extraTypeFlag?_eq_some_iff` — the type that a flag gives.
* `Options.exists_call_of_mem_extra` — every field that there is was declared by some call.
* `Options.fieldTypes_tidy_iff` — its type is tidy unless a flag gave it with white space at an end.
-/

namespace ScannerGen

/-! ## The two ways to a field -/

theorem ExtraField.tidy_of_ofSpec {spec : String} {origin : Origin} {field : ExtraField}
    (passed : ofSpec spec origin = .ok field) : Tidy field.type := by
  have typed := (allowed_of_ofSpec passed).typed
  simp only [ofSpec] at passed
  split at passed
  · cases passed
  · obtain ⟨rfl, _⟩ := checked_eq_ok_iff.1 passed
    exact tidy_trimmed typed

/-- Inside of white space stand the name of the flag and, in quotes or not, the type. -/
def FlagGives (flag : String) (type : List Char) : Prop :=
  ∃ quoted, Trims isWhiteSpace flag.toList ("extra-type=".toList ++ quoted) ∧
    Trims (· == '\x22') quoted type

theorem extraTypeFlag?_eq_some_iff {flag type : String} :
    extraTypeFlag? flag = some type ↔ FlagGives flag type.toList := by
  simp only [extraTypeFlag?, Option.map_eq_some_iff, dropStart?_eq_some_iff, trimmed, unquoted,
    String.toList_ofList, FlagGives, ← trimChars_eq_iff]
  refine exists_congr fun quoted => and_congr_right fun _ => ?_
  rw [← String.toList_inj, String.toList_ofList]

/-- A flag whose type begins or ends with white space when the quotes are gone. -/
def PadsType (flag : String) : Prop :=
  ∃ type, FlagGives flag type ∧
    ((∃ c ∈ type.head?, isWhiteSpace c = true) ∨ ∃ c ∈ type.getLast?, isWhiteSpace c = true)

theorem padsType_iff {flag type : String} (given : extraTypeFlag? flag = some type)
    (nonempty : type ≠ "") : PadsType flag ↔ ¬ Tidy type := by
  have only : ∀ other, FlagGives flag other ↔ other = type.toList := by
    intro other
    have chars : (String.ofList other).toList = other := String.toList_ofList
    rw [← chars, ← extraTypeFlag?_eq_some_iff, given, Option.some.injEq, String.toList_inj, eq_comm]
  simp only [PadsType, only, exists_eq_left, tidy_iff nonempty, not_and_or, not_forall, exists_prop,
    Bool.not_eq_false]

namespace Options

variable {options : Options}

theorem Call.tidy_iff {call : Call} {field : ExtraField} (declared : call.field? = some field)
    (nonempty : field.type ≠ "") :
    Tidy field.type ↔ ¬ (call.name = "flexopt" ∧ PadsType call.value) := by
  obtain ⟨key, found, given⟩ := Option.bind_eq_some_iff.1 declared
  have named := OptionKey.ofName?_eq_some_iff.1 found
  cases key with
  | extra =>
    have passed : ExtraField.ofSpec call.value call.origin = .ok field := by
      rw [OptionKey.field?] at given
      cases read : ExtraField.ofSpec call.value call.origin with
      | error e => rw [read] at given; cases given
      | ok other => rw [read] at given; cases given; rfl
    have otherName : call.name ≠ "flexopt" := by
      rw [← named]
      decide
    exact iff_of_true (ExtraField.tidy_of_ofSpec passed) fun flag => otherName flag.1
  | flag =>
    obtain ⟨type, read, rfl⟩ := Option.map_eq_some_iff.1 given
    rw [padsType_iff read nonempty, ← named]
    exact ⟨fun tidy flag => flag.2 tidy, fun kept => Classical.not_not.1 fun untidy => kept ⟨rfl, untidy⟩⟩
  | _ => cases given

/-! ## Every field has a call -/

/-- A call brings in no field but the one that it declares. -/
theorem mem_extra_of_perform {call : Call} {field : ExtraField}
    (member : field ∈ (options.perform call).options.extra) :
    field ∈ options.extra ∨ call.field? = some field := by
  have kept : ∀ other ∈ (call.cleared options).extra, other ∈ options.extra := by
    intro other among
    have cut : (call.cleared options).extra = if call.Replaces .extra then [] else options.extra := rfl
    rw [cut] at among
    split_ifs at among
    · exact absurd among List.not_mem_nil
    · exact among
  have effect := effect_perform options call
  generalize options.perform call = update at effect member
  cases effect with
  | refused e => exact .inl (kept field member)
  | gained named gains =>
    rw [gains.eq, ← Call.field?_of_name named] at member
    exact (List.mem_append.1 member).imp (kept field) Option.mem_toList.1
  | scalar _ _ _ extra => exact .inl (extra ▸ member)

theorem exists_call_of_mem_extra {calls : List Call} {field : ExtraField}
    (member : field ∈ (options.afterCalls calls).extra) :
    field ∈ options.extra ∨ ∃ call ∈ calls, call.field? = some field := by
  induction calls generalizing options with
  | nil => exact .inl member
  | cons call calls ih =>
    rcases ih member with before | ⟨later, among, declared⟩
    · exact (mem_extra_of_perform before).imp_right fun declared =>
        ⟨call, List.mem_cons_self, declared⟩
    · exact .inr ⟨later, List.mem_cons_of_mem _ among, declared⟩

/-! ## Types -/

/-- Every extra field that there is was declared by some call, and its type shows something and has no
white space at its ends, unless the call was a flag that has white space at an end of the type. -/
theorem fieldTypes_tidy_iff {calls : List Call} {field : ExtraField}
    (member : field ∈ (Options.default.afterCalls calls).extra) :
    ∃ call ∈ calls, call.field? = some field ∧
      (Tidy field.type ↔ ¬ (call.name = "flexopt" ∧ PadsType call.value)) := by
  have typed := ((sound_afterCalls calls).allowed field member).typed
  rcases exists_call_of_mem_extra member with before | ⟨call, among, declared⟩
  · exact absurd before List.not_mem_nil
  · exact ⟨call, among, declared, Call.tidy_iff declared typed⟩

/-- A field by its name and type, and one by a flag. -/
def bothWays : List Call :=
  [⟨.add, "extra", " n : long ", .api⟩, ⟨.add, "flexopt", " extra-type=\" int\" ", .api⟩]

theorem fieldTypes_tidy_iff_bothWays :
    (Options.default.afterCalls bothWays).extra = [⟨"n", "long"⟩, ⟨"extra", " int"⟩] ∧
      ∃ call ∈ bothWays, call.field? = some ⟨"extra", " int"⟩ ∧
        call.name = "flexopt" ∧ PadsType call.value := by
  have fields : (Options.default.afterCalls bothWays).extra = [⟨"n", "long"⟩, ⟨"extra", " int"⟩] := by
    decide
  have member : ⟨"extra", " int"⟩ ∈ (Options.default.afterCalls bothWays).extra := by
    rw [fields]
    exact List.mem_cons_of_mem _ List.mem_cons_self
  obtain ⟨call, among, declared, tidy⟩ := fieldTypes_tidy_iff member
  have untidy : ¬ Tidy " int" := fun tidy => absurd (tidy.first ' ' rfl) (by decide)
  exact ⟨fields, call, among, declared, Classical.not_not.1 (mt tidy.2 untidy)⟩

/-- Nothing but a blank passes as the type of a field, if a flag gives it. -/
theorem blankType_accepted :
    Options.default.perform ⟨.add, "flexopt", "extra-type=\" \"", .api⟩ =
        ⟨{ Options.default with extra := [⟨"extra", " "⟩], flags := ["extra-type=\" \""] }, none⟩ ∧
      (∀ c ∈ " ".toList, isWhiteSpace c = true) ∧ ¬ Tidy " " := by
  refine ⟨by decide, List.forall_mem_singleton.2 (by decide), fun tidy => ?_⟩
  exact absurd (tidy.first ' ' rfl) (by decide)

end Options

end ScannerGen
