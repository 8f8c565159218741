import Mathlib.Data.List.Induction
import ScannerGen.Proofs.Options.Calls

/-!
# Lists and their history

A flag `extra-type=T` is kept in one list and declares a field in another, and either list can be
replaced without the other.  After calls that succeed, each list holds exactly what was given to it
since it was last replaced; so a flag and its field are in step unless one list was replaced alone.

* `Options.since` — the calls from the last one on that replaced a list.
* `Options.lists_of_performAll` — what the lists hold.
* `Options.extraType_inStep` — when the flags and the fields are in step.
-/

namespace ScannerGen.Options

/-! ## What calls give -/

namespace Call

/-- The field that a call declares, if it declares one. -/
def field? (call : Call) : Option ExtraField :=
  (OptionKey.ofName? call.name).bind fun key => key.field? call.value call.origin

/-- The flag that a call gives, if it gives one. -/
def flag? (call : Call) : Option String :=
  (OptionKey.ofName? call.name).bind fun key => key.flag? call.value

/-- The type that the flag of a call gives. -/
def type? (call : Call) : Option String := call.flag?.bind extraTypeFlag?

variable {call : Call} {key : OptionKey}

theorem field?_of_name (named : call.name = key.name) :
    call.field? = key.field? call.value call.origin := by
  rw [field?, named, OptionKey.ofName?_name, Option.bind_some]

theorem flag?_of_name (named : call.name = key.name) : call.flag? = key.flag? call.value := by
  rw [flag?, named, OptionKey.ofName?_name, Option.bind_some]

theorem field?_of_type? {type : String} (typed : call.type? = some type) :
    call.field? = some ⟨"extra", type⟩ := by
  obtain ⟨flag, given, read⟩ := Option.bind_eq_some_iff.1 typed
  obtain ⟨key, found, isFlag⟩ := Option.bind_eq_some_iff.1 given
  rw [OptionKey.flag?] at isFlag
  split_ifs at isFlag with same
  obtain rfl := same
  obtain rfl := Option.some.inj isFlag
  rw [field?, found, Option.bind_some, OptionKey.field?, read, Option.map_some]

/-- A field is declared by the option `extra` or by the type of a flag. -/
theorem name_or_type?_of_field? {field : ExtraField} (declared : call.field? = some field) :
    call.name = "extra" ∨ call.type?.isSome := by
  obtain ⟨key, found, given⟩ := Option.bind_eq_some_iff.1 declared
  cases key with
  | extra => exact .inl (OptionKey.ofName?_eq_some_iff.1 found).symm
  | flag =>
    rw [OptionKey.field?] at given
    obtain ⟨type, read, _⟩ := Option.map_eq_some_iff.1 given
    refine .inr (Option.isSome_iff_exists.2 ⟨type, ?_⟩)
    rw [type?, flag?, found, Option.bind_some, OptionKey.flag?, if_pos rfl, Option.bind_some, read]
  | _ => cases given

end Call

variable {options after : Options} {call : Call} {calls : List Call}

/-- A call that succeeds gives each list what it has for it. -/
theorem lists_of_perform (performed : (options.perform call).toExcept = .ok after) :
    after.extra = (call.cleared options).extra ++ call.field?.toList ∧
      after.flags = (call.cleared options).flags ++ call.flag?.toList := by
  have effect := effect_perform options call
  generalize options.perform call = update at effect performed
  cases effect with
  | refused e => cases performed
  | gained named gains =>
    cases performed
    rw [gains.eq, Call.field?_of_name named, Call.flag?_of_name named]
    exact ⟨rfl, rfl⟩
  | @scalar key _ _ named isScalar extra flags _ =>
    cases performed
    have nothing : call.field? = none ∧ call.flag? = none := by
      rw [Call.field?_of_name named, Call.flag?_of_name named]
      cases key with
      | extra => exact absurd rfl isScalar.1
      | flag => exact absurd rfl isScalar.2
      | _ => exact ⟨rfl, rfl⟩
    rw [cleared_of_scalar named isScalar, nothing.1, nothing.2, extra, flags]
    exact ⟨(List.append_nil _).symm, (List.append_nil _).symm⟩

/-! ## Histories -/

/-- The options after calls all of which succeed. -/
def performAll (options : Options) (calls : List Call) : Except OptionError Options :=
  calls.foldlM (fun options call => (options.perform call).toExcept) options

/-- The calls from the last one on that replaced a list; all calls if none has. -/
def since (key : OptionKey) (calls : List Call) : List Call :=
  calls.foldl (fun sofar call => (if call.Replaces key then [] else sofar) ++ [call]) []

theorem since_append_singleton (key : OptionKey) (calls : List Call) (call : Call) :
    since key (calls ++ [call]) = (if call.Replaces key then [] else since key calls) ++ [call] := by
  rw [since, List.foldl_append]
  rfl

theorem mem_of_mem_since {key : OptionKey} (member : call ∈ since key calls) : call ∈ calls := by
  induction calls using List.reverseRecOn with
  | nil => exact member
  | append_singleton calls last ih =>
    rw [since_append_singleton] at member
    rcases List.mem_append.1 member with before | isLast
    · split_ifs at before
      · exact absurd before List.not_mem_nil
      · exact List.mem_append_left _ (ih before)
    · exact List.mem_append_right _ isLast

theorem filterMap_since {α : Type} (given : Call → Option α) (key : OptionKey) (calls : List Call)
    (call : Call) :
    (since key (calls ++ [call])).filterMap given =
      (if call.Replaces key then [] else (since key calls).filterMap given) ++ (given call).toList := by
  rw [since_append_singleton, List.filterMap_append, apply_ite (List.filterMap given),
    List.filterMap_nil, List.filterMap_cons, List.filterMap_nil]
  cases given call <;> rfl

/-- Each list holds what was given to it since it was last replaced, in order. -/
theorem lists_of_performAll (performed : Options.default.performAll calls = .ok options) :
    options.flags = (since .flag calls).filterMap Call.flag? ∧
      options.extra = (since .extra calls).filterMap Call.field? := by
  induction calls using List.reverseRecOn generalizing options with
  | nil =>
    cases performed
    exact ⟨rfl, rfl⟩
  | append_singleton calls call ih =>
    rw [performAll, List.foldlM_append] at performed
    obtain ⟨before, succeeded, last⟩ := exists_of_bind_eq_ok performed
    obtain ⟨after, performed, ended⟩ := exists_of_bind_eq_ok last
    cases ended
    obtain ⟨flags, extra⟩ := ih succeeded
    obtain ⟨extra', flags'⟩ := lists_of_perform performed
    rw [extra', flags', filterMap_since, filterMap_since, ← flags, ← extra]
    exact ⟨rfl, rfl⟩

/-! ## Flags and fields in step -/

/-- A flag that is kept has the field that it declares. -/
def FlagsDeclare (options : Options) : Prop :=
  ∀ flag ∈ options.flags, ∀ type, extraTypeFlag? flag = some type → ⟨"extra", type⟩ ∈ options.extra

/-- When no flag declares it, a field called `extra` was declared by the option of that name. -/
def DeclaredByOption (calls : List Call) (options : Options) : Prop :=
  (∀ flag ∈ options.flags, extraTypeFlag? flag = none) →
    ∀ field ∈ options.extra, field.name = "extra" →
      ∃ call ∈ calls, call.name = "extra" ∧ call.field? = some field

/-- The lists hold what they were given since they were last replaced.  Each flag that is kept has its
field unless the fields were replaced after it, and a field `extra` that no flag declares is from the
option unless the flags were replaced after the one that declared it. -/
theorem extraType_inStep (performed : Options.default.performAll calls = .ok options) :
    options.flags = (since .flag calls).filterMap Call.flag? ∧
    options.extra = (since .extra calls).filterMap Call.field? ∧
    ((∀ call ∈ since .flag calls, call.type?.isSome → call ∈ since .extra calls) →
      FlagsDeclare options) ∧
    ((∀ call ∈ since .extra calls, call.type?.isSome → call ∈ since .flag calls) →
      DeclaredByOption calls options) := by
  obtain ⟨flags, extra⟩ := lists_of_performAll performed
  refine ⟨flags, extra, fun kept flag among type read => ?_, fun kept untyped field among _ => ?_⟩
  · rw [flags] at among
    obtain ⟨call, inside, given⟩ := List.mem_filterMap.1 among
    have typed : call.type? = some type := by
      rw [Call.type?, given, Option.bind_some, read]
    rw [extra]
    exact List.mem_filterMap.2 ⟨call, kept call inside (Option.isSome_of_mem typed),
      Call.field?_of_type? typed⟩
  · rw [extra] at among
    obtain ⟨call, inside, declared⟩ := List.mem_filterMap.1 among
    rcases Call.name_or_type?_of_field? declared with named | typed
    · exact ⟨call, mem_of_mem_since inside, named, declared⟩
    · -- The flag of the call is still among the flags, and it has a type.
      obtain ⟨type, given⟩ := Option.isSome_iff_exists.1 typed
      obtain ⟨flag, isFlag, read⟩ := Option.bind_eq_some_iff.1 given
      have member : flag ∈ options.flags := by
        rw [flags]
        exact List.mem_filterMap.2 ⟨call, kept call inside typed, isFlag⟩
      cases (untyped flag member).symm.trans read

/-- Both lists are replaced behind the first flag, and the second flag takes its place. -/
def bothReplaced : List Call :=
  [⟨.add, "flexopt", "extra-type=int", .api⟩, ⟨.set, "extra", "n:int", .api⟩,
    ⟨.set, "flexopt", "extra-type=\"long\"", .api⟩]

theorem extraType_inStep_bothReplaced :
    ∃ options, Options.default.performAll bothReplaced = .ok options ∧
      (∀ call ∈ since .flag bothReplaced, call.type?.isSome → call ∈ since .extra bothReplaced) ∧
      (∀ call ∈ since .extra bothReplaced, call.type?.isSome → call ∈ since .flag bothReplaced) ∧
      FlagsDeclare options ∧ DeclaredByOption bothReplaced options := by
  have performed : Options.default.performAll bothReplaced =
      .ok { Options.default with
        extra := [⟨"n", "int"⟩, ⟨"extra", "long"⟩], flags := ["extra-type=\"long\""] } := by decide
  obtain ⟨_, _, flags, fields⟩ := extraType_inStep performed
  have kept : ∀ call ∈ since .flag bothReplaced, call.type?.isSome → call ∈ since .extra bothReplaced := by
    decide
  have kept' : ∀ call ∈ since .extra bothReplaced, call.type?.isSome → call ∈ since .flag bothReplaced := by
    decide
  exact ⟨_, performed, kept, kept', flags kept, fields kept'⟩

/-- A flag that declares a field, whose list is then replaced. -/
def flagReplaced : List Call :=
  [⟨.add, "flexopt", "extra-type=int", .api⟩, ⟨.set, "flexopt", "x", .api⟩]

/-- A flag that declares a field, and the fields are then replaced. -/
def fieldReplaced : List Call :=
  [⟨.add, "flexopt", "extra-type=int", .api⟩, ⟨.set, "extra", "n:int", .api⟩]

/-- A field outlives the flag that declared it, and a flag outlives its field. -/
theorem outOfStep :
    (∃ options, Options.default.performAll flagReplaced = .ok options ∧
      ¬ DeclaredByOption flagReplaced options) ∧
    ∃ options, Options.default.performAll fieldReplaced = .ok options ∧ ¬ FlagsDeclare options := by
  constructor
  · refine ⟨{ Options.default with extra := [⟨"extra", "int"⟩], flags := ["x"] }, by decide, ?_⟩
    intro declared
    obtain ⟨call, among, named, _⟩ :=
      declared (by decide) ⟨"extra", "int"⟩ (List.mem_singleton_self _) rfl
    revert call
    decide
  · refine ⟨{ Options.default with extra := [⟨"n", "int"⟩], flags := ["extra-type=int"] }, by decide, ?_⟩
    intro declare
    exact absurd (declare "extra-type=int" (List.mem_singleton_self _) "int" (by decide)) (by decide)

end ScannerGen.Options
