import Mathlib.Data.List.Basic
import ScannerGen.Proofs.Json.Checked
import ScannerGen.Proofs.Options.Fields

/-!
# Calls of options

Options change by calls, each of which sets the option of a name or adds to it.  What a call can do is
said once, and everything about calls is derived from it.

* `Options.addTo_eq_ok` — what a value adds to the lists.
* `Options.Effect` — the outcomes of a call, and `Options.effect_perform` — there are no others.
* `Options.perform_of_refused` — what a refused call leaves behind.
-/

namespace ScannerGen

/-! ## Names of options -/

namespace OptionKey

theorem ofName?_name (key : OptionKey) : ofName? key.name = some key := by
  cases key <;> rfl

theorem ofName?_eq_some_iff {word : String} {key : OptionKey} :
    ofName? word = some key ↔ key.name = word := by
  constructor
  · intro found
    have named := List.find?_some found
    exact beq_iff_eq.1 named
  · rintro rfl
    exact ofName?_name key

end OptionKey

/-! ## Lists -/

namespace OptionKey

/-- The field that a value of a list declares, if it declares one. -/
def field? (key : OptionKey) (value : String) (origin : Origin) : Option ExtraField :=
  match key with
  | .extra => (ExtraField.ofSpec value origin).toOption
  | .flag => (extraTypeFlag? value).map (ExtraField.mk "extra")
  | _ => none

/-- The flag that a value is, if it is one. -/
def flag? (key : OptionKey) (value : String) : Option String :=
  if key = .flag then some value else none

end OptionKey

namespace Options

/-- The names of the extra fields. -/
def fieldNames (options : Options) : List String := options.extra.map ExtraField.name

theorem addExtra_eq_ok_iff {options after : Options} {field : ExtraField} {origin : Origin} :
    options.addExtra field origin = .ok after ↔
      field.name ∉ options.fieldNames ∧ after = { options with extra := options.extra ++ [field] } := by
  have known : (options.extra.any fun other => other.name == field.name) = true ↔
      field.name ∈ options.fieldNames := by
    simp [fieldNames]
  rw [addExtra]
  by_cases twice : field.name ∈ options.fieldNames
  · rw [if_pos (known.2 twice)]
    exact ⟨nofun, fun given => absurd twice given.1⟩
  · rw [if_neg (twice ∘ known.1)]
    exact ⟨fun given => ⟨twice, (Except.ok.inj given).symm⟩, fun given => given.2 ▸ rfl⟩

/-- What the lists gain by a value: the field that it declares, which has to be allowed and new, and the
flag that it is. -/
structure Gains (options : Options) (key : OptionKey) (value : String) (origin : Origin)
    (after : Options) : Prop where
  isList : key = .extra ∨ key = .flag
  fields : ∀ field ∈ key.field? value origin, field.Allowed ∧ field.name ∉ options.fieldNames
  eq : after = { options with
    extra := options.extra ++ (key.field? value origin).toList
    flags := options.flags ++ (key.flag? value).toList }

variable {options after : Options} {key : OptionKey} {value : String} {origin : Origin}

theorem gains_of_addExtra {field : ExtraField} {between : Options} (isList : key = .extra ∨ key = .flag)
    (declared : key.field? value origin = some field) (allowed : field.Allowed)
    (added : options.addExtra field origin = .ok between) :
    options.Gains key value origin
      { between with flags := between.flags ++ (key.flag? value).toList } := by
  obtain ⟨new, rfl⟩ := addExtra_eq_ok_iff.1 added
  refine ⟨isList, ?_, by rw [declared, Option.toList_some]⟩
  intro other same
  obtain rfl : field = other := Option.some.inj (declared.symm.trans same)
  exact ⟨allowed, new⟩

theorem addTo_eq_ok (added : options.addTo key value origin = .ok after) :
    options.Gains key value origin after := by
  cases key with
  | extra =>
    simp only [addTo] at added
    split at added
    · cases added
    · next field given =>
      have declared : OptionKey.extra.field? value origin = some field := by
        rw [OptionKey.field?, given]
        rfl
      have gains := gains_of_addExtra (.inl rfl) declared (ExtraField.allowed_of_ofSpec given) added
      rwa [OptionKey.flag?, if_neg (by decide), Option.toList_none, List.append_nil] at gains
  | flag =>
    -- The field is declared first, and only then is the flag kept.
    simp only [addTo] at added
    obtain ⟨between, declared, rfl⟩ := exists_of_map_eq_ok added
    simp only [addFlagField] at declared
    split at declared
    · next typed =>
      cases declared
      have undeclared : OptionKey.flag.field? value origin = none := by
        rw [OptionKey.field?, typed]
        rfl
      refine ⟨.inr rfl, ?_, ?_⟩
      · intro field same
        cases undeclared.symm.trans same
      · rw [undeclared, Option.toList_none, List.append_nil]
        rfl
    · next type typed =>
      split at declared
      · cases declared
      · next field given =>
        obtain ⟨rfl, allowed⟩ := ExtraField.checked_eq_ok_iff.1 given
        have same : OptionKey.flag.field? value origin = some ⟨"extra", type⟩ := by
          rw [OptionKey.field?, typed]
          rfl
        exact gains_of_addExtra (.inr rfl) same allowed declared
  | _ => cases added

/-! ## Calls -/

inductive Verb where
  | set
  | add
  deriving DecidableEq, Repr

/-- A call that sets the option of a name or adds to it. -/
structure Call where
  verb : Verb
  name : String
  value : String
  origin : Origin
  deriving DecidableEq, Repr

/-- The options after a call, and the error of the call. -/
def perform (options : Options) (call : Call) : Update :=
  match call.verb with
  | .set => options.set call.name call.value call.origin
  | .add => options.add call.name call.value call.origin

namespace Call

/-- A call that sets a list replaces it. -/
def Replaces (call : Call) (key : OptionKey) : Prop := call.verb = .set ∧ call.name = key.name

instance (call : Call) (key : OptionKey) : Decidable (call.Replaces key) :=
  inferInstanceAs (Decidable (_ ∧ _))

/-- The options without what is in a list that a call replaces. -/
def cleared (call : Call) (options : Options) : Options :=
  { options with
    extra := if call.Replaces .extra then [] else options.extra
    flags := if call.Replaces .flag then [] else options.flags }

theorem cleared_eq_self {call : Call} (extra : ¬ call.Replaces .extra) (flags : ¬ call.Replaces .flag)
    (options : Options) : call.cleared options = options := by
  rw [cleared, if_neg extra, if_neg flags]

theorem cleared_eq_self_iff {call : Call} {options : Options} :
    call.cleared options = options ↔
      (call.Replaces .extra → options.extra = []) ∧ (call.Replaces .flag → options.flags = []) := by
  constructor
  · intro same
    have extra : (call.cleared options).extra = options.extra := congrArg Options.extra same
    have flags : (call.cleared options).flags = options.flags := congrArg Options.flags same
    exact ⟨fun replaces => extra.symm.trans (if_pos replaces),
      fun replaces => flags.symm.trans (if_pos replaces)⟩
  · rintro ⟨extra, flags⟩
    rw [cleared, ite_eq_right_iff.2 fun replaces => (extra replaces).symm,
      ite_eq_right_iff.2 fun replaces => (flags replaces).symm]

end Call

/-- What a call can do: it is refused, a list gains its value, or a scalar is set. -/
inductive Effect (options : Options) (call : Call) : Update → Prop
  | refused (e : OptionError) : Effect options call ⟨call.cleared options, some e⟩
  | gained {key : OptionKey} {after : Options} (named : call.name = key.name)
      (gains : (call.cleared options).Gains key call.value call.origin after) :
      Effect options call ⟨after, none⟩
  | scalar {key : OptionKey} {after : Options} (set : call.verb = .set) (named : call.name = key.name)
      (isScalar : key ≠ .extra ∧ key ≠ .flag) (extra : after.extra = options.extra)
      (flags : after.flags = options.flags)
      (helperName : after.helperName = options.helperName ∨ IsCIdentifier after.helperName) :
      Effect options call ⟨after, none⟩

variable {call : Call}

theorem not_replaces_of_ne {other : OptionKey} (named : call.name = key.name) (ne : key ≠ other) :
    ¬ call.Replaces other := by
  rintro ⟨_, named'⟩
  have same : some key = some other := by
    rw [← OptionKey.ofName?_name key, ← OptionKey.ofName?_name other, ← named, named']
  exact ne (Option.some.inj same)

theorem cleared_of_scalar (named : call.name = key.name) (isScalar : key ≠ .extra ∧ key ≠ .flag) :
    call.cleared options = options :=
  Call.cleared_eq_self (not_replaces_of_ne named isScalar.1) (not_replaces_of_ne named isScalar.2)
    options

theorem cleared_of_add (add : call.verb = .add) : call.cleared options = options := by
  have keeps : ∀ key, ¬ call.Replaces key := fun key replaces => by
    cases add.symm.trans replaces.1
  exact Call.cleared_eq_self (keeps .extra) (keeps .flag) options

theorem Effect.refused_of_cleared (unchanged : call.cleared options = options) (e : OptionError) :
    Effect options call ⟨options, some e⟩ := by
  have refused : Effect options call _ := .refused e
  rwa [unchanged] at refused

/-- Adding to the list that a call replaces is all that the call does to lists. -/
theorem effect_attempt_addTo (options : Options) (named : call.name = key.name) :
    Effect options call ((call.cleared options).attempt
      ((call.cleared options).addTo key call.value call.origin)) := by
  cases added : (call.cleared options).addTo key call.value call.origin with
  | error e => exact .refused e
  | ok after => exact .gained named (addTo_eq_ok added)

theorem effect_switch (set : call.verb = .set) (named : call.name = key.name)
    (isScalar : key ≠ .extra ∧ key ≠ .flag) {put : Bool → Options}
    (extra : ∀ b, (put b).extra = options.extra) (flags : ∀ b, (put b).flags = options.flags)
    (helperName : ∀ b, (put b).helperName = options.helperName) :
    Effect options call (options.attempt ((switch key call.value call.origin).map put)) := by
  cases switch key call.value call.origin with
  | error e => exact .refused_of_cleared (cleared_of_scalar named isScalar) e
  | ok b => exact .scalar set named isScalar (extra b) (flags b) (.inl (helperName b))

theorem effect_setKey (set : call.verb = .set) (named : call.name = key.name) :
    Effect options call (options.setKey key call.value call.origin) := by
  cases key with
  | lineno | reentrant | minimize =>
    exact effect_switch set named (by decide) (fun _ => rfl) (fun _ => rfl) fun _ => rfl
  | helperName =>
    rw [setKey]
    split_ifs with identifier
    · exact .scalar set named (by decide) rfl rfl (.inr (isCIdentifier_iff.2 identifier))
    · exact .refused_of_cleared (cleared_of_scalar named (by decide)) _
  | sourceTop | sourceEnd | headerTop | headerEnd =>
    exact .scalar set named (by decide) rfl rfl (.inl rfl)
  | extra =>
    have added := effect_attempt_addTo options named
    rwa [Call.cleared, if_pos ⟨set, named⟩, if_neg (not_replaces_of_ne named (by decide))] at added
  | flag =>
    have added := effect_attempt_addTo options named
    rwa [Call.cleared, if_neg (not_replaces_of_ne named (by decide)), if_pos ⟨set, named⟩] at added

theorem effect_perform (options : Options) (call : Call) :
    Effect options call (options.perform call) := by
  cases named : OptionKey.ofName? call.name with
  | none =>
    -- No option has the name, so no list has it.
    have keeps (key : OptionKey) : ¬ call.Replaces key := by
      rintro ⟨_, same⟩
      rw [same, OptionKey.ofName?_name] at named
      cases named
    have refused : options.perform call = ⟨options, some ⟨call.name, call.origin, .unrecognized⟩⟩ := by
      rw [perform]
      cases call.verb <;> simp only [set, add, named]
    rw [refused]
    exact .refused_of_cleared (Call.cleared_eq_self (keeps .extra) (keeps .flag) options) _
  | some key =>
    have same := (OptionKey.ofName?_eq_some_iff.1 named).symm
    cases verb : call.verb with
    | set =>
      simp only [perform, verb, set, named]
      exact effect_setKey verb same
    | add =>
      simp only [perform, verb, add, named]
      have added := effect_attempt_addTo options same
      rwa [cleared_of_add verb] at added

/-! ## Calls that succeed -/

/-- Only an option that there is can be called, and only a list can be added to. -/
theorem exists_key_of_perform (call : Call)
    (performed : (options.perform call).toExcept = .ok after) :
    ∃ key : OptionKey, call.name = key.name ∧ (call.verb = .add → key = .extra ∨ key = .flag) := by
  have effect := effect_perform options call
  generalize options.perform call = update at effect performed
  cases effect with
  | refused e => cases performed
  | gained named gains => exact ⟨_, named, fun _ => gains.isList⟩
  | scalar set named => exact ⟨_, named, fun add => by cases set.symm.trans add⟩

/-! ## Refused calls -/

/-- A refused call changes nothing but the list that it replaces, which it leaves empty. -/
theorem perform_of_refused (options : Options) (call : Call) {e : OptionError}
    (refused : (options.perform call).error? = some e) :
    (options.perform call).options = { options with
      extra := if call.Replaces .extra then [] else options.extra
      flags := if call.Replaces .flag then [] else options.flags } ∧
    ((options.perform call).options = options ↔
      (call.Replaces .extra → options.extra = []) ∧ (call.Replaces .flag → options.flags = [])) := by
  have left : (options.perform call).options = call.cleared options := by
    have effect := effect_perform options call
    generalize options.perform call = update at effect refused
    cases effect with
    | refused e => rfl
    | gained | scalar => cases refused
  exact ⟨left, left ▸ Call.cleared_eq_self_iff⟩

/-- Options with one extra field. -/
def oneField : Options := { Options.default with extra := [⟨"a", "int"⟩] }

theorem perform_of_refused_oneField :
    (oneField.perform ⟨.add, "extra", "a:long", .api⟩).error? =
        some ⟨"extra", .api, .declaredTwice "a"⟩ ∧
      (oneField.perform ⟨.add, "extra", "a:long", .api⟩).options = oneField :=
  have refused : (oneField.perform ⟨.add, "extra", "a:long", .api⟩).error? =
      some ⟨"extra", .api, .declaredTwice "a"⟩ := by decide
  ⟨refused, (perform_of_refused oneField _ refused).2.2 ⟨by decide, by decide⟩⟩

/-- A refused value takes the field that was there with it. -/
theorem field_lost :
    Options.default.perform ⟨.add, "extra", "a:int", .api⟩ = ⟨oneField, none⟩ ∧
      (oneField.perform ⟨.set, "extra", "b", .api⟩).error? =
        some ⟨"extra", .api, .notNameAndType "b"⟩ ∧
      (oneField.perform ⟨.set, "extra", "b", .api⟩).options ≠ oneField := by
  decide

end Options

end ScannerGen
