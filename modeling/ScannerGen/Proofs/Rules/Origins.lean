import Mathlib.Data.List.Forall2
import Mathlib.Tactic.SplitIfs
import ScannerGen.Rules

/-!
# Rule sets without lines

Where something is declared makes no difference but to the places that are remembered and reported:
what is declared in the same order is the same rule set, or the same error, up to these.

* `RuleSet.unplaced`, `RuleError.unplaced` — rule sets and errors without their places.
* `RuleSet.Alike`, `AgreeUpToPlaces` — the same up to places, of rule sets and of outcomes.
* `Options.set_at`, `Options.add_at` — the place of a call is in its error only.
* `Alike.setOption`, `Alike.addOption`, `Alike.defineMacro`, `Alike.declare` — one step.
* `AgreeUpToPlaces.foldlM` — a run of steps.
-/

namespace ScannerGen

/-! ## Options -/

/-- The same error at another place. -/
def OptionError.at (e : OptionError) (origin : Origin) : OptionError := { e with origin }

variable {α : Type} {origin : Origin}

namespace ExtraField

theorem checked_at (name type : String) (origin : Origin) :
    checked name type origin = (checked name type .api).mapError fun e => e.at origin := by
  simp only [checked]
  split_ifs <;> rfl

theorem ofSpec_at (spec : String) (origin : Origin) :
    ofSpec spec origin = (ofSpec spec .api).mapError fun e => e.at origin := by
  simp only [ofSpec]
  split
  · rfl
  · exact checked_at _ _ origin

end ExtraField

namespace Options

variable (options : Options)

theorem addExtra_at (field : ExtraField) (origin : Origin) :
    options.addExtra field origin = (options.addExtra field .api).mapError fun e => e.at origin := by
  simp only [addExtra]
  split_ifs <;> rfl

/-- A field that is read at a place and added there fails at that place, at either step. -/
theorem addExtra_mapError {field : Except OptionError ExtraField} :
    (match field.mapError (fun e => e.at origin) with
      | .error e => .error e
      | .ok field => options.addExtra field origin) =
    (match field with
      | .error e => .error e
      | .ok field => options.addExtra field .api : Except OptionError Options).mapError
        fun e => e.at origin := by
  cases field with
  | error e => rfl
  | ok field => exact options.addExtra_at field origin

theorem addFlagField_at (flag : String) (origin : Origin) :
    options.addFlagField flag origin =
      (options.addFlagField flag .api).mapError fun e => e.at origin := by
  rw [addFlagField, addFlagField]
  cases extraTypeFlag? flag with
  | none => rfl
  | some type =>
    simp only [ExtraField.checked_at "extra" type origin]
    exact options.addExtra_mapError

theorem mapError_map {β ε : Type} (x : Except ε α) (f : ε → ε) (g : α → β) :
    (x.mapError f).map g = (x.map g).mapError f := by
  cases x <;> rfl

theorem addTo_at (key : OptionKey) (value : String) (origin : Origin) :
    options.addTo key value origin =
      (options.addTo key value .api).mapError fun e => e.at origin := by
  cases key with
  | extra =>
    simp only [addTo, ExtraField.ofSpec_at value origin]
    exact options.addExtra_mapError
  | flag =>
    simp only [addTo, options.addFlagField_at value origin]
    exact mapError_map _ _ _
  | _ => rfl

/-- A call at another place changes the options as much, and its error is at that place. -/
def Update.at (update : Update) (origin : Origin) : Update :=
  { update with error? := update.error?.map fun e => e.at origin }

theorem attempt_at (changed : Except OptionError Options) :
    options.attempt (changed.mapError fun e => e.at origin) = (options.attempt changed).at origin := by
  cases changed <;> rfl

theorem switch_at (key : OptionKey) (value : String) (origin : Origin) :
    switch key value origin = (switch key value .api).mapError fun e => e.at origin := by
  simp only [switch]
  split <;> rfl

theorem setKey_at (key : OptionKey) (value : String) (origin : Origin) :
    options.setKey key value origin = (options.setKey key value .api).at origin := by
  cases key with
  | lineno | reentrant | minimize =>
    simp only [setKey, switch_at _ value origin, mapError_map]
    exact options.attempt_at _
  | helperName =>
    simp only [setKey]
    split_ifs <;> rfl
  | sourceTop | sourceEnd | headerTop | headerEnd => rfl
  | extra | flag =>
    -- The list is cleared before the value is added to it, and stays so if the value is refused.
    simp only [setKey]
    rw [addTo_at, attempt_at]

theorem set_at (name value : String) (origin : Origin) :
    options.set name value origin = (options.set name value .api).at origin := by
  rw [set, set]
  cases OptionKey.ofName? name with
  | none => rfl
  | some key => exact options.setKey_at key value origin

theorem add_at (name value : String) (origin : Origin) :
    options.add name value origin = (options.add name value .api).at origin := by
  rw [add, add]
  cases OptionKey.ofName? name with
  | none => rfl
  | some key =>
    simp only [options.addTo_at key value origin]
    exact options.attempt_at _

theorem Update.toExcept_at (update : Update) (origin : Origin) :
    (update.at origin).toExcept = update.toExcept.mapError fun e => e.at origin := by
  rw [toExcept, toExcept, Update.at]
  cases update.error? <;> rfl

end Options

/-! ## Rule sets -/

def Macro.unplaced (m : Macro) : Macro := { m with origin := .api }

def MacroTable.unplaced (table : MacroTable) : MacroTable := ⟨table.entries.map Macro.unplaced⟩

def Declaration.unplaced (d : Declaration) : Declaration := { d with origin := .api }

/-- A rule set without the places of its definitions and declarations. -/
def RuleSet.unplaced (rules : RuleSet) : RuleSet :=
  ⟨rules.macros.unplaced, rules.declarations.map Declaration.unplaced, rules.options⟩

/-- An error without its place.  The fault of a document is where the document is wrong. -/
def RuleError.unplaced : RuleError → RuleError
  | .duplicateMacro duplicate => .duplicateMacro { duplicate with origin := .api }
  | .option refused => .option (refused.at .api)
  | .statement _ fault => .statement .api fault
  | .document refusal => .document refusal

/-- An outcome without places. -/
def unplaced : Except RuleError RuleSet → Except RuleError RuleSet
  | .ok rules => .ok rules.unplaced
  | .error e => .error e.unplaced

/-- Two rule sets are the same up to places. -/
def RuleSet.Alike (rules rules' : RuleSet) : Prop := rules.unplaced = rules'.unplaced

/-- Two outcomes are the same up to places. -/
def AgreeUpToPlaces (outcome outcome' : Except RuleError RuleSet) : Prop :=
  unplaced outcome = unplaced outcome'

variable {rules rules' : RuleSet}

namespace RuleSet

theorem Alike.agree (alike : Alike rules rules') : AgreeUpToPlaces (.ok rules) (.ok rules') :=
  congrArg Except.ok alike

theorem Alike.options_eq (alike : Alike rules rules') : rules.options = rules'.options := by
  have same : rules.unplaced.options = rules'.unplaced.options := congrArg RuleSet.options alike
  exact same

theorem Alike.macros (alike : Alike rules rules') : rules.macros.unplaced = rules'.macros.unplaced :=
  congrArg RuleSet.macros alike

theorem Alike.declarations (alike : Alike rules rules') :
    rules.declarations.map Declaration.unplaced = rules'.declarations.map Declaration.unplaced :=
  congrArg RuleSet.declarations alike

theorem Alike.withOptions (alike : Alike rules rules') (options : Options) :
    Alike { rules with options } { rules' with options } := by
  rw [Alike, unplaced, unplaced, alike.macros, alike.declarations]

/-- The place of a call of an option is in its error only. -/
theorem Alike.update (alike : Alike rules rules') (update : Options.Update) (origin origin' : Origin) :
    AgreeUpToPlaces
      (match (update.at origin).toExcept with
        | .ok options => .ok { rules with options }
        | .error refused => .error (.option refused))
      (match (update.at origin').toExcept with
        | .ok options => .ok { rules' with options }
        | .error refused => .error (.option refused)) := by
  rw [Options.Update.toExcept_at, Options.Update.toExcept_at]
  cases update.toExcept with
  | error e => rfl
  | ok options => exact (alike.withOptions options).agree

theorem Alike.setOption (alike : Alike rules rules') (name value : String) (origin origin' : Origin) :
    AgreeUpToPlaces (rules.setOption name value origin) (rules'.setOption name value origin') := by
  rw [RuleSet.setOption, RuleSet.setOption, Options.set_at, Options.set_at _ _ _ origin',
    alike.options_eq]
  exact alike.update _ origin origin'

theorem Alike.addOption (alike : Alike rules rules') (name value : String) (origin origin' : Origin) :
    AgreeUpToPlaces (rules.addOption name value origin) (rules'.addOption name value origin') := by
  rw [RuleSet.addOption, RuleSet.addOption, Options.add_at, Options.add_at _ _ _ origin',
    alike.options_eq]
  exact alike.update _ origin origin'

theorem find?_unplaced (table : MacroTable) (name : String) :
    table.unplaced.find? name = (table.find? name).map Macro.unplaced := by
  rw [MacroTable.find?, MacroTable.find?, MacroTable.unplaced, List.find?_map]
  rfl

theorem unplaced_push (table : MacroTable) (m : Macro) :
    (table.push m).unplaced = table.unplaced.push m.unplaced := by
  rw [MacroTable.unplaced, MacroTable.push, List.map_append]
  rfl

theorem Alike.defineMacro (alike : Alike rules rules') (name fragment : String)
    (origin origin' : Origin) :
    AgreeUpToPlaces (rules.defineMacro name fragment origin)
      (rules'.defineMacro name fragment origin') := by
  have found : (rules.macros.find? name).map Macro.unplaced =
      (rules'.macros.find? name).map Macro.unplaced := by
    rw [← find?_unplaced, alike.macros, find?_unplaced]
  rw [RuleSet.defineMacro, RuleSet.defineMacro, MacroTable.define, MacroTable.define]
  by_cases bad : Ascii.isIdentifier name = false
  · rw [if_pos bad, if_pos bad]
    rfl
  · rw [if_neg bad, if_neg bad]
    cases known : rules.macros.find? name with
    | some m =>
      -- Which of the two places the error has depends on the lines, but it is left out.
      rw [known] at found
      obtain ⟨m', known', _⟩ := Option.map_eq_some_iff.1 found.symm
      rw [known']
      rfl
    | none =>
      rw [known] at found
      rw [Option.map_eq_none_iff.1 found.symm]
      refine Alike.agree ?_
      rw [Alike, RuleSet.unplaced, RuleSet.unplaced, unplaced_push, unplaced_push, alike.macros,
        alike.declarations, alike.options_eq]
      rfl

theorem Alike.declare (alike : Alike rules rules') {d d' : Declaration}
    (same : d.unplaced = d'.unplaced) : Alike (rules.declare d) (rules'.declare d') := by
  rw [Alike, RuleSet.unplaced, RuleSet.unplaced, RuleSet.declare, RuleSet.declare, List.map_append,
    List.map_append, List.map_singleton, List.map_singleton, same, alike.macros, alike.declarations,
    alike.options_eq]

end RuleSet

/-! ## Runs -/

namespace AgreeUpToPlaces

open RuleSet (Alike)

theorem bind {outcome outcome' : Except RuleError RuleSet} (agree : AgreeUpToPlaces outcome outcome')
    {next next' : RuleSet → Except RuleError RuleSet}
    (each : ∀ rules rules', Alike rules rules' → AgreeUpToPlaces (next rules) (next' rules')) :
    AgreeUpToPlaces (outcome >>= next) (outcome' >>= next') := by
  cases outcome with
  | error e =>
    cases outcome' with
    | error e' => exact agree
    | ok rules' => cases agree
  | ok rules =>
    cases outcome' with
    | error e' => cases agree
    | ok rules' => exact each rules rules' (Except.ok.inj agree)

/-- Steps that agree one by one agree when they are taken one after the other. -/
theorem foldlM {α β : Type} {step : RuleSet → α → Except RuleError RuleSet}
    {step' : RuleSet → β → Except RuleError RuleSet} {as : List α} {bs : List β}
    (steps : List.Forall₂ (fun a b => ∀ rules rules', Alike rules rules' →
      AgreeUpToPlaces (step rules a) (step' rules' b)) as bs)
    (alike : Alike rules rules') :
    AgreeUpToPlaces (as.foldlM step rules) (bs.foldlM step' rules') := by
  induction steps generalizing rules rules' with
  | nil => exact alike.agree
  | cons first _ ih =>
    rw [List.foldlM_cons, List.foldlM_cons]
    exact (first rules rules' alike).bind fun _ _ alike => ih alike

end AgreeUpToPlaces

end ScannerGen
