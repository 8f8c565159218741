import ScannerGen.Generate
import ScannerGen.Proofs.Hooks

/-!
# Generations

A generation settles the tokens, builds the tables and makes the texts; hooks are run on what is
settled only when all of that has succeeded.

* `prepare_eq_ok_iff`, `prepare_of_generate` — the parts of a generation that succeeds.
* `hooks_disciplined` — the calls that hooks get, by themselves and inside a generation.
-/

namespace ScannerGen

theorem RuleSet.build_eq_ok_iff {rules : RuleSet} {tokens : TokenTable} {built : Tables.Built} :
    rules.build = .ok (tokens, built) ↔ settle rules.declarations = .ok tokens ∧
      Tables.build tokens rules.macros.installPrelude rules.options.minimize = .ok built := by
  rw [RuleSet.build]
  constructor
  · intro succeeded
    split at succeeded
    · cases succeeded
    · next settled =>
      split at succeeded
      · cases succeeded
      · next made =>
        cases succeeded
        exact ⟨settled, made⟩
  · rintro ⟨settled, made⟩
    simp only [settled, made]

theorem prepare_eq_ok_iff {rules : RuleSet} {base : String} {generated : Generated} :
    prepare rules base = .ok generated ↔ base ≠ "" ∧
      settle rules.declarations = .ok generated.tokens ∧
      Tables.build generated.tokens rules.macros.installPrelude rules.options.minimize =
        .ok ⟨generated.tables, generated.warnings⟩ ∧
      generated.artifacts = emit base generated.tables generated.tokens rules.options := by
  constructor
  · intro prepared
    rw [prepare] at prepared
    split at prepared
    · cases prepared
    · next named =>
      cases made : rules.build with
      | error e =>
        rw [made] at prepared
        cases prepared
      | ok pair =>
        rw [made] at prepared
        cases prepared
        obtain ⟨settled, built⟩ := RuleSet.build_eq_ok_iff.1 made
        exact ⟨named, settled, built, rfl⟩
  · rintro ⟨named, settled, built, artifacts⟩
    simp only [prepare, if_neg named, RuleSet.build_eq_ok_iff.2 ⟨settled, built⟩, Except.map, ← artifacts]

variable {σ : Type}

/-- A generation calls no hook when it cannot prepare a scanner; otherwise it runs hooks on the
tokens, and reports what they report. -/
theorem exists_watches_generate (rules : RuleSet) (base : String) (hooks : List (Hook (StateM σ))) (s : σ) :
    ∃ result trace s', Watches (generate rules base (watchedFrom 0 hooks)) (generate rules base hooks)
        result result trace s s' ∧
      match prepare rules base with
      | .error e => result = .error e ∧ trace = [] ∧ s' = s
      | .ok generated => ∃ told, HookDiscipline generated.tokens (hooks.map Hook.name) trace told ∧
          result = (told.map fun _ => generated).mapError .hook := by
  simp only [generate]
  cases prepare rules base with
  | error e => exact ⟨.error e, [], s, .pure _ _ s, rfl, rfl, rfl⟩
  | ok generated =>
    obtain ⟨told, trace, s', told', disciplined⟩ := exists_watches_runHooks generated.tokens hooks s
    refine ⟨(told.map fun _ => generated).mapError .hook, trace ++ [], s', told'.bind ?_, told, ?_, rfl⟩
    · cases told <;> exact .pure _ _ s'
    · rwa [List.append_nil]

/-- What a generation gives has been prepared, whatever its hooks do. -/
theorem prepare_of_generate {rules : RuleSet} {base : String} {hooks : List (Hook (StateM σ))} {s : σ}
    {generated : Generated} (succeeded : ((generate rules base hooks).run s).1 = .ok generated) :
    prepare rules base = .ok generated := by
  obtain ⟨result, _, s', run, called⟩ := exists_watches_generate rules base hooks s
  rw [run.plain] at succeeded
  cases prepared : prepare rules base with
  | error e =>
    rw [prepared] at called
    exact absurd (called.1.symm.trans succeeded) nofun
  | ok generated' =>
    rw [prepared] at called
    obtain ⟨told, _, same⟩ := called
    cases told with
    | error e => exact absurd (same.symm.trans succeeded) nofun
    | ok done => exact same.symm.trans succeeded

/-- Hooks are called in the same orderly way, whatever they do.  In a generation they are not called
at all unless the tokens are settled, the tables built and the texts made. -/
theorem hooks_disciplined (hooks : List (Hook (StateM σ))) (s : σ) :
    (∀ tokens, ∃ result trace s',
      ((runHooks (watchedFrom 0 hooks) tokens).run []).run s = ((result, trace), s') ∧
      (runHooks hooks tokens).run s = (result, s') ∧
      HookDiscipline tokens (hooks.map Hook.name) trace result) ∧
    ∀ rules base, ∃ result trace s',
      ((generate rules base (watchedFrom 0 hooks)).run []).run s = ((result, trace), s') ∧
      (generate rules base hooks).run s = (result, s') ∧
      match prepare rules base with
      | .error e => result = .error e ∧ trace = [] ∧ s' = s
      | .ok generated =>
        settle rules.declarations = .ok generated.tokens ∧
        Tables.build generated.tokens rules.macros.installPrelude rules.options.minimize =
          .ok ⟨generated.tables, generated.warnings⟩ ∧
        generated.artifacts = emit base generated.tables generated.tokens rules.options ∧
        ∃ told, HookDiscipline generated.tokens (hooks.map Hook.name) trace told ∧
          result = (told.map fun _ => generated).mapError .hook := by
  refine ⟨fun tokens => ?_, fun rules base => ?_⟩
  · obtain ⟨result, trace, s', run, disciplined⟩ := exists_watches_runHooks tokens hooks s
    exact ⟨result, trace, s', run.watched [], run.plain, disciplined⟩
  · obtain ⟨result, trace, s', run, called⟩ := exists_watches_generate rules base hooks s
    refine ⟨result, trace, s', run.watched [], run.plain, ?_⟩
    cases prepared : prepare rules base with
    | error e =>
      rw [prepared] at called
      exact called
    | ok generated =>
      obtain ⟨_, settled, built, artifacts⟩ := prepare_eq_ok_iff.1 prepared
      rw [prepared] at called
      exact ⟨settled, built, artifacts, called⟩

/-- The second of three hooks refuses the tokens: the first two are closed all the same, and the third
is not called. -/
example :
    let hook (name : String) (refuses : HookCall → Bool) : Hook (StateM Unit) :=
      ⟨name, fun call => pure (if refuses call then .error .notOpen else .ok ())⟩
    let hooks := [hook "a" fun _ => false, hook "b" (· == .tokens ⟨[]⟩), hook "c" fun _ => false]
    let run := ((runHooks (watchedFrom 0 hooks) ⟨[]⟩).run []).run ()
    run.1.1 = .error ⟨"b", .notOpen⟩ ∧
      run.1.2.map (fun e => (e.request.name, e.request.call)) =
        [("a", .opening), ("a", .tokens ⟨[]⟩), ("a", .tokenIds []), ("b", .opening),
         ("b", .tokens ⟨[]⟩), ("a", .closing), ("b", .closing)] := by
  decide

end ScannerGen
