import ScannerGen.Proofs.Pattern.Inlining

/-!
# Expanding macros

A pattern is read with the fragments of macros expanded inside each other.  This module compares
readers that expand references in different ways.

* `FirstStep` — what a reader does first with the lexemes that are left, told apart from what
  references expand to.  Statements about whole readings follow from it by induction over the lexemes.
* `error_of_assemble` — where an error comes from.
* `CarriesOver`, `assemble_carriesOver` — readers whose references expand to the same trees, and to the
  same errors as far as these matter, have the same outcome in this sense.
* `parseNested` — a reader that gives up when fragments are nested too deep; `parseNested_eq_parse` says
  that one level for the pattern and one for each macro are enough.
* `MacroTable.KeptIn` — every definition of a table is one of another; `parse_of_keptIn` says that
  further definitions change nothing unless a name was unknown.
-/

namespace ScannerGen

namespace Pattern

/-! ## Single steps -/

/-- What a reader does first with the lexemes that are left.  References apart it does not depend on
what references expand to. -/
inductive FirstStep (whole : List UInt8) (level : Level) (outer : List Level) : List Placed → Prop
  | accepts (tree : Pattern)
    (accepted : ∀ {ε : Type} (expand : String → Except ε Pattern) (refuse : Located → ε),
      assemble expand refuse whole level outer [] = .ok tree) : FirstStep whole level outer []
  | refuses {placed : List Placed} (located : Located)
    (refused : ∀ {ε : Type} (expand : String → Except ε Pattern) (refuse : Located → ε),
      assemble expand refuse whole level outer placed = .error (refuse located)) :
    FirstStep whole level outer placed
  | reference {name : String} {suffix : List UInt8} {more : List Placed} :
    FirstStep whole level outer (⟨.reference name, suffix⟩ :: more)
  | advances {p : Placed} {more : List Placed} (level' : Level) (outer' : List Level)
    (advanced : ∀ {ε : Type} (expand : String → Except ε Pattern) (refuse : Located → ε),
      assemble expand refuse whole level outer (p :: more) =
        assemble expand refuse whole level' outer' more) : FirstStep whole level outer (p :: more)

theorem firstStep_nil (whole : List UInt8) (level : Level) (outer : List Level) :
    FirstStep whole level outer [] := by
  by_cases noOperand : level.last.isNone = true
  · refine .refuses ⟨.expectedExpression, []⟩ fun expand refuse => ?_
    rw [assemble, if_pos noOperand]
  · by_cases inside : outer ≠ []
    · refine .refuses ⟨.unbalancedOpen, level.opened⟩ fun expand refuse => ?_
      rw [assemble, if_neg noOperand, if_pos inside]
    · cases checked : bounded level.result whole with
      | error located =>
        refine .refuses located fun expand refuse => ?_
        rw [assemble, if_neg noOperand, if_neg inside, checked]
        rfl
      | ok tree =>
        refine .accepts tree fun expand refuse => ?_
        rw [assemble, if_neg noOperand, if_neg inside, checked]
        rfl

theorem firstStep_cons (whole : List UInt8) (level : Level) (outer : List Level) (p : Placed)
    (more : List Placed) : FirstStep whole level outer (p :: more) := by
  obtain ⟨l, suffix⟩ := p
  cases l with
  | operand tree => exact .advances _ _ fun expand refuse => rfl
  | reference name => exact .reference
  | times sign min max =>
    cases last : level.last with
    | none =>
      refine .refuses ⟨.nothingToRepeat sign, suffix⟩ fun expand refuse => ?_
      rw [assemble, last]
    | some operand =>
      cases checked : bounded (.rep operand min max) suffix with
      | error located =>
        refine .refuses located fun expand refuse => ?_
        rw [assemble, last]
        simp only [checked]
      | ok tree =>
        refine .advances { level with last := some tree } outer fun expand refuse => ?_
        rw [assemble, last]
        simp only [checked]
  | bar =>
    by_cases noOperand : level.last.isNone = true
    · refine .refuses ⟨.expectedExpression, suffix⟩ fun expand refuse => ?_
      rw [assemble, if_pos noOperand]
    · refine .advances level.nextBranch outer fun expand refuse => ?_
      rw [assemble, if_neg noOperand]
  | opening => exact .advances _ _ fun expand refuse => rfl
  | closing =>
    by_cases noOperand : level.last.isNone = true
    · refine .refuses ⟨.expectedExpression, suffix⟩ fun expand refuse => ?_
      cases outer <;> rw [assemble, if_pos noOperand]
    · cases outer with
      | nil =>
        refine .refuses ⟨.unbalancedClose, suffix⟩ fun expand refuse => ?_
        rw [assemble, if_neg noOperand]
      | cons enclosing others =>
        refine .advances (enclosing.push level.result) others fun expand refuse => ?_
        rw [assemble, if_neg noOperand]
  | fault fault => exact .refuses ⟨fault, suffix⟩ fun expand refuse => rfl

section Assembly

variable {ε : Type} {expand : String → Except ε Pattern} {refuse : Located → ε}
  {whole : List UInt8} {level : Level} {outer : List Level}

theorem assemble_reference (name : String) (suffix : List UInt8) (more : List Placed) :
    assemble expand refuse whole level outer (⟨.reference name, suffix⟩ :: more) =
      (expand name).bind fun tree =>
        assemble expand refuse whole (level.push tree) outer more := by
  rw [assemble]
  cases expand name <;> rfl

/-- An error of the reader is a refusal, or the error of a reference. -/
theorem error_of_assemble {placed : List Placed} {e : ε}
    (failed : assemble expand refuse whole level outer placed = .error e) :
    (∃ located, refuse located = e) ∨
      ∃ name suffix, ⟨.reference name, suffix⟩ ∈ placed ∧ expand name = .error e := by
  induction placed generalizing level outer with
  | nil =>
    cases firstStep_nil whole level outer with
    | accepts tree accepted =>
      rw [accepted] at failed
      cases failed
    | refuses located refused =>
      rw [refused] at failed
      exact .inl ⟨located, Except.error.inj failed⟩
  | cons p more ih =>
    have later : ∀ {level outer}, assemble expand refuse whole level outer more = .error e →
        (∃ located, refuse located = e) ∨
          ∃ name suffix, ⟨.reference name, suffix⟩ ∈ p :: more ∧ expand name = .error e := by
      intro level outer failed
      refine (ih failed).imp_right fun ⟨name, suffix, member, unexpanded⟩ => ?_
      exact ⟨name, suffix, List.mem_cons_of_mem p member, unexpanded⟩
    cases firstStep_cons whole level outer p more with
    | refuses located refused =>
      rw [refused] at failed
      exact .inl ⟨located, Except.error.inj failed⟩
    | @reference name suffix _ =>
      rw [assemble_reference] at failed
      cases expanded : expand name with
      | error e' =>
        rw [expanded] at failed
        exact .inr ⟨name, suffix, List.mem_cons_self, expanded.trans failed⟩
      | ok tree =>
        rw [expanded] at failed
        exact later failed
    | advances level' outer' advanced =>
      rw [advanced] at failed
      exact later failed

end Assembly

/-! ## Outcomes that are carried over -/

/-- A second outcome carries a first one over.  What was accepted is accepted with the same result, and
an error that has a translation becomes that; of an error without one nothing is asked. -/
def CarriesOver {ε ε' α : Type} (translate : ε → Option ε') (first : Except ε α)
    (second : Except ε' α) : Prop :=
  match first with
  | .ok result => second = .ok result
  | .error e => ∀ e' ∈ translate e, second = .error e'

theorem carriesOver_error {ε ε' α : Type} {translate : ε → Option ε'} {e : ε} {e' : ε'}
    (translated : translate e = some e') : CarriesOver (α := α) translate (.error e) (.error e') := by
  intro e'' member
  rw [translated] at member
  rw [Option.some.inj member]

theorem CarriesOver.bind {ε ε' α β : Type} {translate : ε → Option ε'} {first : Except ε α}
    {second : Except ε' α} {f : α → Except ε β} {g : α → Except ε' β}
    (carried : CarriesOver translate first second)
    (each : ∀ a, CarriesOver translate (f a) (g a)) :
    CarriesOver translate (first.bind f) (second.bind g) := by
  cases first with
  | ok a =>
    rw [show second = .ok a from carried]
    exact each a
  | error e =>
    intro e' translated
    rw [show second = .error e' from carried e' translated]
    rfl

/-- Lexemes are assembled to outcomes that carry each other over, if references are expanded to such
outcomes and faults have translations. -/
theorem assemble_carriesOver {ε ε' : Type} {translate : ε → Option ε'}
    {expand : String → Except ε Pattern} {expand' : String → Except ε' Pattern}
    {refuse : Located → ε} {refuse' : Located → ε'}
    (expands : ∀ name, CarriesOver translate (expand name) (expand' name))
    (refuses : ∀ located, translate (refuse located) = some (refuse' located)) (whole : List UInt8)
    (level : Level) (outer : List Level) (placed : List Placed) :
    CarriesOver translate (assemble expand refuse whole level outer placed)
      (assemble expand' refuse' whole level outer placed) := by
  -- Both have read the same lexemes to the same levels, so they do the same next.
  induction placed generalizing level outer with
  | nil =>
    cases firstStep_nil whole level outer with
    | accepts tree accepted =>
      rw [accepted, accepted]
      exact rfl
    | refuses located refused =>
      rw [refused, refused]
      exact carriesOver_error (refuses located)
  | cons p more ih =>
    cases firstStep_cons whole level outer p more with
    | refuses located refused =>
      rw [refused, refused]
      exact carriesOver_error (refuses located)
    | reference =>
      rw [assemble_reference, assemble_reference]
      exact (expands _).bind fun tree => ih _ _
    | advances level' outer' advanced =>
      rw [advanced, advanced]
      exact ih _ _

variable {macros macros' : MacroTable}

/-! ## Bounded nesting -/

/-- Reads a text as `parseFragment` does, with at most `depth` texts open at once: the text itself, the
fragment that is expanded in it, and so on.  The error is `none` where more would have to be open. -/
def parseNested (macros : MacroTable) :
    Nat → List String → Owner → String → Except (Option Error) Pattern
  | 0, _, _, _ => .error none
  | depth + 1, chain, owner, source =>
    if utf8 source = [] then .error (some (.invalid owner 0 .emptyPattern))
    else
      assemble (fun name =>
          if chain.contains name then .error (some (.cyclic (chain ++ [name])))
          else
            match macros.find? name with
            | none => .error (some (.unknownName name owner))
            | some m =>
              parseNested macros depth (chain ++ [name]) (.fragment m.name m.origin) m.fragment)
        (fun located => some (located.toError owner (utf8 source))) (utf8 source) (.fresh []) []
        (lexemes false (utf8 source))

/-- Reading never nests deeper than there are macros that are not being expanded. -/
theorem parseNested_carriesOver {depth : Nat} {chain : List String}
    (enough : macros.countOutside chain < depth) (owner : Owner) (source : String) :
    CarriesOver (fun e => some (some e)) (parseFragment macros chain owner source)
      (parseNested macros depth chain owner source) := by
  induction depth generalizing chain owner source with
  | zero => exact absurd enough (Nat.not_lt_zero _)
  | succ depth ih =>
    rw [parseFragment_eq, parseNested]
    split
    · exact carriesOver_error rfl
    · rw [advance]
      apply assemble_carriesOver
      · intro name
        rw [expansion]
        split
        · exact carriesOver_error rfl
        · next fresh =>
          cases defined : macros.find? name with
          | none => exact carriesOver_error rfl
          | some m =>
            have fewer :=
              MacroTable.countOutside_append_lt defined (Bool.eq_false_of_not_eq_true fresh)
            exact ih (Nat.lt_of_lt_of_le fewer (Nat.le_of_lt_succ enough)) _ _
      · exact fun _ => rfl

/-- One level for the pattern and one for every macro are enough. -/
theorem parseNested_eq_parse (macros : MacroTable) (owner : Owner) (source : String) :
    parseNested macros (macros.size + 1) [] owner source =
      (parse macros owner source).mapError some := by
  have enough : macros.countOutside [] < macros.size + 1 :=
    Nat.lt_succ_of_le List.countP_le_length
  have carried : CarriesOver _ (parse macros owner source) _ :=
    parseNested_carriesOver enough owner source
  cases read : parse macros owner source with
  | error e =>
    rw [read] at carried
    exact carried (some e) rfl
  | ok tree =>
    rw [read] at carried
    exact carried

end Pattern

/-! ## Further definitions -/

namespace MacroTable

/-- Every definition of a table is one of another table, unchanged. -/
def KeptIn (table table' : MacroTable) : Prop :=
  ∀ name m, table.find? name = some m → table'.find? name = some m

theorem KeptIn.refl (table : MacroTable) : table.KeptIn table := fun _ _ defined => defined

theorem KeptIn.trans {table₁ table₂ table₃ : MacroTable} (first : table₁.KeptIn table₂)
    (second : table₂.KeptIn table₃) : table₁.KeptIn table₃ :=
  fun name m defined => second name m (first name m defined)

theorem keptIn_push (table : MacroTable) (m : Macro) : table.KeptIn (table.push m) := by
  intro name found defined
  rw [find?] at defined
  rw [find?, push, List.find?_append, defined, Option.some_or]

theorem keptIn_define {table table' : MacroTable} {name fragment : String} {origin : Origin}
    (defined : table.define name fragment origin = .ok table') : table.KeptIn table' := by
  rw [define] at defined
  split at defined
  · cases defined
  · rw [← Except.ok.inj defined]
    exact table.keptIn_push _

theorem keptIn_addIfFree (table : MacroTable) (entry : String × String) :
    table.KeptIn (table.addIfFree entry) := by
  rw [addIfFree]
  split
  · exact .refl table
  · exact table.keptIn_push _

theorem keptIn_installPrelude (table : MacroTable) : table.KeptIn table.installPrelude := by
  rw [installPrelude]
  generalize builtin = entries
  induction entries generalizing table with
  | nil => exact .refl table
  | cons entry entries ih => exact (table.keptIn_addIfFree entry).trans (ih _)

end MacroTable

namespace Pattern

/-- The errors that no further definition can repair: all but those of unknown names. -/
def lasting : Error → Option Error
  | .unknownName _ _ => none
  | .invalid owner position fault => some (.invalid owner position fault)
  | .cyclic chain => some (.cyclic chain)

theorem parseFragment_carriesOver (kept : macros.KeptIn macros') (chain : List String)
    (owner : Owner) (source : String) :
    CarriesOver lasting (parseFragment macros chain owner source)
      (parseFragment macros' chain owner source) := by
  induction chain using chain_induct macros generalizing owner source with
  | extend chain ih =>
    rw [parseFragment_eq, parseFragment_eq]
    split
    · exact carriesOver_error rfl
    · rw [advance, advance]
      apply assemble_carriesOver
      · intro name
        rw [expansion, expansion]
        split
        · exact carriesOver_error rfl
        · next fresh =>
          cases defined : macros.find? name with
          | none => exact fun _ absent => absurd absent (Option.not_mem_none _)
          | some m =>
            rw [kept name m defined]
            exact ih name m (mt List.contains_iff_mem.2 fresh) defined _ _
      · exact fun _ => rfl

/-- Where no name is unknown, further definitions leave the tree or the error as it is, whether they
come with another table, one by one or as the built-in macros. -/
theorem parse_of_keptIn (macros : MacroTable) (owner : Owner) (source : String)
    (known : ∀ name referrer, parse macros owner source ≠ .error (.unknownName name referrer)) :
    (∀ macros', macros.KeptIn macros' → parse macros' owner source = parse macros owner source) ∧
    (∀ name fragment origin macros', macros.define name fragment origin = .ok macros' →
      parse macros' owner source = parse macros owner source) ∧
    parse macros.installPrelude owner source = parse macros owner source := by
  have unchanged : ∀ macros', macros.KeptIn macros' →
      parse macros' owner source = parse macros owner source := by
    intro macros' kept
    have carried : CarriesOver lasting (parse macros owner source) (parse macros' owner source) :=
      parseFragment_carriesOver kept [] owner source
    cases read : parse macros owner source with
    | ok tree =>
      rw [read] at carried
      exact carried
    | error e =>
      rw [read] at carried known
      cases e with
      | unknownName name referrer => exact absurd rfl (known name referrer)
      | invalid _ _ _ | cyclic _ => exact carried _ rfl
  exact ⟨unchanged, fun _ _ _ _ defined => unchanged _ (MacroTable.keptIn_define defined),
    unchanged _ macros.keptIn_installPrelude⟩

/-- A macro with the name of a built-in one. -/
def binaryMacros : MacroTable := ⟨[⟨"D", "0|1", .api⟩]⟩

/-- The built-in macros leave the fault behind the digits where it is. -/
theorem parse_of_keptIn_binary :
    (∀ name referrer, parse binaryMacros (.named "unit") "\x7bD\x7d)" ≠
        .error (.unknownName name referrer)) ∧
      parse binaryMacros.installPrelude (.named "unit") "\x7bD\x7d)" =
        .error (.invalid (.named "unit") 3 .unbalancedClose) := by
  have refused : parse binaryMacros (.named "unit") "\x7bD\x7d)" =
      .error (.invalid (.named "unit") 3 .unbalancedClose) := by cbv
  have known : ∀ name referrer, parse binaryMacros (.named "unit") "\x7bD\x7d)" ≠
      .error (.unknownName name referrer) := by
    intro name referrer unknown
    rw [refused] at unknown
    cases unknown
  exact ⟨known, (parse_of_keptIn _ _ _ known).2.2.trans refused⟩

end Pattern

end ScannerGen
