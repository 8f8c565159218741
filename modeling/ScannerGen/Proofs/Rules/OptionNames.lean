import ScannerGen.Proofs.Options.Calls
import ScannerGen.Rules.Document

/-!
# Options of documents

The name of an option is looked up when a value is set or added.  A document does that once for each
value that it gives, so an option with an empty list is never looked up, and any name passes.

* `RuleSet.mem_optionNames_of_setOption`, `RuleSet.mem_listOptionNames_of_addOption` — what a call that
  succeeds says of the name.
* `Rules.Document.known_of_applyOption` — an option that is carried out is known or an empty list.
* `Rules.knownOptions_iff` — the options of an accepted document are known unless one is an empty list.
-/

namespace ScannerGen

/-! ## Names -/

/-- The words for options. -/
def optionNames : List String :=
  ["lineno", "reentrant", "minimize", "prefix", "l_header", "l_footer", "h_header", "h_footer",
    "extra", "flexopt"]

/-- The words for options that are lists. -/
def listOptionNames : List String := ["extra", "flexopt"]

theorem OptionKey.name_mem_optionNames (key : OptionKey) : key.name ∈ optionNames := by
  cases key <;> decide

namespace RuleSet

variable {rules next : RuleSet} {name value : String} {origin : Origin}

theorem mem_optionNames_of_setOption (succeeded : rules.setOption name value origin = .ok next) :
    name ∈ optionNames := by
  rw [setOption] at succeeded
  split at succeeded
  · next options performed =>
    obtain ⟨key, named, _⟩ :=
      Options.exists_key_of_perform ⟨.set, name, value, origin⟩ performed
    obtain rfl : name = key.name := named
    exact key.name_mem_optionNames
  · cases succeeded

theorem mem_listOptionNames_of_addOption (succeeded : rules.addOption name value origin = .ok next) :
    name ∈ listOptionNames := by
  rw [addOption] at succeeded
  split at succeeded
  · next options performed =>
    obtain ⟨key, named, isList⟩ :=
      Options.exists_key_of_perform ⟨.add, name, value, origin⟩ performed
    obtain rfl : name = key.name := named
    rcases isList rfl with rfl | rfl <;> decide
  · cases succeeded

end RuleSet

theorem listOptionNames_subset : listOptionNames ⊆ optionNames := by decide

/-! ## Documents -/

namespace Rules

namespace Document

open Json (Value)

/-- An option with a name that there is; for a list, the name of an option that is a list. -/
def Known (entry : String × Value) : Prop :=
  entry.1 ∈ optionNames ∧ ∀ values, entry.2 = .list values → entry.1 ∈ listOptionNames

variable {rules next : RuleSet} {entry : String × Value}

theorem known_of_applyOption (applied : applyOption rules entry = .ok next) :
    entry.2 = .list [] ∨ Known entry := by
  obtain ⟨name, value⟩ := entry
  cases value with
  | list values =>
    cases values with
    | nil => exact .inl rfl
    | cons first others =>
      -- The first element has been added, and that has looked the name up.
      simp only [applyOption, List.foldlM_cons] at applied
      obtain ⟨between, added, _⟩ := exists_of_bind_eq_ok applied
      obtain ⟨text, _, added⟩ := exists_of_bind_eq_ok added
      have isList := RuleSet.mem_listOptionNames_of_addOption added
      exact .inr ⟨listOptionNames_subset isList, fun _ _ => isList⟩
  | _ =>
    obtain ⟨text, _, set⟩ := exists_of_bind_eq_ok applied
    exact .inr ⟨RuleSet.mem_optionNames_of_setOption set, nofun⟩

theorem foldlM_known {entries : List (String × Value)}
    (applied : entries.foldlM applyOption rules = .ok next) :
    ∀ entry ∈ entries, entry.2 = .list [] ∨ Known entry := by
  induction entries generalizing rules with
  | nil => exact fun _ absent => absurd absent List.not_mem_nil
  | cons entry entries ih =>
    rw [List.foldlM_cons] at applied
    obtain ⟨between, first, others⟩ := exists_of_bind_eq_ok applied
    exact List.forall_mem_cons.2 ⟨known_of_applyOption first, ih others⟩

/-- An empty list does nothing, whatever its name. -/
theorem foldlM_emptyList (front back : List (String × Value)) (name : String) (rules : RuleSet) :
    (front ++ (name, .list []) :: back).foldlM applyOption rules =
      (front ++ back).foldlM applyOption rules := by
  rw [List.foldlM_append, List.foldlM_append]
  exact bind_congr fun _ => rfl

end Document

/-- The options of a document that is accepted are known, except that the name of an empty list may be
any name; and without the empty list the document gives the same rules. -/
theorem knownOptions_iff {text : String} {doc : Document} {rules : RuleSet}
    (read : Document.read text = .ok doc) (accepted : ofJson text = .ok rules) :
    ((∀ entry ∈ doc.options, Document.Known entry) ↔
      ∀ entry ∈ doc.options, entry.2 = .list [] → entry.1 ∈ listOptionNames) ∧
    ∀ front name back, doc.options = front ++ (name, .list []) :: back →
      { doc with options := front ++ back }.toRules = .ok rules := by
  have carried : doc.toRules = .ok rules := by
    rw [ofJson, read] at accepted
    exact accepted
  obtain ⟨afterOptions, applied, _⟩ := exists_of_bind_eq_ok carried
  refine ⟨⟨fun known entry among empty => (known entry among).2 [] empty, ?_⟩, ?_⟩
  · intro named entry among
    rcases Document.foldlM_known applied entry among with empty | known
    · have isList := named entry among empty
      exact ⟨listOptionNames_subset isList, fun _ _ => isList⟩
    · exact known
  · intro front name back split
    rw [Document.toRules, split, Document.foldlM_emptyList] at carried
    exact carried

/-- A list with one element. -/
def oneFlag : String := "\x7b\"options\":\x7b\"flexopt\":[\"x\"]\x7d\x7d"

theorem knownOptions_iff_oneFlag :
    ∃ doc rules, Document.read oneFlag = .ok doc ∧ ofJson oneFlag = .ok rules ∧
      ∀ entry ∈ doc.options, Document.Known entry := by
  have read : Document.read oneFlag = .ok ⟨[("flexopt", .list [.string "x"])], [], []⟩ := by
    with_unfolding_all rfl
  have accepted : ofJson oneFlag =
      .ok { RuleSet.empty with options := { Options.default with flags := ["x"] } } := by
    rw [ofJson, read]
    rfl
  refine ⟨_, _, read, accepted, (knownOptions_iff read accepted).1.2 ?_⟩
  exact List.forall_mem_singleton.2 nofun

/-- An option that there is not, with nothing in it. -/
def emptyUnknown : String := "\x7b\"options\":\x7b\"colour\":[]\x7d\x7d"

theorem emptyUnknown_accepted :
    ∃ doc, Document.read emptyUnknown = .ok doc ∧ ofJson emptyUnknown = .ok RuleSet.empty ∧
      ¬ ∀ entry ∈ doc.options, Document.Known entry := by
  have read : Document.read emptyUnknown = .ok ⟨[("colour", .list [])], [], []⟩ := by
    with_unfolding_all rfl
  refine ⟨_, read, ?_, fun known => ?_⟩
  · rw [ofJson, read]
    rfl
  · exact absurd (known _ (List.mem_singleton_self _)).1 (by decide)

end Rules

end ScannerGen
