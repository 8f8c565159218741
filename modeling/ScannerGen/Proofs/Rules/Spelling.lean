import Mathlib
import ScannerGen.Proofs.Rules.Document
import ScannerGen.Proofs.Rules.Origins
import ScannerGen.Proofs.Rules.Statement
import ScannerGen.Proofs.Text.Decimal
import ScannerGen.Rules.Text

/-!
# Documents as rule texts

A rule document and a rule text are two spellings of one format: a document can be written as a text,
line by line, and both give the same rule set or the same error, up to the lines of the text.

* `Document.SpelledBy` — the lines that a document is written as.
* `tokenDeclaration_tokenLine` — the modifiers of a token may stand in any order.
* `Performs` — a line that does what an operation does.
* `Document.toRules_eq` — a document is carried out by one operation for each of its lines.
* `ofText_linesText_agrees` — the text and the document agree.
-/

namespace ScannerGen.Rules

open RuleSet (Alike)

/-! ## Lines of a document -/

/-- A keyword with two texts behind it. -/
def commandLine (keyword first second : String) : List Argument :=
  [⟨keyword, true⟩, ⟨first, false⟩, ⟨second, false⟩]

/-- The lines of an option: one that sets it, or one for each element that is added. -/
def optionLines : String × Json.Value → List (List Argument)
  | (name, .list values) => (values.filterMap Document.scalar?).map (commandLine "add" name)
  | (name, value) => (Document.scalar? value).toList.map (commandLine "set" name)

/-- What may stand behind the category of a token. -/
inductive Modifier where
  | ident (name : String)
  | id (number : Nat)
  | ignore
  | action (code : String)
  deriving DecidableEq, Repr

def Modifier.arguments : Modifier → List Argument
  | .ident name => [⟨name, false⟩]
  | .id number => [⟨"id", true⟩, ⟨toString number, true⟩]
  | .ignore => [⟨"ignore", true⟩]
  | .action code => [⟨"action", true⟩, ⟨code, false⟩]

/-- What a token has beyond its pattern and category. -/
def modifiers (d : Declaration) : List Modifier :=
  d.ident.toList.map .ident ++ d.id.toList.map .id ++ (if d.ignored then [.ignore] else []) ++
    d.action.toList.map .action

/-- The pattern of a token; where there is none, a bare word. -/
def patternArgument : Option String → Argument
  | none => ⟨"nil", true⟩
  | some pattern => ⟨pattern, false⟩

def tokenLine (d : Declaration) (order : List Modifier) : List Argument :=
  ⟨"token", true⟩ :: patternArgument d.pattern :: ⟨d.category.name, true⟩ ::
    order.flatMap Modifier.arguments

/-- A line of a token has its modifiers in any order. -/
def TokenLine (d : Declaration) (line : List Argument) : Prop :=
  ∃ order, order.Perm (modifiers d) ∧ line = tokenLine d order

namespace Document

/-- A scalar or a list of scalars. -/
def OfScalars : Json.Value → Prop
  | .list values => ∀ value ∈ values, (scalar? value).isSome
  | value => (scalar? value).isSome

/-- The lines of a document: its options in the order of the bytes of their names, its macros and its
tokens. -/
def SpelledBy (doc : Document) (lines : List (List Argument)) : Prop :=
  ∃ (options : List (String × Json.Value)) (tokenLines : List (List Argument)),
    options.Perm doc.options ∧ options.Pairwise (fun entry other => utf8 entry.1 < utf8 other.1) ∧
    List.Forall₂ TokenLine doc.tokens tokenLines ∧
    lines = options.flatMap optionLines ++
      (doc.macros.map fun entry => commandLine "macro" entry.1 entry.2) ++ tokenLines

end Document

/-! ## Ids -/

theorem idNumber?_toString {n : Nat} (word : n ≤ 0xffffffff) : idNumber? (toString n) = some n := by
  have digits := isDigitChar_toString n
  have value := foldl_toString n
  have nonempty : (toString n).toList.isEmpty = false :=
    List.isEmpty_eq_false_iff.2 (toList_toString_ne_nil n)
  simp only [idNumber?]
  split
  · -- A digit is no plus sign.
    next rest listed =>
    rw [listed, List.all_cons] at digits
    exact absurd (Bool.and_eq_true_iff.1 digits).1 (by decide)
  · simp only [digits, nonempty, value, Bool.not_true, Bool.or_false, Nat.not_lt_of_le word,
      decide_false, Bool.false_eq_true, if_false]

/-! ## Modifiers -/

/-- What a modifier changes in a declaration. -/
def Modifier.apply (d : Declaration) : Modifier → Declaration
  | .ident name => { d with ident := some name }
  | .id number => { d with id := some number }
  | .ignore => { d with ignored := true }
  | .action code => { d with action := some code }

theorem mem_modifiers {d : Declaration} {m : Modifier} :
    m ∈ modifiers d ↔
      match m with
      | .ident name => d.ident = some name
      | .id number => d.id = some number
      | .ignore => d.ignored = true
      | .action code => d.action = some code := by
  cases m <;> simp [modifiers]

def Modifier.isIdent : Modifier → Bool
  | .ident _ => true
  | _ => false

/-- A token is named at most once. -/
theorem tokenModifiers_flatMap {order : List Modifier} (words : ∀ n, .id n ∈ order → n ≤ 0xffffffff)
    {d : Declaration} (once : order.countP Modifier.isIdent + d.ident.toList.length ≤ 1) :
    tokenModifiers d (order.flatMap Modifier.arguments) = .ok (order.foldl Modifier.apply d) := by
  induction order generalizing d with
  | nil => rfl
  | cons m order ih =>
    have others : ∀ n, .id n ∈ order → n ≤ 0xffffffff := fun n member =>
      words n (List.mem_cons_of_mem _ member)
    rw [List.countP_cons] at once
    rw [List.flatMap_cons, List.foldl_cons]
    cases m with
    | ident name =>
      -- A text that is no keyword is the identifier as long as there is none.
      simp only [Modifier.isIdent, if_true] at once
      have unnamed : d.ident = none := by
        rw [← Option.toList_eq_nil_iff, ← List.length_eq_zero_iff]
        omega
      rw [Modifier.arguments, List.singleton_append, tokenModifiers, if_pos (by rw [unnamed]; rfl)]
      · refine ih others ?_
        show _ + 1 ≤ 1
        omega
      all_goals simp
    | id number =>
      have read := idNumber?_toString (words number List.mem_cons_self)
      simp only [Modifier.arguments, List.cons_append, List.nil_append, tokenModifiers, read]
      exact ih others once
    | ignore => exact ih others once
    | action code => exact ih others once

theorem countP_modifiers (d : Declaration) :
    (modifiers d).countP Modifier.isIdent = d.ident.toList.length := by
  obtain ⟨pattern, category, ident, id, action, ignored, origin⟩ := d
  cases ident <;> cases id <;> cases action <;> cases ignored <;> rfl

/-- Modifiers of one declaration change different things, so their order makes no difference. -/
theorem foldl_apply_eq {d : Declaration} {order : List Modifier} (perm : order.Perm (modifiers d))
    (initial : Declaration) :
    order.foldl Modifier.apply initial = (modifiers d).foldl Modifier.apply initial := by
  refine perm.foldl_eq' (fun m inside m' inside' d' => ?_) initial
  have given := mem_modifiers.1 (perm.mem_iff.1 inside)
  have given' := mem_modifiers.1 (perm.mem_iff.1 inside')
  -- Two modifiers of one kind are the same, since both are what the declaration has.
  cases m <;> cases m' <;> simp_all [Modifier.apply]

theorem foldl_apply_modifiers (d : Declaration) (origin : Origin) :
    (modifiers d).foldl Modifier.apply (.ofCategory d.category d.pattern origin) =
      { d with origin } := by
  obtain ⟨pattern, category, ident, id, action, ignored, place⟩ := d
  cases ident <;> cases id <;> cases action <;> cases ignored <;> rfl

theorem ofName?_name (c : Category) : Category.ofName? c.name = some c := by
  cases c <;> decide

/-- The declaration of a line is that of the document. -/
theorem tokenDeclaration_tokenLine {d : Declaration} (word : Document.HasWordId d)
    {order : List Modifier} (perm : order.Perm (modifiers d)) (origin : Origin) :
    tokenDeclaration origin (tokenLine d order).tail = .ok { d with origin } := by
  have pattern : (if (patternArgument d.pattern).bare && (patternArgument d.pattern).text == "nil"
      then none else some (patternArgument d.pattern).text) = d.pattern := by
    cases d.pattern <;> rfl
  have words : ∀ n, .id n ∈ order → n ≤ 0xffffffff := fun n member =>
    word n (mem_modifiers.1 (perm.mem_iff.1 member))
  have once : order.countP Modifier.isIdent ≤ 1 := by
    rw [perm.countP_eq, countP_modifiers]
    cases d.ident <;> simp
  simp only [tokenLine, List.tail_cons, tokenDeclaration, ofName?_name, pattern]
  rw [tokenModifiers_flatMap (d := .ofCategory d.category d.pattern origin) words once,
    foldl_apply_eq perm, foldl_apply_modifiers]

/-! ## Operations -/

/-- A line does what an operation does, up to places, whatever line it stands on. -/
def Performs (arguments : List Argument) (operation : RuleSet → Except RuleError RuleSet) : Prop :=
  ∀ line rules rules', Alike rules rules' →
    AgreeUpToPlaces (perform rules ⟨line, arguments⟩) (operation rules')

theorem performs_set (name value : String) :
    Performs (commandLine "set" name value) fun rules => rules.setOption name value .api :=
  fun line _ _ alike => alike.setOption name value (.atLine line) .api

theorem performs_add (name value : String) :
    Performs (commandLine "add" name value) fun rules => rules.addOption name value .api :=
  fun line _ _ alike => alike.addOption name value (.atLine line) .api

theorem performs_macro (name fragment : String) :
    Performs (commandLine "macro" name fragment) fun rules => rules.defineMacro name fragment .api :=
  fun line _ _ alike => alike.defineMacro name fragment (.atLine line) .api

theorem performs_token {d : Declaration} (word : Document.HasWordId d) {line : List Argument}
    (spelled : TokenLine d line) : Performs line fun rules => .ok (rules.declare d) := by
  obtain ⟨order, perm, rfl⟩ := spelled
  intro number rules rules' alike
  have declaration := tokenDeclaration_tokenLine word perm (.atLine number)
  rw [tokenLine, List.tail_cons] at declaration
  have same : ({ d with origin := .atLine number } : Declaration).unplaced = d.unplaced := rfl
  simp only [perform, tokenLine, declaration]
  exact (alike.declare same).agree

/-- What the lines of an option do. -/
def optionOperations : String × Json.Value → List (RuleSet → Except RuleError RuleSet)
  | (name, .list values) => (values.filterMap Document.scalar?).map fun value rules =>
      rules.addOption name value .api
  | (name, value) => (Document.scalar? value).toList.map fun value rules =>
      rules.setOption name value .api

theorem forall₂_performs {line : String → List Argument}
    {operation : String → RuleSet → Except RuleError RuleSet}
    (each : ∀ text, Performs (line text) (operation text)) (texts : List String) :
    List.Forall₂ Performs (texts.map line) (texts.map operation) := by
  rw [List.forall₂_map_left_iff, List.forall₂_map_right_iff, List.forall₂_same]
  exact fun text _ => each text

theorem forall₂_optionLines (entry : String × Json.Value) :
    List.Forall₂ Performs (optionLines entry) (optionOperations entry) := by
  obtain ⟨name, value⟩ := entry
  cases value with
  | list values => exact forall₂_performs (performs_add name) _
  | _ => exact forall₂_performs (performs_set name) _

/-- One operation after the other. -/
def runAll (operations : List (RuleSet → Except RuleError RuleSet)) (rules : RuleSet) :
    Except RuleError RuleSet :=
  operations.foldlM (fun rules operation => operation rules) rules

theorem runAll_append (front back : List (RuleSet → Except RuleError RuleSet)) (rules : RuleSet) :
    runAll (front ++ back) rules = runAll front rules >>= runAll back := by
  rw [runAll, List.foldlM_append]
  rfl

theorem runAll_map {α : Type} (operation : α → RuleSet → Except RuleError RuleSet) (as : List α)
    (rules : RuleSet) :
    runAll (as.map operation) rules = as.foldlM (fun rules a => operation a rules) rules := by
  rw [runAll, List.foldlM_map]

namespace Document

/-- What the lines of a document do. -/
def operations (doc : Document) : List (RuleSet → Except RuleError RuleSet) :=
  doc.options.flatMap optionOperations ++
    (doc.macros.map fun entry rules => rules.defineMacro entry.1 entry.2 .api) ++
    doc.tokens.map fun d rules => .ok (rules.declare d)

theorem foldlM_addOption {name : String} {values : List Json.Value}
    (scalars : ∀ value ∈ values, (scalar? value).isSome) (rules : RuleSet) :
    values.foldlM (fun rules value => do rules.addOption name (← scalar name value) .api) rules =
      (values.filterMap scalar?).foldlM (fun rules text => rules.addOption name text .api) rules := by
  induction values generalizing rules with
  | nil => rfl
  | cons value values ih =>
    obtain ⟨first, others⟩ := List.forall_mem_cons.1 scalars
    obtain ⟨text, given⟩ := Option.isSome_iff_exists.1 first
    have read : scalar name value = .ok text := by
      rw [scalar, given]
    rw [List.filterMap_cons, given, List.foldlM_cons, List.foldlM_cons, read]
    exact bind_congr fun rules => ih others rules

theorem applyOption_eq {entry : String × Json.Value} (scalars : OfScalars entry.2)
    (rules : RuleSet) : applyOption rules entry = runAll (optionOperations entry) rules := by
  obtain ⟨name, value⟩ := entry
  cases value with
  | list values =>
    rw [optionOperations, runAll_map]
    exact foldlM_addOption scalars rules
  | null | object _ => cases scalars
  | boolean _ | number _ | string _ => exact (bind_pure _).symm

theorem foldlM_applyOption {entries : List (String × Json.Value)}
    (scalars : ∀ entry ∈ entries, OfScalars entry.2) (rules : RuleSet) :
    entries.foldlM applyOption rules = runAll (entries.flatMap optionOperations) rules := by
  induction entries generalizing rules with
  | nil => rfl
  | cons entry entries ih =>
    obtain ⟨first, others⟩ := List.forall_mem_cons.1 scalars
    rw [List.foldlM_cons, List.flatMap_cons, runAll_append, applyOption_eq first]
    exact bind_congr fun rules => ih others rules

theorem foldlM_declare (ds : List Declaration) (rules : RuleSet) :
    ds.foldlM (fun rules d => Except.ok (rules.declare d)) rules =
      (.ok (ds.foldl RuleSet.declare rules) : Except RuleError RuleSet) := by
  induction ds generalizing rules with
  | nil => rfl
  | cons d ds ih => exact ih (rules.declare d)

/-- A document of scalars is carried out by the operations of its lines. -/
theorem toRules_eq {doc : Document} (scalars : ∀ entry ∈ doc.options, OfScalars entry.2) :
    doc.toRules = runAll doc.operations RuleSet.empty := by
  rw [toRules, operations, runAll_append, runAll_append, foldlM_applyOption scalars, bind_assoc]
  refine bind_congr fun rules => ?_
  rw [runAll_map]
  refine bind_congr fun rules => ?_
  rw [runAll_map, foldlM_declare]

/-- The lines of a document do what its operations do. -/
theorem performs_of_spelledBy {doc : Document} (wellFormed : doc.WellFormed)
    {lines : List (List Argument)} (spelled : doc.SpelledBy lines) :
    List.Forall₂ Performs lines doc.operations := by
  obtain ⟨options, tokenLines, perm, ascending, tokens, rfl⟩ := spelled
  -- There is one order of the options only.
  have sorted : doc.options.Pairwise fun entry other => utf8 entry.1 < utf8 other.1 :=
    wellFormed.ascending.imp utf8_lt_utf8
  have same : options = doc.options :=
    perm.eq_of_pairwise (fun entry other _ _ less greater => absurd less (List.lt_asymm greater))
      ascending sorted
  subst same
  refine List.rel_append (List.rel_append ?_ ?_) ?_
  · refine List.rel_flatMap (List.forall₂_same.2 fun entry _ => rfl) ?_
    rintro entry _ rfl
    exact forall₂_optionLines entry
  · rw [List.forall₂_map_left_iff, List.forall₂_map_right_iff, List.forall₂_same]
    exact fun entry _ => performs_macro entry.1 entry.2
  · rw [List.forall₂_map_right_iff]
    have each := (List.forall₂_and_left _ _).2 ⟨wellFormed.hasWordId, tokens⟩
    exact (each.imp fun d line both => performs_token both.1 both.2).flip

end Document

/-! ## Lines that can be read back -/

/-- A line with something in it, of which the bare words are words. -/
def IsLine (arguments : List Argument) : Prop := arguments ≠ [] ∧ ∀ a ∈ arguments, a.Plain

theorem plain_text (text : String) : Argument.Plain ⟨text, false⟩ := nofun

theorem plain_number (n : Nat) : Argument.Plain ⟨toString n, true⟩ := by
  have inWord : ∀ c, Ascii.isDigitChar c = true →
      Ascii.isBlankChar c = false ∧ c ≠ '\x22' ∧ c ≠ '#' ∧ c ≠ '\x7b' := by
    intro c digit
    refine ⟨?_, ?_, ?_, ?_⟩
    · rw [← Bool.not_eq_true]
      intro blank
      simp only [Ascii.isBlankChar, Bool.or_eq_true, beq_iff_eq] at blank
      rcases blank with (((rfl | rfl) | rfl) | rfl) | rfl <;> exact absurd digit (by decide)
    all_goals
      rintro rfl
      exact absurd digit (by decide)
  have digits := List.all_eq_true.1 (isDigitChar_toString n)
  exact fun _ => ⟨toList_toString_ne_nil n, fun c member => inWord c (digits c member)⟩

theorem isLine_commandLine {keyword : String} (isWord : IsWord keyword.toList)
    (first second : String) : IsLine (commandLine keyword first second) := by
  refine ⟨List.cons_ne_nil _ _, ?_⟩
  simp only [commandLine, List.forall_mem_cons]
  exact ⟨fun _ => isWord, plain_text first, plain_text second, nofun⟩

theorem isLine_of_mem_optionLines {entry : String × Json.Value} :
    ∀ line ∈ optionLines entry, IsLine line := by
  have lines {keyword : String} (isWord : IsWord keyword.toList) (name : String)
      (texts : List String) : ∀ line ∈ texts.map (commandLine keyword name), IsLine line :=
    List.forall_mem_map.2 fun text _ => isLine_commandLine isWord name text
  obtain ⟨name, value⟩ := entry
  cases value with
  | list values => exact lines (by decide) name _
  | _ => exact lines (by decide) name _

theorem isLine_tokenLine {d : Declaration} {line : List Argument} (spelled : TokenLine d line) :
    IsLine line := by
  obtain ⟨order, _, rfl⟩ := spelled
  refine ⟨List.cons_ne_nil _ _, ?_⟩
  simp only [tokenLine, List.forall_mem_cons]
  refine ⟨by decide, ?_, ?_, fun a member => ?_⟩
  · cases d.pattern with
    | none => exact fun _ => by decide
    | some pattern => exact plain_text pattern
  · cases d.category <;> decide
  · obtain ⟨m, _, inside⟩ := List.mem_flatMap.1 member
    cases m with
    | ident name =>
      obtain rfl := List.mem_singleton.1 inside
      exact plain_text name
    | id number =>
      simp only [Modifier.arguments, List.mem_cons, List.not_mem_nil, or_false] at inside
      rcases inside with rfl | rfl
      · exact fun _ => by decide
      · exact plain_number number
    | ignore =>
      obtain rfl := List.mem_singleton.1 inside
      exact fun _ => by decide
    | action code =>
      simp only [Modifier.arguments, List.mem_cons, List.not_mem_nil, or_false] at inside
      rcases inside with rfl | rfl
      · exact fun _ => by decide
      · exact plain_text code

theorem Document.isLine_of_spelledBy {doc : Document} {lines : List (List Argument)}
    (spelled : doc.SpelledBy lines) : ∀ line ∈ lines, IsLine line := by
  obtain ⟨options, tokenLines, _, _, tokens, rfl⟩ := spelled
  refine List.forall_mem_append.2 ⟨List.forall_mem_append.2 ⟨?_, ?_⟩, ?_⟩
  · intro line member
    obtain ⟨entry, _, inside⟩ := List.mem_flatMap.1 member
    exact isLine_of_mem_optionLines line inside
  · exact List.forall_mem_map.2 fun entry _ => isLine_commandLine (by decide) entry.1 entry.2
  · intro line member
    obtain ⟨length, each⟩ := List.forall₂_iff_get.1 tokens
    obtain ⟨i, rfl⟩ := List.mem_iff_get.1 member
    exact isLine_tokenLine (each i (length.symm ▸ i.isLt) i.isLt)

/-! ## Texts and documents -/

theorem Document.exists_spelledBy {doc : Document} (wellFormed : doc.WellFormed) :
    ∃ lines, doc.SpelledBy lines := by
  refine ⟨_, doc.options, doc.tokens.map fun d => tokenLine d (modifiers d), .refl _,
    wellFormed.ascending.imp utf8_lt_utf8, ?_, rfl⟩
  rw [List.forall₂_map_right_iff, List.forall₂_same]
  exact fun d _ => ⟨_, .refl _, rfl⟩

/-- A rule document whose option values are scalars or lists of scalars can be written as a rule
text, and each such text gives the same rule set as the document, or the same error, up to lines. -/
theorem ofText_linesText_agrees {text : String} {doc : Document}
    (accepted : Document.read text = .ok doc)
    (scalars : ∀ entry ∈ doc.options, Document.OfScalars entry.2) :
    (∃ lines, doc.SpelledBy lines) ∧
      ∀ lines, doc.SpelledBy lines →
        AgreeUpToPlaces (ofText (linesText lines)) (ofJson text) := by
  have wellFormed := Document.wellFormed_of_read accepted
  refine ⟨Document.exists_spelledBy wellFormed, fun lines spelled => ?_⟩
  -- The text is cut into statements with the arguments of the lines.
  have areLines := Document.isLine_of_spelledBy spelled
  obtain ⟨read, cut, same⟩ := statements_linesText (fun as member => (areLines as member).1)
    fun as member => (areLines as member).2
  -- Statement by statement, they do what the operations of the document do.
  have performs := Document.performs_of_spelledBy wellFormed spelled
  rw [← same, List.forall₂_map_left_iff] at performs
  have fromText : ofText (linesText lines) = read.foldlM perform RuleSet.empty := by
    rw [ofText, cut]
  have fromDocument : ofJson text = runAll doc.operations RuleSet.empty := by
    rw [ofJson, accepted]
    exact Document.toRules_eq scalars
  rw [fromText, fromDocument]
  refine AgreeUpToPlaces.foldlM (performs.imp fun statement operation performed => ?_) rfl
  exact fun rules rules' alike => performed statement.line rules rules' alike

/-- A document whose texts look like the words and marks of a rule text. -/
def lookalikes : String :=
  "\x7b\"options\":\x7b\"flexopt\":[\"\\n\",true]\x7d," ++
    "\"macros\":[\x7b\"name\":\"D\",\"pattern\":\"\\\\\x7b\"\x7d]," ++
    "\"tokens\":[\x7b\"pattern\":\"nil\",\"category\":\"const\",\"ident\":\"id\",\"id\":7\x7d]\x7d"

def lookalikesDocument : Document where
  options := [("flexopt", .list [.string "\n", .boolean true])]
  macros := [("D", "\\\x7b")]
  tokens := [⟨some "nil", .const, some "id", some 7, none, false, .api⟩]

/-- The id is written before the identifier. -/
def lookalikesLines : List (List Argument) :=
  [commandLine "add" "flexopt" "\n", commandLine "add" "flexopt" "true",
    commandLine "macro" "D" "\\\x7b",
    [⟨"token", true⟩, ⟨"nil", false⟩, ⟨"const", true⟩, ⟨"id", true⟩, ⟨"7", true⟩, ⟨"id", false⟩]]

theorem ofText_linesText_agrees_lookalikes :
    Document.read lookalikes = .ok lookalikesDocument ∧
      (∀ entry ∈ lookalikesDocument.options, Document.OfScalars entry.2) ∧
      lookalikesDocument.SpelledBy lookalikesLines ∧
      AgreeUpToPlaces (ofText (linesText lookalikesLines)) (ofJson lookalikes) := by
  have accepted : Document.read lookalikes = .ok lookalikesDocument := by cbv
  have scalars : ∀ entry ∈ lookalikesDocument.options, Document.OfScalars entry.2 := by
    refine List.forall_mem_singleton.2 fun value member => ?_
    simp only [List.mem_cons, List.not_mem_nil, or_false] at member
    rcases member with rfl | rfl <;> rfl
  have spelled : lookalikesDocument.SpelledBy lookalikesLines := by
    refine ⟨lookalikesDocument.options, _, .refl _, List.pairwise_singleton _ _,
      .cons ⟨[.id 7, .ident "id"], ?_, rfl⟩ .nil, rfl⟩
    decide
  exact ⟨accepted, scalars, spelled, (ofText_linesText_agrees accepted scalars).2 _ spelled⟩

end ScannerGen.Rules
