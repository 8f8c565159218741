import Mathlib
import ScannerGen.Proofs.Pattern.Lookahead

/-!
# Macros stand for their fragments

A macro reference may be replaced by the fragment of the macro in parentheses, in the pattern itself
or in the fragment of another macro, and the pattern is still read as the same tree.

* `Takes` — what one lexeme does to the levels of the reader, with nothing said about places in the
  text; `assemble_cons_iff` opens the reader by it.
* `assemble_congr`, `assemble_group`, `assemble_replace` — the three things a replacement changes:
  places in the text, the levels outside, and the lexemes in the middle.
* `Inlines` — one reference of a text is replaced; `Rewrites` — in the text or in a fragment.
* `parse_inline` — what is read stays the same under any number of replacements.
-/

namespace ScannerGen.Pattern

/-! ## Single lexemes -/

/-- What a lexeme does to the levels of a reader that goes on. -/
inductive Takes {ε : Type} (expand : String → Except ε Pattern) (suffix : List UInt8) :
    Lexeme → Level → List Level → Level → List Level → Prop
  | operand {tree : Pattern} {level : Level} {outer : List Level} :
    Takes expand suffix (.operand tree) level outer (level.push tree) outer
  | reference {name : String} {tree : Pattern} {level : Level} {outer : List Level}
    (expanded : expand name = .ok tree) :
    Takes expand suffix (.reference name) level outer (level.push tree) outer
  | times {sign : UInt8} {min : Nat} {max : Option Nat} {operand : Pattern} {level : Level}
    {outer : List Level} (last : level.last = some operand)
    (small : (Pattern.rep operand min max).stateBound ≤ maxStates) :
    Takes expand suffix (.times sign min max) level outer
      { level with last := some (.rep operand min max) } outer
  | bar {level : Level} {outer : List Level} (some_operand : level.last.isNone = false) :
    Takes expand suffix .bar level outer level.nextBranch outer
  | opening {level : Level} {outer : List Level} :
    Takes expand suffix .opening level outer (.fresh suffix) (level :: outer)
  | closing {level enclosing : Level} {others : List Level}
    (some_operand : level.last.isNone = false) :
    Takes expand suffix .closing level (enclosing :: others) (enclosing.push level.result) others

section Assembly

variable {ε ε' : Type} {expand : String → Except ε Pattern} {refuse : Located → ε}
  {whole : List UInt8} {level : Level} {outer : List Level} {tree : Pattern}

/-- The reader goes on behind a lexeme exactly if it takes it. -/
theorem assemble_cons_iff {p : Placed} {more : List Placed} :
    assemble expand refuse whole level outer (p :: more) = .ok tree ↔
      ∃ level' outer', Takes expand p.suffix p.lexeme level outer level' outer' ∧
        assemble expand refuse whole level' outer' more = .ok tree := by
  obtain ⟨l, suffix⟩ := p
  constructor
  · intro accepted
    rw [assemble.eq_def] at accepted
    cases l with
    | operand tree => exact ⟨_, _, .operand, accepted⟩
    | reference name =>
      dsimp only at accepted
      split at accepted
      · cases accepted
      · next expanded => exact ⟨_, _, .reference expanded, accepted⟩
    | times sign min max =>
      dsimp only at accepted
      split at accepted
      · cases accepted
      · next operand last =>
        split at accepted
        · cases accepted
        · next checked =>
          obtain ⟨small, rfl⟩ := of_bounded checked
          exact ⟨_, _, .times last small, accepted⟩
    | bar =>
      dsimp only at accepted
      split at accepted
      · cases accepted
      · next some_operand =>
        exact ⟨_, _, .bar (Bool.eq_false_of_not_eq_true some_operand), accepted⟩
    | opening => exact ⟨_, _, .opening, accepted⟩
    | closing =>
      dsimp only at accepted
      split at accepted
      · cases accepted
      · next some_operand =>
        split at accepted
        · cases accepted
        · exact ⟨_, _, .closing (Bool.eq_false_of_not_eq_true some_operand), accepted⟩
    | fault fault => cases accepted
  · rintro ⟨level', outer', takes, accepted⟩
    cases takes with
    | operand => exact accepted
    | reference expanded =>
      rw [assemble]
      simp only [expanded]
      exact accepted
    | times last small =>
      rw [assemble]
      simp only [last, bounded_of_le small]
      exact accepted
    | bar some_operand =>
      rw [assemble]
      simp only [some_operand, if_neg Bool.false_ne_true]
      exact accepted
    | opening => exact accepted
    | closing some_operand =>
      rw [assemble]
      simp only [some_operand, if_neg Bool.false_ne_true]
      exact accepted

/-- What is accepted has no fault among its lexemes. -/
theorem faultless_of_assemble {placed : List Placed}
    (accepted : assemble expand refuse whole level outer placed = .ok tree) :
    ∀ p ∈ placed, ∀ fault, p.lexeme ≠ .fault fault := by
  induction placed generalizing level outer with
  | nil => exact fun p absent => absurd absent List.not_mem_nil
  | cons p more ih =>
    obtain ⟨level', outer', takes, goesOn⟩ := assemble_cons_iff.1 accepted
    refine List.forall_mem_cons.2 ⟨fun fault isFault => ?_, ih goesOn⟩
    rw [isFault] at takes
    cases takes

/-- Every reference of what is accepted expands to a tree. -/
theorem expands_of_assemble {placed : List Placed}
    (accepted : assemble expand refuse whole level outer placed = .ok tree) {name : String}
    {suffix : List UInt8} (member : ⟨.reference name, suffix⟩ ∈ placed) :
    ∃ fragment, expand name = .ok fragment := by
  induction placed generalizing level outer with
  | nil => cases member
  | cons p more ih =>
    obtain ⟨level', outer', takes, goesOn⟩ := assemble_cons_iff.1 accepted
    rcases List.mem_cons.1 member with rfl | later
    · cases takes with
      | reference expanded => exact ⟨_, expanded⟩
    · exact ih goesOn later

theorem assemble_nil_iff :
    assemble expand refuse whole level outer [] = .ok tree ↔
      level.last.isNone = false ∧ outer = [] ∧ level.result.stateBound ≤ maxStates ∧
        level.result = tree := by
  constructor
  · intro accepted
    rw [assemble] at accepted
    split at accepted
    · cases accepted
    · next some_operand =>
      split at accepted
      · cases accepted
      · next outermost =>
        cases checked : bounded level.result whole with
        | error located =>
          rw [checked] at accepted
          cases accepted
        | ok result =>
          rw [checked] at accepted
          obtain ⟨small, rfl⟩ := of_bounded checked
          exact ⟨Bool.eq_false_of_not_eq_true some_operand, Decidable.not_not.1 outermost, small,
            Except.ok.inj accepted⟩
  · rintro ⟨some_operand, rfl, small, rfl⟩
    rw [assemble, some_operand, if_neg Bool.false_ne_true, if_neg (not_not_intro rfl),
      bounded_of_le small]
    rfl

/-! ## Places do not matter -/

/-- Levels that differ in nothing but the place where they were opened. -/
structure Level.Alike (level level' : Level) : Prop where
  branches : level.branches = level'.branches
  items : level.items = level'.items
  last : level.last = level'.last

namespace Level.Alike

variable {level₁ level₂ : Level}

theorem refl (level : Level) : level.Alike level := ⟨rfl, rfl, rfl⟩

theorem allItems_eq (alike : level₁.Alike level₂) : level₁.allItems = level₂.allItems := by
  rw [allItems, allItems, alike.items, alike.last]

theorem allBranches_eq (alike : level₁.Alike level₂) : level₁.allBranches = level₂.allBranches := by
  rw [allBranches, allBranches, alike.allItems_eq, alike.branches]

theorem result_eq (alike : level₁.Alike level₂) : level₁.result = level₂.result := by
  rw [result, result, alike.allBranches_eq]

theorem push (alike : level₁.Alike level₂) (operand : Pattern) :
    (level₁.push operand).Alike (level₂.push operand) :=
  ⟨alike.branches, alike.allItems_eq, rfl⟩

end Level.Alike

theorem Takes.congr {expand' : String → Except ε' Pattern} {l : Lexeme}
    {suffix suffix' : List UInt8} {level₁ level₁' level₂ : Level} {outer₁ outer₁' outer₂ : List Level}
    (expands : ∀ name fragment, expand name = .ok fragment → expand' name = .ok fragment)
    (alike : level₁.Alike level₂) (outside : List.Forall₂ Level.Alike outer₁ outer₂)
    (takes : Takes expand suffix l level₁ outer₁ level₁' outer₁') :
    ∃ level₂' outer₂', Takes expand' suffix' l level₂ outer₂ level₂' outer₂' ∧
      level₁'.Alike level₂' ∧ List.Forall₂ Level.Alike outer₁' outer₂' := by
  cases takes with
  | operand => exact ⟨_, _, .operand, alike.push _, outside⟩
  | reference expanded => exact ⟨_, _, .reference (expands _ _ expanded), alike.push _, outside⟩
  | times last small =>
    rw [alike.last] at last
    exact ⟨_, _, .times last small, ⟨alike.branches, alike.items, rfl⟩, outside⟩
  | bar some_operand =>
    rw [alike.last] at some_operand
    exact ⟨_, _, .bar some_operand, ⟨alike.allBranches_eq, rfl, rfl⟩, outside⟩
  | opening => exact ⟨_, _, .opening, ⟨rfl, rfl, rfl⟩, .cons alike outside⟩
  | closing some_operand =>
    obtain ⟨enclosing, others, enclosed, around, rfl⟩ := List.forall₂_cons_left_iff.1 outside
    rw [alike.last] at some_operand
    refine ⟨_, _, .closing some_operand, ?_, around⟩
    rw [alike.result_eq]
    exact enclosed.push _

/-- The same lexemes at other places are assembled to the same tree. -/
theorem assemble_congr {expand' : String → Except ε' Pattern} {refuse' : Located → ε'}
    {whole' : List UInt8} {placed placed' : List Placed} {level' : Level} {outer' : List Level}
    (expands : ∀ name fragment, expand name = .ok fragment → expand' name = .ok fragment)
    (alike : level.Alike level') (outside : List.Forall₂ Level.Alike outer outer')
    (same : placed.map Placed.lexeme = placed'.map Placed.lexeme)
    (accepted : assemble expand refuse whole level outer placed = .ok tree) :
    assemble expand' refuse' whole' level' outer' placed' = .ok tree := by
  induction placed generalizing placed' level outer level' outer' with
  | nil =>
    obtain rfl : placed' = [] := List.map_eq_nil_iff.1 same.symm
    obtain ⟨some_operand, rfl, small, result⟩ := assemble_nil_iff.1 accepted
    cases outside
    rw [alike.last] at some_operand
    rw [alike.result_eq] at small result
    exact assemble_nil_iff.2 ⟨some_operand, rfl, small, result⟩
  | cons p more ih =>
    cases placed' with
    | nil => cases same
    | cons p' more' =>
      obtain ⟨head, tail⟩ := List.cons.inj same
      obtain ⟨next, outerNext, takes, goesOn⟩ := assemble_cons_iff.1 accepted
      obtain ⟨next', outerNext', takes', alike', outside'⟩ :=
        @Takes.congr _ _ _ expand' _ _ p'.suffix _ _ _ _ _ _ expands alike outside takes
      rw [head] at takes'
      exact assemble_cons_iff.2 ⟨next', outerNext', takes', ih alike' outside' tail goesOn⟩

/-! ## Lexemes in a group -/

theorem Takes.inside {suffix : List UInt8} {l : Lexeme} {level' : Level} {outer' : List Level}
    (takes : Takes expand suffix l level outer level' outer') (around : List Level) :
    Takes expand suffix l level (outer ++ around) level' (outer' ++ around) := by
  cases takes with
  | operand => exact .operand
  | reference expanded => exact .reference expanded
  | times last small => exact .times last small
  | bar some_operand => exact .bar some_operand
  | opening => exact .opening
  | closing some_operand => exact .closing some_operand

/-- What is assembled to a tree on its own is an operand with that tree when parentheses are put
around it. -/
theorem assemble_group {whole' : List UInt8} {refuse' : Located → ε} {placed more : List Placed}
    {enclosing : Level} {others : List Level} {result : Pattern} {suffix : List UInt8}
    (accepted : assemble expand refuse whole level outer placed = .ok tree)
    (goesOn : assemble expand refuse' whole' (enclosing.push tree) others more = .ok result) :
    assemble expand refuse' whole' level (outer ++ enclosing :: others)
      (placed ++ ⟨.closing, suffix⟩ :: more) = .ok result := by
  induction placed generalizing level outer with
  | nil =>
    obtain ⟨some_operand, rfl, _, rfl⟩ := assemble_nil_iff.1 accepted
    exact assemble_cons_iff.2 ⟨_, _, .closing some_operand, goesOn⟩
  | cons p placed ih =>
    obtain ⟨level', outer', takes, goesOnInside⟩ := assemble_cons_iff.1 accepted
    exact assemble_cons_iff.2 ⟨level', _, takes.inside _, ih goesOnInside⟩

/-- A group comes to the operand that a reference expands to. -/
theorem assemble_group_of_reference {whole' : List UInt8} {refuse' : Located → ε} {name : String}
    {fragment : Pattern} {place suffix : List UInt8} {inside later : List Placed}
    (expanded : expand name = .ok fragment)
    (inGroup : assemble expand refuse' whole' (.fresh suffix) [] inside = .ok fragment)
    (suffix' : List UInt8)
    (accepted : assemble expand refuse whole level outer (⟨.reference name, place⟩ :: later) =
      .ok tree) :
    assemble expand refuse whole level outer
      (⟨.opening, suffix⟩ :: (inside ++ ⟨.closing, suffix'⟩ :: later)) = .ok tree := by
  obtain ⟨level', outer', takes, goesOn⟩ := assemble_cons_iff.1 accepted
  cases takes with
  | reference expanded' =>
    obtain rfl := Except.ok.inj (expanded'.symm.trans expanded)
    exact assemble_cons_iff.2 ⟨_, _, .opening, assemble_group inGroup goesOn⟩

/-- Lexemes in the middle may be replaced by others that do as well on all levels. -/
theorem assemble_replace {before middle middle' : List Placed}
    (replaces : ∀ level outer, assemble expand refuse whole level outer middle = .ok tree →
      assemble expand refuse whole level outer middle' = .ok tree)
    (accepted : assemble expand refuse whole level outer (before ++ middle) = .ok tree) :
    assemble expand refuse whole level outer (before ++ middle') = .ok tree := by
  induction before generalizing level outer with
  | nil => exact replaces level outer accepted
  | cons p before ih =>
    obtain ⟨level', outer', takes, goesOn⟩ := assemble_cons_iff.1 accepted
    exact assemble_cons_iff.2 ⟨level', outer', takes, ih goesOn⟩

end Assembly

/-! ## Fewer macros under expansion -/

variable {macros : MacroTable} {chain : List String} {owner : Owner} {tree : Pattern}

theorem parseFragment_eq_ok_iff {source : String} :
    parseFragment macros chain owner source = .ok tree ↔
      assemble (expansion macros chain owner) (Located.toError owner (utf8 source)) (utf8 source)
        (.fresh []) [] (lexemes false (utf8 source)) = .ok tree := by
  rw [parseFragment_eq]
  by_cases empty : utf8 source = []
  · -- Nothing is assembled from the empty text either.
    rw [if_pos empty, empty, lexemes]
    constructor
    · intro accepted
      cases accepted
    · intro accepted
      cases accepted
  · rw [if_neg empty]
    exact Iff.rfl

theorem append_singleton_subset {chain chain' : List String} (fewer : chain' ⊆ chain)
    (name : String) : chain' ++ [name] ⊆ chain ++ [name] :=
  List.append_subset.2
    ⟨List.subset_append_of_subset_left _ fewer, List.subset_append_right _ _⟩

/-- A derivation stays one when fewer macros are being expanded. -/
theorem Derives.weaken {kind : Nonterminal} {chain' : List String} {text rest : List UInt8}
    {p : Pattern} (derived : Derives macros kind chain text rest p) (fewer : chain' ⊆ chain) :
    Derives macros kind chain' text rest p := by
  induction derived generalizing chain' with
  | branch _ ih => exact .branch (ih fewer)
  | branches _ _ ih ihOthers => exact .branches (ih fewer) (ihOthers fewer)
  | item _ ih => exact .item (ih fewer)
  | items _ noCount _ ih ihOthers => exact .items (ih fewer) noCount (ihOthers fewer)
  | once _ ih => exact .once (ih fewer)
  | repeated _ sign small ih => exact .repeated (ih fewer) sign small
  | group _ ih => exact .group (ih fewer)
  | charClass members => exact .charClass members
  | literal quoted => exact .literal quoted
  | reference isName fresh defined _ ih =>
    exact .reference isName (fun member => fresh (fewer member)) defined
      (ih (append_singleton_subset fewer _))
  | dot => exact .dot
  | escaped escape => exact .escaped escape
  | byte ordinary => exact .byte ordinary
  | complete _ small ih => exact .complete (ih fewer) small

/-- What a fragment is read as does not depend on the macros under expansion, nor on its owner. -/
theorem parseFragment_of_subset {chain' : List String} {owner' : Owner} {source : String}
    (fewer : chain' ⊆ chain) (accepted : parseFragment macros chain owner source = .ok tree) :
    parseFragment macros chain' owner' source = .ok tree := by
  obtain ⟨p, derived, rfl⟩ := parseFragment_iff.1 accepted
  exact parseFragment_iff.2 ⟨p, derived.weaken fewer, rfl⟩

theorem expansion_of_subset {chain' : List String} {owner' : Owner} {name : String}
    (fewer : chain' ⊆ chain) (expanded : expansion macros chain owner name = .ok tree) :
    expansion macros chain' owner' name = .ok tree := by
  obtain ⟨fresh, m, defined, accepted⟩ := exists_of_expansion expanded
  rw [expansion_of_fresh (fun member => fresh (fewer member)) defined]
  exact parseFragment_of_subset (append_singleton_subset fewer _) accepted

/-! ## Replacing a reference -/

/-- A reference to a macro, as it is written. -/
def referenceText (name : String) : String := "\x7b" ++ name ++ "\x7d"

/-- A text in parentheses. -/
def groupText (text : String) : String := "(" ++ text ++ ")"

/-- One text comes from another by putting the fragment of a macro, in parentheses, in the place of a
reference to it.  The reference has to be one that is read as such: a lexeme of the text. -/
inductive Inlines (macros : MacroTable) : String → String → Prop
  | reference {before name after : String} {m : Macro} (defined : macros.find? name = some m)
    (read : ⟨.reference name, utf8 (referenceText name ++ after)⟩ ∈
      lexemes false (utf8 (before ++ (referenceText name ++ after)))) :
    Inlines macros (before ++ (referenceText name ++ after))
      (before ++ (groupText m.fragment ++ after))

theorem utf8_referenceText_append (name after : String) :
    utf8 (referenceText name ++ after) =
      Ascii.openBrace :: (utf8 name ++ Ascii.closeBrace :: utf8 after) := by
  simp only [referenceText, utf8_append, List.append_assoc]
  rfl

theorem utf8_groupText_append (text after : String) :
    utf8 (groupText text ++ after) =
      Ascii.openParen :: (utf8 text ++ Ascii.closeParen :: utf8 after) := by
  simp only [groupText, utf8_append, List.append_assoc]
  rfl

/-- A lexeme that is no fault is cut from the text at its place. -/
theorem lexed_of_lexemes {after : Bool} {text suffix : List UInt8} {l : Lexeme} {later : List Placed}
    (faultless : ∀ fault, l ≠ .fault fault) (all : lexemes after text = ⟨l, suffix⟩ :: later) :
    text = suffix ∧ ∃ more, Lexed after suffix more l ∧ later = lexemes l.endsOperand more := by
  obtain ⟨after', rest, cuts, ends⟩ :=
    @exists_cuts after text [⟨l, suffix⟩] later all (List.forall_mem_singleton.2 faultless)
  cases cuts with
  | cons first others =>
    cases others
    obtain ⟨b, tail, rfl⟩ := List.exists_cons_of_ne_nil first.ne_nil
    rw [lexemes_of_lexed first] at all
    obtain ⟨same, _⟩ := List.cons.inj all
    obtain rfl := (Placed.mk.inj same).2
    exact ⟨rfl, _, first, ends.symm⟩

theorem eq_nil_of_lexemes {after : Bool} {text : List UInt8} (none : lexemes after text = []) :
    text = [] := by
  cases text with
  | nil => rfl
  | cons b text =>
    rw [lexemes] at none
    split at none <;> cases none

/-- The lexemes of a text in parentheses are those of the text between a parenthesis that opens and
one that closes. -/
theorem lexemes_group {after : Bool} {text : List UInt8}
    (faultless : ∀ p ∈ lexemes false text, ∀ fault, p.lexeme ≠ .fault fault) (rest : List UInt8) :
    ∃ placed suffix suffix', lexemes after (Ascii.openParen :: (text ++ Ascii.closeParen :: rest)) =
        ⟨.opening, suffix⟩ :: (placed ++ ⟨.closing, suffix'⟩ :: lexemes true rest) ∧
      placed.map Placed.lexeme = (lexemes false text).map Placed.lexeme := by
  obtain ⟨after', ending, cuts, ends⟩ :=
    exists_cuts (List.append_nil (lexemes false text)).symm faultless
  obtain rfl := eq_nil_of_lexemes ends
  obtain ⟨w, same, exchange⟩ := cuts.reframe
  rw [List.append_nil] at same
  subst same
  obtain ⟨placed, inside, lexemes_eq⟩ :=
    (exchange (Ascii.closeParen :: rest) (noNewDigit_cons (by decide) _ _)).lexemes_eq
  exact ⟨placed, _, _, by rw [lexemes_of_lexed .opening, Lexeme.endsOperand, inside,
    lexemes_of_lexed .closing, Lexeme.endsOperand], lexemes_eq⟩

theorem Lexed.more_of_reference {after : Bool} {name : String} {rest more : List UInt8}
    (lexed : Lexed after (Ascii.openBrace :: (utf8 name ++ Ascii.closeBrace :: rest)) more
      (.reference name)) : more = rest := by
  generalize bytes : Ascii.openBrace :: (utf8 name ++ Ascii.closeBrace :: rest) = text at lexed
  cases lexed
  simpa using bytes.symm

/-- When a reference is replaced, a group takes the place of one lexeme, and the lexemes before and
behind it stay. -/
theorem lexemes_replace {before name behind fragment : String} {placed later : List Placed}
    (all : lexemes false (utf8 (before ++ (referenceText name ++ behind))) =
      placed ++ ⟨.reference name, utf8 (referenceText name ++ behind)⟩ :: later)
    (faultless : ∀ p ∈ placed, ∀ fault, p.lexeme ≠ .fault fault)
    (faultlessInside : ∀ p ∈ lexemes false (utf8 fragment), ∀ fault, p.lexeme ≠ .fault fault) :
    ∃ placed' suffix inside suffix',
      lexemes false (utf8 (before ++ (groupText fragment ++ behind))) =
        placed' ++ ⟨.opening, suffix⟩ :: (inside ++ ⟨.closing, suffix'⟩ :: later) ∧
      placed'.map Placed.lexeme = placed.map Placed.lexeme ∧
      inside.map Placed.lexeme = (lexemes false (utf8 fragment)).map Placed.lexeme := by
  obtain ⟨after, rest, cuts, ends⟩ := exists_cuts all faultless
  obtain ⟨rfl, more, lexed, rfl⟩ := lexed_of_lexemes (fun _ same => by cases same) ends
  obtain ⟨w, joined, exchange⟩ := cuts.reframe
  rw [utf8_append] at joined
  obtain rfl := List.append_cancel_right joined
  rw [utf8_referenceText_append] at lexed
  obtain rfl := lexed.more_of_reference
  have noDigit : NoNewDigit (utf8 (referenceText name ++ behind))
      (utf8 (groupText fragment ++ behind)) := by
    rw [utf8_groupText_append]
    exact noNewDigit_cons (by decide) _ _
  obtain ⟨placed', front, placed_eq⟩ := (exchange _ noDigit).lexemes_eq
  obtain ⟨inside, suffix, suffix', group, inside_eq⟩ :=
    @lexemes_group after _ faultlessInside (utf8 behind)
  refine ⟨placed', suffix, inside, suffix', ?_, placed_eq, inside_eq⟩
  rw [utf8_append, front, utf8_groupText_append, group]
  rfl

/-- Replacing a reference by its fragment in parentheses leaves what is read as it is. -/
theorem parseFragment_inline {text text' : String} (inlines : Inlines macros text text')
    (accepted : parseFragment macros chain owner text = .ok tree) :
    parseFragment macros chain owner text' = .ok tree := by
  obtain @⟨before, name, behind, m, defined, read⟩ := inlines
  rw [parseFragment_eq_ok_iff] at accepted ⊢
  -- The fragment is read to a tree on its own.
  obtain ⟨fragment, expanded⟩ := expands_of_assemble accepted read
  obtain ⟨_, m', defined', acceptedFragment⟩ := exists_of_expansion expanded
  obtain rfl : m = m' := Option.some.inj (defined.symm.trans defined')
  rw [parseFragment_eq_ok_iff] at acceptedFragment
  have faultless := faultless_of_assemble accepted
  obtain ⟨placed, later, all⟩ := List.append_of_mem read
  rw [all] at faultless accepted
  obtain ⟨placed', suffix, inside, suffix', all', placed_eq, inside_eq⟩ := lexemes_replace all
    (fun p member => faultless p (List.mem_append_left _ member))
    (faultless_of_assemble acceptedFragment)
  rw [all']
  have opened : (Level.fresh []).Alike (.fresh suffix) := ⟨rfl, rfl, rfl⟩
  have inGroup : assemble (expansion macros chain owner) (Located.toError owner []) []
      (.fresh suffix) [] inside = .ok fragment :=
    assemble_congr (fun _ _ found => expansion_of_subset (List.subset_append_left _ _) found)
      opened .nil inside_eq.symm acceptedFragment
  refine assemble_congr (fun _ _ => id) (.refl _) .nil ?_
    (assemble_replace (fun _ _ => assemble_group_of_reference expanded inGroup suffix') accepted)
  rw [List.map_append, List.map_append, placed_eq]

/-! ## Replacing references in fragments -/

/-- The macros with another fragment for one name. -/
def refragment (macros : MacroTable) (name fragment : String) : MacroTable :=
  ⟨macros.entries.map fun m => if m.name = name then { m with fragment } else m⟩

theorem find?_refragment (macros : MacroTable) (name fragment other : String) :
    (refragment macros name fragment).find? other =
      (macros.find? other).map fun m => if m.name = name then { m with fragment } else m := by
  have sameName : ((fun m : Macro => m.name == other) ∘
      fun m => if m.name = name then { m with fragment } else m) = fun m => m.name == other := by
    funext m
    by_cases renamed : m.name = name <;> simp [renamed]
  rw [MacroTable.find?, refragment, List.find?_map, sameName, MacroTable.find?]

theorem name_of_find? {name : String} {m : Macro} (defined : macros.find? name = some m) :
    m.name = name := by
  simpa using List.find?_some defined

/-- A fragment that is read does not refer to its own macro, so it can be inlined into just as well
when the fragment of that macro is another one. -/
theorem Inlines.refragment {name fragment text text' : String} (inlines : Inlines macros text text')
    (inside : name ∈ chain) (accepted : parseFragment macros chain owner text = .ok tree) :
    Inlines (refragment macros name fragment) text text' := by
  obtain @⟨before, other, behind, m, defined, read⟩ := inlines
  obtain ⟨_, expanded⟩ := expands_of_assemble (parseFragment_eq_ok_iff.1 accepted) read
  obtain ⟨fresh, _⟩ := exists_of_expansion expanded
  have different : m.name ≠ name := by
    rw [name_of_find? defined]
    rintro rfl
    exact fresh inside
  refine .reference ?_ read
  rw [find?_refragment, defined, Option.map_some, if_neg different]

/-- Replacing a reference in the fragment of a macro leaves what is read as it is. -/
theorem parseFragment_refragment {g : Macro} {fragment source : String}
    (defined : macros.find? g.name = some g) (inlines : Inlines macros g.fragment fragment)
    (accepted : parseFragment macros chain owner source = .ok tree) :
    parseFragment (refragment macros g.name fragment) chain owner source = .ok tree := by
  induction chain using chain_induct macros generalizing owner source tree with
  | extend chain ih =>
    rw [parseFragment_eq_ok_iff] at accepted ⊢
    refine assemble_congr (fun name tree expanded => ?_) (.refl _) .nil rfl accepted
    obtain ⟨fresh, m, found, acceptedFragment⟩ := exists_of_expansion expanded
    have readAgain := ih name m fresh found acceptedFragment
    have found' := find?_refragment macros g.name fragment name
    rw [found, Option.map_some] at found'
    rw [expansion_of_fresh fresh found']
    split
    · -- The macro whose fragment was replaced: the fragment is read under the new macros, and then
      -- the reference in it is replaced.
      next same =>
      obtain rfl := name_of_find? found
      rw [same, defined] at found
      obtain rfl := Option.some.inj found
      exact parseFragment_inline
        (inlines.refragment (List.mem_append_right _ (List.mem_singleton_self _)) acceptedFragment)
        readAgain
    · exact readAgain

/-- A reference is replaced by its fragment in parentheses, in a pattern or in the fragment of a
macro. -/
inductive Rewrites : MacroTable × String → MacroTable × String → Prop
  | inPattern {macros : MacroTable} {text text' : String} (inlines : Inlines macros text text') :
    Rewrites (macros, text) (macros, text')
  | inFragment {macros : MacroTable} {text fragment : String} {m : Macro}
    (defined : macros.find? m.name = some m) (inlines : Inlines macros m.fragment fragment) :
    Rewrites (macros, text) (refragment macros m.name fragment, text)

theorem Rewrites.parse_eq {source source' : MacroTable × String} (step : Rewrites source source')
    (accepted : parse source.1 owner source.2 = .ok tree) :
    parse source'.1 owner source'.2 = .ok tree := by
  cases step with
  | inPattern inlines => exact parseFragment_inline inlines accepted
  | inFragment defined inlines => exact parseFragment_refragment defined inlines accepted

/-- A pattern that is read is read as the same tree after any number of replacements of macro
references by their fragments in parentheses, in the pattern and in the fragments of macros. -/
theorem parse_inline {macros macros' : MacroTable} {owner : Owner} {text text' : String}
    {tree : Pattern} (rewrites : Relation.ReflTransGen Rewrites (macros, text) (macros', text'))
    (accepted : parse macros owner text = .ok tree) : parse macros' owner text' = .ok tree := by
  have kept : ∀ source, Relation.ReflTransGen Rewrites (macros, text) source →
      parse source.1 owner source.2 = .ok tree := by
    intro source reached
    induction reached with
    | refl => exact accepted
    | tail _ step ih => exact step.parse_eq ih
  exact kept _ rewrites

/-- A macro that refers to another one. -/
def exponentMacros : MacroTable := ⟨[⟨"D", "0|1", .api⟩, ⟨"E", "e\x7bD\x7d", .api⟩]⟩

/-- First the reference inside the macro is replaced, then the one in the pattern. -/
theorem parse_inline_exponent :
    Relation.ReflTransGen Rewrites (exponentMacros, "\x7bE\x7d+")
        (refragment exponentMacros "E" "e(0|1)", "(e(0|1))+") ∧
      parse exponentMacros (.named "unit") "\x7bE\x7d+" =
        .ok (.rep (.seq [byte 0x65, .alt [byte 0x30, byte 0x31]]) 1 none) ∧
      parse (refragment exponentMacros "E" "e(0|1)") (.named "unit") "(e(0|1))+" =
        .ok (.rep (.seq [byte 0x65, .alt [byte 0x30, byte 0x31]]) 1 none) := by
  have accepted : parse exponentMacros (.named "unit") "\x7bE\x7d+" =
      .ok (.rep (.seq [byte 0x65, .alt [byte 0x30, byte 0x31]]) 1 none) := by cbv
  have inner : Inlines exponentMacros "e\x7bD\x7d" "e(0|1)" := by
    have lexed : lexemes false (utf8 ("e" ++ (referenceText "D" ++ ""))) =
        [⟨.operand (byte 0x65), utf8 "e\x7bD\x7d"⟩,
          ⟨.reference "D", utf8 (referenceText "D" ++ "")⟩] := by cbv
    refine @Inlines.reference _ "e" "D" "" ⟨"D", "0|1", .api⟩ rfl ?_
    rw [lexed]
    exact List.mem_cons_of_mem _ List.mem_cons_self
  have outer : Inlines (refragment exponentMacros "E" "e(0|1)") "\x7bE\x7d+" "(e(0|1))+" := by
    have lexed : lexemes false (utf8 ("" ++ (referenceText "E" ++ "+"))) =
        [⟨.reference "E", utf8 (referenceText "E" ++ "+")⟩,
          ⟨.times Ascii.plus 1 none, utf8 "+"⟩] := by cbv
    refine @Inlines.reference _ "" "E" "+" ⟨"E", "e(0|1)", .api⟩ rfl ?_
    rw [lexed]
    exact List.mem_cons_self
  have rewrites : Relation.ReflTransGen Rewrites (exponentMacros, "\x7bE\x7d+")
      (refragment exponentMacros "E" "e(0|1)", "(e(0|1))+") :=
    .tail (.single (@Rewrites.inFragment _ _ _ ⟨"E", "e\x7bD\x7d", .api⟩ rfl inner))
      (.inPattern outer)
  exact ⟨rewrites, accepted, parse_inline rewrites accepted⟩

end ScannerGen.Pattern
