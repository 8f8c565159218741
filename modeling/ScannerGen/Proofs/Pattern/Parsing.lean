import ScannerGen.Pattern.Parser
import ScannerGen.Proofs.Pattern.Readers

/-!
# Reading patterns

The reader accepts the texts that the grammar derives, and the tree that it returns is the flat tree
of the derivation.

* `chain_induct` — induction over the macros that are being expanded.
* `advance_...` — what one lexeme does to the levels.
* `Derives.reads` — the reader follows a derivation: behind the text that was derived, its levels
  hold the tree of the derivation.
* `Begins`, `derives_of_advance` — what the reader accepts begins in one of five ways, and so has a
  derivation.
* `parseFragment_iff` — both together.
-/

namespace ScannerGen.Pattern

variable {macros : MacroTable} {chain : List String} {owner : Owner}

/-! ## Expansion -/

/-- Induction over the macros that are being expanded: what holds of them may rest on what holds with
one more of those that are defined. -/
theorem chain_induct (macros : MacroTable) {motive : List String → Prop}
    (extend : ∀ chain, (∀ name m, name ∉ chain → macros.find? name = some m →
      motive (chain ++ [name])) → motive chain) (chain : List String) : motive chain := by
  -- Every expansion leaves fewer macros that are not being expanded.
  induction left : macros.countOutside chain using Nat.strong_induction_on generalizing chain with
  | _ n ih =>
    subst left
    refine extend chain fun name m fresh defined => ih _ ?_ _ rfl
    exact MacroTable.countOutside_append_lt defined
      (Bool.eq_false_of_not_eq_true (mt List.contains_iff_mem.1 fresh))

/-- What a reference expands to. -/
def expansion (macros : MacroTable) (chain : List String) (owner : Owner) (name : String) :
    Except Error Pattern :=
  if chain.contains name then .error (.cyclic (chain ++ [name]))
  else
    match macros.find? name with
    | none => .error (.unknownName name owner)
    | some m => parseFragment macros (chain ++ [name]) (.fragment m.name m.origin) m.fragment

theorem expansion_of_fresh {name : String} {m : Macro} (fresh : name ∉ chain)
    (defined : macros.find? name = some m) :
    expansion macros chain owner name =
      parseFragment macros (chain ++ [name]) (.fragment m.name m.origin) m.fragment := by
  have absent : ¬ chain.contains name = true := by
    rw [List.contains_iff_mem]
    exact fresh
  rw [expansion, if_neg absent, defined]

/-- A reference that expands names a macro that is not being expanded already. -/
theorem exists_of_expansion {name : String} {tree : Pattern}
    (expanded : expansion macros chain owner name = .ok tree) :
    name ∉ chain ∧ ∃ m, macros.find? name = some m ∧
      parseFragment macros (chain ++ [name]) (.fragment m.name m.origin) m.fragment = .ok tree := by
  rw [expansion] at expanded
  split at expanded
  · cases expanded
  · next absent =>
    rw [List.contains_iff_mem] at absent
    refine ⟨absent, ?_⟩
    split at expanded
    · cases expanded
    · next m defined => exact ⟨m, defined, expanded⟩

/-! ## Single lexemes -/

/-- Assembles the lexemes of a text on top of the levels read so far. -/
def advance (macros : MacroTable) (chain : List String) (owner : Owner) (whole : List UInt8)
    (level : Level) (outer : List Level) (after : Bool) (text : List UInt8) : Except Error Pattern :=
  assemble (expansion macros chain owner) (Located.toError owner whole) whole level outer
    (lexemes after text)

theorem parseFragment_eq (text : String) :
    parseFragment macros chain owner text =
      if utf8 text = [] then .error (.invalid owner 0 .emptyPattern)
      else advance macros chain owner (utf8 text) (.fresh []) [] false (utf8 text) := by
  rw [parseFragment]
  by_cases empty : utf8 text = []
  · rw [if_pos empty, if_pos empty]
  · rw [if_neg empty, if_neg empty, advance]
    congr 1
    funext name
    rw [expansion]
    split
    · rfl
    · split <;> simp_all

theorem lexemes_of_lexed {after : Bool} {b : UInt8} {rest more : List UInt8} {l : Lexeme}
    (lexed : Lexed after (b :: rest) more l) :
    lexemes after (b :: rest) = ⟨l, b :: rest⟩ :: lexemes l.endsOperand more := by
  have read := lexeme_iff.2 lexed
  rw [lexemes]
  split
  · next failed =>
    rw [read] at failed
    cases failed
  · next succeeded =>
    rw [read] at succeeded
    cases succeeded
    rfl

section Steps

variable {whole : List UInt8} {level : Level} {outer : List Level} {after : Bool}
  {text more : List UInt8}

/-- At the end of the text the levels have to be down to one, with a tree that is small enough. -/
theorem advance_nil :
    advance macros chain owner whole level outer after [] =
      if level.last.isNone then .error (Located.toError owner whole ⟨.expectedExpression, []⟩)
      else if outer ≠ [] then .error (Located.toError owner whole ⟨.unbalancedOpen, level.opened⟩)
      else (bounded level.result whole).mapError (Located.toError owner whole) := by
  rw [advance, lexemes]
  rfl

theorem advance_of_lexed {l : Lexeme} (lexed : Lexed after text more l) :
    advance macros chain owner whole level outer after text =
      assemble (expansion macros chain owner) (Located.toError owner whole) whole level outer
        (⟨l, text⟩ :: lexemes l.endsOperand more) := by
  obtain ⟨b, rest, rfl⟩ := List.exists_cons_of_ne_nil lexed.ne_nil
  rw [advance, lexemes_of_lexed lexed]

theorem advance_operand {tree : Pattern} (lexed : Lexed after text more (.operand tree)) :
    advance macros chain owner whole level outer after text =
      advance macros chain owner whole (level.push tree) outer true more :=
  advance_of_lexed lexed

theorem advance_reference {name : String} (lexed : Lexed after text more (.reference name)) :
    advance macros chain owner whole level outer after text =
      match expansion macros chain owner name with
      | .error e => .error e
      | .ok tree => advance macros chain owner whole (level.push tree) outer true more := by
  rw [advance_of_lexed lexed, assemble]
  cases expansion macros chain owner name <;> rfl

theorem advance_opening :
    advance macros chain owner whole level outer after (Ascii.openParen :: text) =
      advance macros chain owner whole (.fresh (Ascii.openParen :: text)) (level :: outer) false
        text :=
  advance_of_lexed .opening

theorem advance_closing :
    advance macros chain owner whole level outer after (Ascii.closeParen :: text) =
      if level.last.isNone then
        .error (Located.toError owner whole ⟨.expectedExpression, Ascii.closeParen :: text⟩)
      else
        match outer with
        | [] => .error (Located.toError owner whole ⟨.unbalancedClose, Ascii.closeParen :: text⟩)
        | enclosing :: others =>
          advance macros chain owner whole (enclosing.push level.result) others true text :=
  advance_of_lexed .closing

theorem advance_bar :
    advance macros chain owner whole level outer after (Ascii.bar :: text) =
      if level.last.isNone then
        .error (Located.toError owner whole ⟨.expectedExpression, Ascii.bar :: text⟩)
      else advance macros chain owner whole level.nextBranch outer false text :=
  advance_of_lexed .bar

theorem advance_times {sign : UInt8} {min : Nat} {max : Option Nat}
    (lexed : Lexed after text more (.times sign min max)) :
    advance macros chain owner whole level outer after text =
      match level.last with
      | none => .error (Located.toError owner whole ⟨.nothingToRepeat sign, text⟩)
      | some operand =>
        match bounded (.rep operand min max) text with
        | .error located => .error (Located.toError owner whole located)
        | .ok tree =>
          advance macros chain owner whole { level with last := some tree } outer true more :=
  advance_of_lexed lexed

theorem bounded_of_le {tree : Pattern} (small : tree.stateBound ≤ maxStates) (suffix : List UInt8) :
    bounded tree suffix = .ok tree := by
  rw [bounded, if_neg (Nat.not_lt_of_le small)]

theorem of_bounded {tree result : Pattern} {suffix : List UInt8}
    (accepted : bounded tree suffix = .ok result) :
    tree.stateBound ≤ maxStates ∧ tree = result := by
  rw [bounded] at accepted
  split at accepted
  · cases accepted
  · next small => exact ⟨Nat.le_of_not_lt small, Except.ok.inj accepted⟩

end Steps

/-! ## Derived texts are read -/

/-- Reading a text brings any levels to where the tree of the text is an operand more. -/
def ReadsOperand (macros : MacroTable) (chain : List String) (text rest : List UInt8) (p : Pattern) :
    Prop :=
  ∀ (owner : Owner) (whole : List UInt8) (level : Level) (outer : List Level) (after : Bool),
    (after = true → ¬ CountAhead text) →
      advance macros chain owner whole level outer after text =
        advance macros chain owner whole (level.push p.flat) outer true rest

/-- Reading a text adds the parts of some trees to the branch being read. -/
def ReadsItems (macros : MacroTable) (chain : List String) (text rest : List UInt8)
    (ps : List Pattern) : Prop :=
  ∀ (owner : Owner) (whole : List UInt8) (level : Level) (outer : List Level) (after : Bool),
    (after = true → ¬ CountAhead text) → ∃ level' : Level, level'.last.isNone = false ∧
      level'.branches = level.branches ∧
      level'.allItems = (flatParts ps).reverse ++ level.allItems ∧
      advance macros chain owner whole level outer after text =
        advance macros chain owner whole level' outer true rest

/-- Reading a text at the start of a branch adds the branches of some trees to a level. -/
def ReadsBranches (macros : MacroTable) (chain : List String) (text rest : List UInt8)
    (ps : List Pattern) : Prop :=
  ∀ (owner : Owner) (whole : List UInt8) (level : Level) (outer : List Level),
    level.items = [] → level.last = none → ∃ level' : Level, level'.last.isNone = false ∧
      level'.allBranches = (flatBranches ps).reverse ++ level.branches ∧
      advance macros chain owner whole level outer false text =
        advance macros chain owner whole level' outer true rest

/-- What reading a derived text comes to, for each kind of derivation. -/
def Reads (macros : MacroTable) (chain : List String) (text rest : List UInt8) (p : Pattern) :
    Nonterminal → Prop
  | .alternation => ∃ ps, p = .alt ps ∧ ReadsBranches macros chain text rest ps
  | .concatenation => ∃ ps, p = .seq ps ∧ ReadsItems macros chain text rest ps
  | .repetition | .atom => ReadsOperand macros chain text rest p
  | .complete => ∀ (owner : Owner) (source : String), utf8 source = text →
    parseFragment macros chain owner source = .ok p.flat

theorem allItems_push (level : Level) (p : Pattern) :
    (level.push p).allItems = p.parts.reverse ++ level.allItems := rfl

theorem allItems_of_none {level : Level} (noItems : level.items = []) (noOperand : level.last = none) :
    level.allItems = [] := by
  rw [Level.allItems, noOperand, noItems]

theorem not_countAhead_of_ne {b : UInt8} {rest : List UInt8} (differs : b ≠ Ascii.openBrace) :
    ¬ CountAhead (b :: rest) := by
  rintro ⟨d, more, same, _⟩
  exact differs (List.cons.inj same).1

theorem ReadsOperand.items {text rest : List UInt8} {p : Pattern}
    (reads : ReadsOperand macros chain text rest p) : ReadsItems macros chain text rest [p] := by
  intro owner whole level outer after noCount
  refine ⟨level.push p.flat, rfl, rfl, ?_, reads owner whole level outer after noCount⟩
  rw [allItems_push, flatParts, flatParts, List.append_nil]

theorem ReadsOperand.cons {text more rest : List UInt8} {p : Pattern} {ps : List Pattern}
    (reads : ReadsOperand macros chain text more p) (noCount : ¬ CountAhead more)
    (others : ReadsItems macros chain more rest ps) : ReadsItems macros chain text rest (p :: ps) := by
  intro owner whole level outer after ahead
  obtain ⟨level', some_operand, branches, items, advanced⟩ :=
    others owner whole (level.push p.flat) outer true fun _ => noCount
  refine ⟨level', some_operand, branches, ?_, ?_⟩
  · rw [items, allItems_push, flatParts, List.reverse_append, List.append_assoc]
  · rw [reads owner whole level outer after ahead, advanced]

/-- The branches of a level whose last branch has been read to its end. -/
theorem allBranches_of_items {level level' : Level} {ps : List Pattern} (noItems : level.items = [])
    (noOperand : level.last = none) (branches : level'.branches = level.branches)
    (items : level'.allItems = (flatParts ps).reverse ++ level.allItems) :
    level'.allBranches = (flat (.seq ps)).branches.reverse ++ level.branches := by
  rw [Level.allBranches, items, branches, allItems_of_none noItems noOperand, List.append_nil,
    List.reverse_reverse, flat]

theorem ReadsItems.branches {text rest : List UInt8} {ps : List Pattern}
    (reads : ReadsItems macros chain text rest ps) :
    ReadsBranches macros chain text rest [.seq ps] := by
  intro owner whole level outer noItems noOperand
  obtain ⟨level', some_operand, branches, items, advanced⟩ :=
    reads owner whole level outer false fun absurdly => absurd absurdly Bool.false_ne_true
  refine ⟨level', some_operand, ?_, advanced⟩
  rw [allBranches_of_items noItems noOperand branches items, flatBranches, flatBranches,
    List.append_nil]

theorem ReadsItems.cons {text more rest : List UInt8} {ps qs : List Pattern}
    (reads : ReadsItems macros chain text (Ascii.bar :: more) ps)
    (others : ReadsBranches macros chain more rest qs) :
    ReadsBranches macros chain text rest (.seq ps :: qs) := by
  intro owner whole level outer noItems noOperand
  obtain ⟨level₁, some_operand, branches, items, advanced⟩ :=
    reads owner whole level outer false fun absurdly => absurd absurdly Bool.false_ne_true
  obtain ⟨level₂, some_operand₂, branches₂, advanced₂⟩ :=
    others owner whole level₁.nextBranch outer rfl rfl
  refine ⟨level₂, some_operand₂, ?_, ?_⟩
  · have first := allBranches_of_items noItems noOperand branches items
    rw [branches₂, flatBranches, List.reverse_append, List.append_assoc, ← first]
    rfl
  · rw [advanced, advance_bar, some_operand, if_neg Bool.false_ne_true, advanced₂]

/-- A level that began with nothing ends with the tree of its branches. -/
theorem result_of_allBranches {level : Level} {opened : List UInt8} {ps : List Pattern}
    (branches : level.allBranches = (flatBranches ps).reverse ++ (Level.fresh opened).branches) :
    level.result = flat (.alt ps) := by
  rw [Level.result, branches, Level.fresh, List.append_nil, List.reverse_reverse, flat]

theorem ReadsOperand.of_lexed {text rest : List UInt8} {p : Pattern}
    (lexed : ∀ after, Lexed after text rest (.operand p.flat)) :
    ReadsOperand macros chain text rest p :=
  fun _ _ _ _ after _ => advance_operand (lexed after)

/-- A group is read as an operand: its closing parenthesis ends the level that its opening one
began. -/
theorem ReadsBranches.group {text rest : List UInt8} {ps : List Pattern}
    (reads : ReadsBranches macros chain text (Ascii.closeParen :: rest) ps) :
    ReadsOperand macros chain (Ascii.openParen :: text) rest (.alt ps) := by
  intro owner whole level outer after _
  obtain ⟨level', some_operand, branches, advanced⟩ :=
    reads owner whole (.fresh (Ascii.openParen :: text)) (level :: outer) rfl rfl
  rw [advance_opening, advanced, advance_closing, some_operand, if_neg Bool.false_ne_true,
    result_of_allBranches branches]

/-- A complete pattern is read from its first byte to its last. -/
theorem ReadsBranches.complete {text : List UInt8} {ps : List Pattern}
    (reads : ReadsBranches macros chain text [] ps) (small : (flat (.alt ps)).stateBound ≤ maxStates)
    (owner : Owner) {source : String} (bytes : utf8 source = text) :
    parseFragment macros chain owner source = .ok (flat (.alt ps)) := by
  subst bytes
  obtain ⟨level', some_operand, branches, advanced⟩ :=
    reads owner (utf8 source) (.fresh []) [] rfl rfl
  have result := result_of_allBranches branches
  have accepted : advance macros chain owner (utf8 source) (.fresh []) [] false (utf8 source) =
      .ok (flat (.alt ps)) := by
    rw [advanced, advance_nil, some_operand, if_neg Bool.false_ne_true, if_neg (fun inside => inside rfl),
      result, bounded_of_le small]
    rfl
  -- The empty text has no derivation: reading it, the outermost level would stay empty.
  have some_bytes : utf8 source ≠ [] := by
    intro empty
    have fresh : (Level.fresh []).last.isNone = true := rfl
    rw [empty, advance_nil, if_pos fresh] at accepted
    cases accepted
  rw [parseFragment_eq, if_neg some_bytes, accepted]

theorem Sign.lexed {text rest : List UInt8} {min : Nat} {max : Option Nat}
    (sign : Sign text rest min max) : ∃ b, Lexed true text rest (.times b min max) := by
  cases sign with
  | star => exact ⟨_, .star⟩
  | plus => exact ⟨_, .plus⟩
  | question => exact ⟨_, .question⟩
  | count bounds => exact ⟨_, .count bounds⟩

theorem ReadsOperand.repeated {text more rest : List UInt8} {p : Pattern} {min : Nat}
    {max : Option Nat} (reads : ReadsOperand macros chain text more p)
    (sign : Sign more rest min max) (small : (flat (.rep p min max)).stateBound ≤ maxStates) :
    ReadsOperand macros chain text rest (.rep p min max) := by
  intro owner whole level outer after noCount
  obtain ⟨b, lexed⟩ := sign.lexed
  have fits : bounded (.rep p.flat min max) more = .ok (.rep p.flat min max) :=
    bounded_of_le small more
  rw [reads owner whole level outer after noCount, advance_times lexed]
  show (match bounded (.rep p.flat min max) more with | .error _ => _ | .ok _ => _) = _
  rw [fits]
  rfl

theorem flat_bytes (bytes : List UInt8) : flat (.seq (bytes.map byte)) = seqOf (bytes.map byte) := by
  have parts : flatParts (bytes.map byte) = bytes.map byte := by
    induction bytes with
    | nil => rfl
    | cons b bytes ih =>
      rw [List.map_cons, flatParts, ih]
      rfl
  rw [flat, parts]

/-- The reader follows a derivation. -/
theorem Derives.reads {kind : Nonterminal} {chain : List String} {text rest : List UInt8}
    {p : Pattern} (derived : Derives macros kind chain text rest p) :
    Reads macros chain text rest p kind := by
  induction derived with
  | branch _ ih =>
    obtain ⟨ps, rfl, items⟩ := ih
    exact ⟨_, rfl, items.branches⟩
  | branches _ _ ih ihOthers =>
    obtain ⟨ps, rfl, items⟩ := ih
    obtain ⟨qs, same, branches⟩ := ihOthers
    cases same
    exact ⟨_, rfl, items.cons branches⟩
  | item _ ih => exact ⟨_, rfl, ReadsOperand.items ih⟩
  | items _ noCount _ ih ihOthers =>
    obtain ⟨qs, same, items⟩ := ihOthers
    cases same
    exact ⟨_, rfl, ReadsOperand.cons ih noCount items⟩
  | once _ ih => exact ih
  | repeated _ sign small ih => exact ReadsOperand.repeated ih sign small
  | group _ ih =>
    obtain ⟨ps, rfl, branches⟩ := ih
    exact branches.group
  | charClass members => exact .of_lexed fun _ => .charClass members
  | literal quoted =>
    refine .of_lexed fun _ => ?_
    rw [flat_bytes]
    exact .literal quoted
  | reference isName fresh defined _ ih =>
    -- The hypothesis is about the fragment on its own, whatever it is a fragment of.
    intro owner whole level outer after noCount
    have expanded : expansion macros _ owner _ = _ := expansion_of_fresh fresh defined
    rw [ih _ _ rfl] at expanded
    rw [advance_reference (.reference isName noCount), expanded]
  | dot => exact .of_lexed fun _ => .dot
  | escaped escape => exact .of_lexed fun _ => .escaped escape
  | byte ordinary => exact .of_lexed fun _ => .byte ordinary
  | complete _ small ih =>
    obtain ⟨ps, rfl, branches⟩ := ih
    intro owner source bytes
    exact branches.complete small owner bytes

/-! ## Texts that are read are derived -/

section Accepted

variable {whole : List UInt8} {tree : Pattern}

theorem Lexed.shorter {after : Bool} {text more : List UInt8} {l : Lexeme}
    (lexed : Lexed after text more l) : more.length < text.length := by
  obtain ⟨b, rest, rfl⟩ := List.exists_cons_of_ne_nil lexed.ne_nil
  exact lexeme_shorter (lexeme_iff.2 lexed)

/-- What a text can begin with that is read to its end. -/
inductive Begins (macros : MacroTable) (chain : List String) (owner : Owner) (whole : List UInt8)
    (tree : Pattern) (level : Level) (outer : List Level) (after : Bool) (text : List UInt8) : Prop
  | finish (empty : text = []) (some_operand : level.last.isNone = false) (outermost : outer = [])
    (small : level.result.stateBound ≤ maxStates) (result : level.result = tree)
  | bar (more : List UInt8) (first : text = Ascii.bar :: more)
    (some_operand : level.last.isNone = false)
  | close (more : List UInt8) (first : text = Ascii.closeParen :: more)
    (some_operand : level.last.isNone = false) (inside : outer ≠ [])
  | sign (operand : Pattern) (more : List UInt8) (min : Nat) (max : Option Nat)
    (last : level.last = some operand) (derived : Sign text more min max)
    (small : (Pattern.rep operand min max).stateBound ≤ maxStates)
    (accepted : advance macros chain owner whole { level with last := some (.rep operand min max) }
      outer true more = .ok tree)
  | operand (p : Pattern) (more : List UInt8) (derived : Derives macros .atom chain text more p)
    (noCount : after = true → ¬ CountAhead text) (shorter : more.length < text.length)
    (accepted : advance macros chain owner whole (level.push p.flat) outer true more = .ok tree)

/-- A text that is read to its end from the start of a branch begins with an alternation, which
goes as far as the level does. -/
def DerivesBranches (macros : MacroTable) (chain : List String) (owner : Owner)
    (whole : List UInt8) (tree : Pattern) (text : List UInt8) : Prop :=
  ∀ (level : Level) (outer : List Level), level.items = [] → level.last = none →
    advance macros chain owner whole level outer false text = .ok tree →
      ∃ (ps : List Pattern) (rest : List UInt8) (level' : Level),
        Derives macros .alternation chain text rest (.alt ps) ∧ level'.last.isNone = false ∧
        level'.allBranches = (flatBranches ps).reverse ++ level.branches ∧
        advance macros chain owner whole level' outer true rest = .ok tree ∧
        rest.length < text.length ∧ (rest = [] ∨ ∃ more, rest = Ascii.closeParen :: more)

/-- A text that is read to its end behind a repetition goes on with a concatenation, as far as the
branch does. -/
def DerivesItems (macros : MacroTable) (chain : List String) (owner : Owner) (whole : List UInt8)
    (tree : Pattern) (text : List UInt8) : Prop :=
  ∀ (level : Level) (outer : List Level) (start : List UInt8) (p : Pattern),
    level.last = some p.flat → Derives macros .repetition chain start text p →
    advance macros chain owner whole level outer true text = .ok tree →
      ∃ (ps : List Pattern) (rest : List UInt8) (level' : Level),
        Derives macros .concatenation chain start rest (.seq ps) ∧ level'.last.isNone = false ∧
        level'.branches = level.branches ∧
        level'.allItems = (flatParts ps).reverse ++ level.items ∧
        advance macros chain owner whole level' outer true rest = .ok tree ∧
        rest.length ≤ text.length ∧
        (rest = [] ∨ (∃ more, rest = Ascii.bar :: more) ∨ ∃ more, rest = Ascii.closeParen :: more)

/-- A level that ends at the end of the text is the outermost one, and its result is the tree. -/
theorem of_advance_nil {level : Level} {outer : List Level} {after : Bool}
    (accepted : advance macros chain owner whole level outer after [] = .ok tree) :
    level.last.isNone = false ∧ outer = [] ∧ level.result.stateBound ≤ maxStates ∧
      level.result = tree := by
  rw [advance_nil] at accepted
  split at accepted
  · cases accepted
  · next some_operand =>
    split at accepted
    · cases accepted
    · next outermost =>
      cases checked : bounded level.result whole with
      | error located =>
        rw [checked] at accepted
        cases accepted
      | ok result =>
        rw [checked] at accepted
        cases accepted
        obtain ⟨small, same⟩ := of_bounded checked
        exact ⟨Bool.eq_false_of_not_eq_true some_operand, Decidable.not_not.1 outermost, small, same⟩

theorem operand_of_opening {level : Level} {outer : List Level} {after : Bool} {text : List UInt8}
    (derives : DerivesBranches macros chain owner whole tree text)
    (accepted : advance macros chain owner whole level outer after (Ascii.openParen :: text) =
      .ok tree) :
    Begins macros chain owner whole tree level outer after (Ascii.openParen :: text) := by
  rw [advance_opening] at accepted
  obtain ⟨ps, rest, level', derived, some_operand, branches, goesOn, shorter, ends⟩ :=
    derives _ _ rfl rfl accepted
  have result := result_of_allBranches branches
  -- The level of the group is not the outermost one, so the text cannot end with it.
  rcases ends with rfl | ⟨more, rfl⟩
  · obtain ⟨_, outermost, _⟩ := of_advance_nil goesOn
    cases outermost
  · rw [advance_closing, some_operand, if_neg Bool.false_ne_true, result] at goesOn
    refine .operand (.alt ps) more derived.group (fun _ => not_countAhead_of_ne (by decide)) ?_ goesOn
    rw [List.length_cons] at shorter ⊢
    omega

theorem sign_of_times {level : Level} {outer : List Level} {after : Bool} {text more : List UInt8}
    {b : UInt8} {min : Nat} {max : Option Nat} (lexed : Lexed after text more (.times b min max))
    (derived : Sign text more min max)
    (accepted : advance macros chain owner whole level outer after text = .ok tree) :
    Begins macros chain owner whole tree level outer after text := by
  rw [advance_times lexed] at accepted
  split at accepted
  · cases accepted
  · next operand last =>
    split at accepted
    · cases accepted
    · next repeated checked =>
      obtain ⟨small, rfl⟩ := of_bounded checked
      exact .sign operand more min max last derived small accepted

theorem inside_of_closing {level : Level} {outer : List Level} {after : Bool} {text : List UInt8}
    (accepted : advance macros chain owner whole level outer after (Ascii.closeParen :: text) =
      .ok tree) :
    level.last.isNone = false ∧ outer ≠ [] := by
  rw [advance_closing] at accepted
  split at accepted
  · cases accepted
  · next some_operand =>
    split at accepted
    · cases accepted
    · exact ⟨Bool.eq_false_of_not_eq_true some_operand, List.cons_ne_nil _ _⟩

theorem operand_of_lexed {level : Level} {outer : List Level} {after : Bool}
    {text more : List UInt8} {p : Pattern} (lexed : Lexed after text more (.operand p.flat))
    (derived : Derives macros .atom chain text more p) (noCount : ¬ CountAhead text)
    (accepted : advance macros chain owner whole level outer after text = .ok tree) :
    Begins macros chain owner whole tree level outer after text := by
  rw [advance_operand lexed] at accepted
  exact .operand p more derived (fun _ => noCount) lexed.shorter accepted

/-- The references of a text expand to the trees of complete patterns. -/
def DerivesFragments (macros : MacroTable) (chain : List String) (owner : Owner) : Prop :=
  ∀ (name : String) (tree : Pattern), expansion macros chain owner name = .ok tree →
    ∃ m p, name ∉ chain ∧ macros.find? name = some m ∧
      Derives macros .complete (chain ++ [name]) (utf8 m.fragment) [] p ∧ p.flat = tree

/-- A text that is read to its end begins in one of five ways. -/
theorem begins_of_advance {level : Level} {outer : List Level} {after : Bool} {text : List UInt8}
    (fragments : DerivesFragments macros chain owner)
    (groups : ∀ inside : List UInt8, inside.length < text.length →
      DerivesBranches macros chain owner whole tree inside)
    (accepted : advance macros chain owner whole level outer after text = .ok tree) :
    Begins macros chain owner whole tree level outer after text := by
  cases text with
  | nil =>
    obtain ⟨some_operand, outermost, small, result⟩ := of_advance_nil accepted
    exact .finish rfl some_operand outermost small result
  | cons b text =>
    cases read : lexeme after b text with
    | error located =>
      rw [advance, lexemes] at accepted
      split at accepted
      · cases accepted
      · next succeeded =>
        rw [read] at succeeded
        cases succeeded
    | ok result =>
      obtain ⟨l, more⟩ := result
      have lexed := lexeme_iff.1 read
      cases lexed with
      | opening => exact operand_of_opening (groups text (by simp)) accepted
      | closing =>
        obtain ⟨some_operand, inside⟩ := inside_of_closing accepted
        exact .close text rfl some_operand inside
      | bar =>
        rw [advance_bar] at accepted
        split at accepted
        · cases accepted
        · next some_operand => exact .bar text rfl (Bool.eq_false_of_not_eq_true some_operand)
      | dot => exact operand_of_lexed .dot .dot (not_countAhead_of_ne (by decide)) accepted
      | star => exact sign_of_times .star .star accepted
      | plus => exact sign_of_times .plus .plus accepted
      | question => exact sign_of_times .question .question accepted
      | charClass members =>
        exact operand_of_lexed (.charClass members) (.charClass members)
          (not_countAhead_of_ne (by decide)) accepted
      | @literal _ _ _ bytes quoted =>
        have whole_literal := flat_bytes bytes
        refine operand_of_lexed ?_ (.literal quoted) (not_countAhead_of_ne (by decide)) accepted
        rw [whole_literal]
        exact .literal quoted
      | escaped escape =>
        exact operand_of_lexed (.escaped escape) (.escaped escape)
          (not_countAhead_of_ne (by decide)) accepted
      | count bounds => exact sign_of_times (.count bounds) (.count bounds) accepted
      | @reference _ _ name isName noCount =>
        have lexed := Lexed.reference isName noCount
        rw [advance_reference lexed] at accepted
        split at accepted
        · cases accepted
        · next fragment expanded =>
          obtain ⟨m, p, fresh, defined, derived, rfl⟩ := fragments name fragment expanded
          exact .operand p more (.reference isName fresh defined derived) noCount lexed.shorter
            accepted
      | byte ordinary =>
        refine operand_of_lexed (.byte ordinary) (.byte ordinary) (not_countAhead_of_ne ?_) accepted
        rintro rfl
        exact ordinary (by decide)

/-- The items behind a repetition, given that shorter texts have derivations. -/
theorem items_of_advance {text : List UInt8} (fragments : DerivesFragments macros chain owner)
    (branches : ∀ inside : List UInt8, inside.length < text.length →
      DerivesBranches macros chain owner whole tree inside)
    (items : ∀ inside : List UInt8, inside.length < text.length →
      DerivesItems macros chain owner whole tree inside) :
    DerivesItems macros chain owner whole tree text := by
  intro level outer start p last derived accepted
  have alone : level.allItems = (flatParts [p]).reverse ++ level.items := by
    rw [Level.allItems, last, flatParts, flatParts, List.append_nil]
  cases begins_of_advance fragments branches accepted with
  | finish empty some_operand _ _ _ =>
    exact ⟨[p], text, level, .item derived, some_operand, rfl, alone, accepted, Nat.le_refl _,
      .inl empty⟩
  | bar more first some_operand =>
    exact ⟨[p], text, level, .item derived, some_operand, rfl, alone, accepted, Nat.le_refl _,
      .inr (.inl ⟨more, first⟩)⟩
  | close more first some_operand _ =>
    exact ⟨[p], text, level, .item derived, some_operand, rfl, alone, accepted, Nat.le_refl _,
      .inr (.inr ⟨more, first⟩)⟩
  | sign operand more min max lastOperand sign small goesOn =>
    -- The sign makes a longer repetition of the one that was derived.
    rw [last, Option.some.injEq] at lastOperand
    subst lastOperand
    obtain ⟨b, lexed⟩ := sign.lexed
    obtain ⟨ps, rest, level', derivedAll, some_operand, same, added, ended, shorter, ends⟩ :=
      items more lexed.shorter _ outer start (.rep p min max) rfl (derived.repeated sign small) goesOn
    exact ⟨ps, rest, level', derivedAll, some_operand, same, added, ended,
      Nat.le_trans shorter (Nat.le_of_lt lexed.shorter), ends⟩
  | operand q more atom noCount shorter goesOn =>
    -- The repetition is an item, and the atom begins the next one.
    obtain ⟨ps, rest, level', derivedAll, some_operand, same, added, ended, shorterRest, ends⟩ :=
      items more shorter _ outer text q rfl atom.once goesOn
    refine ⟨p :: ps, rest, level', derived.items (noCount rfl) derivedAll, some_operand, same, ?_,
      ended, Nat.le_trans shorterRest (Nat.le_of_lt shorter), ends⟩
    have before : (level.push q.flat).items = level.allItems := rfl
    rw [added, before, alone, flatParts, flatParts, flatParts, List.append_nil, List.reverse_append,
      List.append_assoc]

/-- The branches from the start of one on, given that shorter texts have derivations. -/
theorem branches_of_advance {text : List UInt8} (fragments : DerivesFragments macros chain owner)
    (branches : ∀ inside : List UInt8, inside.length < text.length →
      DerivesBranches macros chain owner whole tree inside)
    (items : ∀ inside : List UInt8, inside.length < text.length →
      DerivesItems macros chain owner whole tree inside) :
    DerivesBranches macros chain owner whole tree text := by
  intro level outer noItems noOperand accepted
  have absurdly : ¬ level.last.isNone = false := by
    rw [noOperand]
    exact nofun
  cases begins_of_advance fragments branches accepted with
  | finish _ some_operand _ _ _ => exact absurd some_operand absurdly
  | bar _ _ some_operand => exact absurd some_operand absurdly
  | close _ _ some_operand _ => exact absurd some_operand absurdly
  | sign operand _ _ _ last _ _ _ =>
    rw [noOperand] at last
    cases last
  | operand p more atom _ shorter goesOn =>
    obtain ⟨ps, rest, level', derived, some_operand, same, added, ended, shorterRest, ends⟩ :=
      items more shorter _ outer text p rfl atom.once goesOn
    have all := allBranches_of_items noItems noOperand same added
    have shorterAll := Nat.lt_of_le_of_lt shorterRest shorter
    -- The branch ends with the text, at a bar or at the end of the group.
    rcases ends with rfl | ⟨more, rfl⟩ | ⟨more, rfl⟩
    · refine ⟨[.seq ps], [], level', derived.branch, some_operand, ?_, ended, shorterAll, .inl rfl⟩
      rw [all, flatBranches, flatBranches, List.append_nil]
    · rw [advance_bar, some_operand, if_neg Bool.false_ne_true] at ended
      rw [List.length_cons] at shorterAll
      obtain ⟨qs, rest, level₂, derivedOthers, some_operand₂, branches₂, ended₂, shorter₂, ends₂⟩ :=
        branches more (Nat.lt_of_succ_lt shorterAll) level'.nextBranch outer rfl rfl ended
      refine ⟨.seq ps :: qs, rest, level₂, derived.branches derivedOthers, some_operand₂, ?_, ended₂,
        by omega, ends₂⟩
      rw [branches₂, flatBranches, List.reverse_append, List.append_assoc, ← all]
      rfl
    · refine ⟨[.seq ps], _, level', derived.branch, some_operand, ?_, ended, shorterAll,
        .inr ⟨more, rfl⟩⟩
      rw [all, flatBranches, flatBranches, List.append_nil]

/-- Texts that are read to their end have derivations. -/
theorem derives_of_advance (fragments : DerivesFragments macros chain owner) (text : List UInt8) :
    DerivesBranches macros chain owner whole tree text ∧
      DerivesItems macros chain owner whole tree text := by
  -- Both at once: branches consist of items, and an item may be a group of branches.
  induction length : text.length using Nat.strong_induction_on generalizing text with
  | _ n ih =>
    subst length
    have branches := fun (inside : List UInt8) (shorter : inside.length < text.length) =>
      (ih _ shorter inside rfl).1
    have items := fun (inside : List UInt8) (shorter : inside.length < text.length) =>
      (ih _ shorter inside rfl).2
    exact ⟨branches_of_advance fragments branches items, items_of_advance fragments branches items⟩

end Accepted

/-- A text that is accepted has a derivation, given that its references expand to such texts. -/
theorem complete_of_parseFragment {source : String} {tree : Pattern}
    (fragments : DerivesFragments macros chain owner)
    (accepted : parseFragment macros chain owner source = .ok tree) :
    ∃ p, Derives macros .complete chain (utf8 source) [] p ∧ p.flat = tree := by
  rw [parseFragment_eq] at accepted
  split at accepted
  · cases accepted
  · obtain ⟨ps, rest, level, derived, some_operand, branches, ended, _, ends⟩ :=
      (derives_of_advance fragments (utf8 source)).1 _ _ rfl rfl accepted
    rcases ends with rfl | ⟨more, rfl⟩
    · obtain ⟨_, _, small, result⟩ := of_advance_nil ended
      rw [result_of_allBranches branches] at small result
      exact ⟨_, derived.complete small, result⟩
    · -- A parenthesis that closes nothing is not accepted.
      obtain ⟨_, inside⟩ := inside_of_closing ended
      exact absurd rfl inside

/-- The reader accepts what the grammar derives, and returns the flat tree of the derivation. -/
theorem parseFragment_iff {source : String} {tree : Pattern} :
    parseFragment macros chain owner source = .ok tree ↔
      ∃ p, Derives macros .complete chain (utf8 source) [] p ∧ p.flat = tree := by
  constructor
  · induction chain using chain_induct macros generalizing owner source tree with
    | extend chain ih =>
      refine complete_of_parseFragment fun name fragment expanded => ?_
      obtain ⟨fresh, m, defined, accepted⟩ := exists_of_expansion expanded
      obtain ⟨p, derived, same⟩ := ih name m fresh defined accepted
      exact ⟨m, p, fresh, defined, derived, same⟩
  · rintro ⟨p, derived, rfl⟩
    exact derived.reads owner source rfl

/-! ## Patterns -/

/-- A pattern is accepted exactly if it has a derivation, and its tree then matches what the tree of
any derivation matches. -/
theorem parse_iff_derives (macros : MacroTable) (owner : Owner) (source : String) :
    ((∃ tree, parse macros owner source = .ok tree) ↔
      ∃ p, Derives macros .complete [] (utf8 source) [] p) ∧
    ∀ tree p, parse macros owner source = .ok tree →
      Derives macros .complete [] (utf8 source) [] p → tree.language = p.language := by
  refine ⟨⟨?_, ?_⟩, fun tree p accepted derived => ?_⟩
  · rintro ⟨tree, accepted⟩
    obtain ⟨p, derived, _⟩ := parseFragment_iff.1 accepted
    exact ⟨p, derived⟩
  · rintro ⟨p, derived⟩
    exact ⟨p.flat, parseFragment_iff.2 ⟨p, derived, rfl⟩⟩
  · have read : parse macros owner source = .ok p.flat := parseFragment_iff.2 ⟨p, derived, rfl⟩
    rw [accepted] at read
    rw [Except.ok.inj read, language_flat]

/-- A group of two branches, a sign behind it, and one more byte. -/
theorem parse_iff_derives_group :
    ∃ tree p, parse .empty (.named "unit") "(a|b)*c" = .ok tree ∧
      Derives .empty .complete [] (utf8 "(a|b)*c") [] p ∧ tree.language = p.language := by
  have bytes : utf8 "(a|b)*c" =
      [Ascii.openParen, 0x61, Ascii.bar, 0x62, Ascii.closeParen, Ascii.star, 0x63] := by decide
  have group : Derives .empty .atom [] (utf8 "(a|b)*c") [Ascii.star, 0x63]
      (.alt [.seq [byte 0x61], .seq [byte 0x62]]) := by
    rw [bytes]
    exact .group (.branches (.item (.once (.byte (by decide))))
      (.branch (.item (.once (.byte (by decide))))))
  have noCount : ¬ CountAhead [0x63] := not_countAhead_of_ne (by decide)
  have derived : Derives .empty .complete [] (utf8 "(a|b)*c") [] _ :=
    .complete (.branch (.items (.repeated (.once group) .star (by decide)) noCount
      (.item (.once (.byte (by decide)))))) (by decide)
  obtain ⟨accepts, means⟩ := parse_iff_derives .empty (.named "unit") "(a|b)*c"
  obtain ⟨tree, accepted⟩ := accepts.2 ⟨_, derived⟩
  exact ⟨tree, _, accepted, derived, means tree _ accepted derived⟩

end ScannerGen.Pattern
