import ScannerGen.Proofs.Pattern.NormalForm

/-!
# Where sizes are checked

A pattern is refused for its size at one of its subpatterns: at a repetition, at a fragment that a
reference expands to, or at the whole pattern.  This module says which subpatterns those are, in the
words of the grammar, and that a refusal for size is a refusal of one of them.

* `ItemAt`, `Checked` — where an item of a text may begin, and the trees whose size is checked, with the
  owner and the position that a refusal names.
* `checked_of_refused` — a refusal for size is that of a checked tree which is too large.  The levels
  of the reader hold what has been derived so far (`Opens`, `Stands`), and every lexeme keeps that.
* `refused_of_checked` — a checked tree that is too large is refused.
-/

namespace ScannerGen.Pattern

/-! ## Checked trees -/

/-- Where an item may begin when a text is read from its front: there, behind another item, behind the
bar that ends a branch, and inside a group. -/
inductive ItemAt (macros : MacroTable) (chain : List String) (text : List UInt8) : List UInt8 → Prop
  | first : ItemAt macros chain text text
  | next {start here : List UInt8} {p : Pattern} (before : ItemAt macros chain text start)
    (item : Derives macros .repetition chain start here p) (noCount : ¬ CountAhead here) :
    ItemAt macros chain text here
  | branch {start here : List UInt8} {p : Pattern} (before : ItemAt macros chain text start)
    (item : Derives macros .repetition chain start (Ascii.bar :: here) p) :
    ItemAt macros chain text here
  | group {here : List UInt8} (before : ItemAt macros chain text (Ascii.openParen :: here)) :
    ItemAt macros chain text here

/-- The trees whose size is checked while the text of an owner is read, each with the owner and the
position that its refusal names. -/
inductive Checked (macros : MacroTable) :
    List String → Owner → List UInt8 → Owner → Nat → Pattern → Prop
  /-- A repetition, at its sign. -/
  | repetition {chain : List String} {owner : Owner} {text start here rest : List UInt8} {p : Pattern}
    {min : Nat} {max : Option Nat} (item : ItemAt macros chain text start)
    (body : Derives macros .repetition chain start here p) (sign : Sign here rest min max) :
    Checked macros chain owner text owner (text.length - here.length) (flat (.rep p min max))
  /-- The whole text, at its front. -/
  | whole {chain : List String} {owner : Owner} {text : List UInt8} {p : Pattern}
    (all : Derives macros .alternation chain text [] p) :
    Checked macros chain owner text owner 0 p.flat
  /-- A tree of a fragment that is expanded. -/
  | fragment {chain : List String} {owner owner' : Owner} {text rest : List UInt8} {name : String}
    {m : Macro} {position : Nat} {p : Pattern} (isName : IsName name)
    (item : ItemAt macros chain text (Ascii.openBrace :: (utf8 name ++ Ascii.closeBrace :: rest)))
    (fresh : name ∉ chain) (defined : macros.find? name = some m)
    (inside : Checked macros (chain ++ [name]) (.fragment m.name m.origin) (utf8 m.fragment) owner'
      position p) :
    Checked macros chain owner text owner' position p

variable {macros : MacroTable} {chain : List String} {owner owner' : Owner} {text : List UInt8}
  {position : Nat}

/-- What is checked is normal. -/
theorem Checked.normal {p : Pattern} (checked : Checked macros chain owner text owner' position p) :
    p.Normal := by
  induction checked with
  | repetition _ body sign => exact .rep body.sound.readable_flat.normal sign.counts
  | whole all => exact all.sound.readable_flat.normal
  | fragment _ _ _ _ _ ih => exact ih

/-- The error of a tree that is too large. -/
def sizeError (owner : Owner) (position : Nat) : Error := .invalid owner position .tooManyStates

/-! ## Checked trees are refused -/

/-- The reader comes to every place where an item may begin. -/
theorem ItemAt.reads {start : List UInt8} (item : ItemAt macros chain text start) (owner : Owner)
    (whole : List UInt8) :
    ∃ (level : Level) (outer : List Level) (after : Bool), (after = true → ¬ CountAhead start) ∧
      advance macros chain owner whole (.fresh []) [] false text =
        advance macros chain owner whole level outer after start := by
  induction item with
  | first => exact ⟨_, _, _, fun absurdly => absurd absurdly Bool.false_ne_true, rfl⟩
  | @next start here p _ item noCount ih =>
    obtain ⟨level, outer, after, ahead, advanced⟩ := ih
    refine ⟨level.push p.flat, outer, true, fun _ => noCount, ?_⟩
    rw [advanced, item.reads owner whole level outer after ahead]
  | @branch start here p _ item ih =>
    obtain ⟨level, outer, after, ahead, advanced⟩ := ih
    refine ⟨(level.push p.flat).nextBranch, outer, false,
      fun absurdly => absurd absurdly Bool.false_ne_true, ?_⟩
    rw [advanced, item.reads owner whole level outer after ahead, advance_bar]
    rfl
  | @group here _ ih =>
    obtain ⟨level, outer, after, _, advanced⟩ := ih
    refine ⟨.fresh (Ascii.openParen :: here), level :: outer, false,
      fun absurdly => absurd absurdly Bool.false_ne_true, ?_⟩
    rw [advanced, advance_opening]

theorem bounded_of_lt {tree : Pattern} (large : maxStates < tree.stateBound) (suffix : List UInt8) :
    bounded tree suffix = .error ⟨.tooManyStates, suffix⟩ := by
  rw [bounded, if_pos large]

/-- The reader refuses a text if it comes to a refusal for size.  The empty text is refused for another
reason. -/
theorem parseFragment_of_advance {source : String}
    (refused : advance macros chain owner (utf8 source) (.fresh []) [] false (utf8 source) =
      .error (sizeError owner' position)) :
    parseFragment macros chain owner source = .error (sizeError owner' position) := by
  have some_bytes : utf8 source ≠ [] := by
    intro empty
    have fresh : (Level.fresh []).last.isNone = true := rfl
    rw [empty, advance_nil, if_pos fresh] at refused
    cases refused
  rw [parseFragment_eq, if_neg some_bytes, refused]

/-- A checked tree that is too large is refused, under the owner and at the position that go with it. -/
theorem refused_of_checked {p : Pattern} (checked : Checked macros chain owner text owner' position p)
    (large : maxStates < p.stateBound) {source : String} (bytes : utf8 source = text) :
    parseFragment macros chain owner source = .error (sizeError owner' position) := by
  induction checked generalizing source with
  | @repetition chain owner text start here rest p min max item body sign =>
    subst bytes
    apply parseFragment_of_advance
    obtain ⟨level, outer, after, ahead, advanced⟩ := item.reads owner (utf8 source)
    obtain ⟨b, lexed⟩ := sign.lexed
    have tooLarge : bounded (.rep p.flat min max) here = .error ⟨.tooManyStates, here⟩ :=
      bounded_of_lt large here
    have last : (level.push p.flat).last = some p.flat := rfl
    rw [advanced, body.reads owner (utf8 source) level outer after ahead, advance_times lexed]
    simp only [last, tooLarge]
    rfl
  | @whole chain owner text p all =>
    subst bytes
    apply parseFragment_of_advance
    obtain ⟨ps, rfl, branches⟩ := all.reads
    obtain ⟨level, some_operand, allBranches, advanced⟩ :=
      branches owner (utf8 source) (.fresh []) [] rfl rfl
    rw [advanced, advance_nil, some_operand, if_neg Bool.false_ne_true,
      if_neg (fun inside => inside rfl), result_of_allBranches allBranches, bounded_of_lt large]
    show Except.error (Error.invalid owner ((utf8 source).length - (utf8 source).length) _) = _
    rw [Nat.sub_self]
    rfl
  | @fragment chain owner owner' text rest name m position p isName item fresh defined _ ih =>
    subst bytes
    apply parseFragment_of_advance
    obtain ⟨level, outer, after, ahead, advanced⟩ := item.reads owner (utf8 source)
    have refused : expansion macros chain owner name = .error (sizeError owner' position) :=
      (expansion_of_fresh fresh defined).trans (ih large rfl)
    rw [advanced, advance_reference (.reference isName ahead), refused]

/-! ## Faults of lexemes -/

section Faults

variable {fault : Fault} {located : Located} {bytes : List UInt8}

theorem escape_fault (failed : escape bytes = .error fault) : fault ≠ .tooManyStates := by
  unfold escape at failed
  grind

theorem literalBytes_fault (failed : literalBytes bytes = .error fault) : fault ≠ .tooManyStates := by
  fun_induction literalBytes bytes <;> grind [→ escape_fault]

theorem classByte_fault (failed : classByte bytes = .error located) :
    located.fault ≠ .tooManyStates := by
  unfold classByte at failed
  grind [→ escape_fault]

theorem classMembers_fault {whole : List UInt8} {first : Bool} {members : ByteSet}
    (failed : classMembers whole first members bytes = .error located) :
    located.fault ≠ .tooManyStates := by
  fun_induction classMembers whole first members bytes <;> grind [→ classByte_fault]

theorem classSet_fault {whole : List UInt8} (failed : classSet whole bytes = .error located) :
    located.fault ≠ .tooManyStates := by
  unfold classSet at failed
  grind [→ classMembers_fault]

theorem referenceName_fault (failed : referenceName bytes = .error fault) :
    fault ≠ .tooManyStates := by
  unfold referenceName at failed
  grind

theorem countNumber_fault (failed : countNumber bytes = .error fault) : fault ≠ .tooManyStates := by
  unfold countNumber at failed
  grind

theorem countBounds_fault (failed : countBounds bytes = .error fault) : fault ≠ .tooManyStates := by
  unfold countBounds at failed
  grind [→ countNumber_fault]

/-- No lexeme is at fault for its size. -/
theorem lexeme_fault {after : Bool} {b : UInt8} (failed : lexeme after b bytes = .error located) :
    located.fault ≠ .tooManyStates := by
  unfold lexeme at failed
  grind [→ classSet_fault, → literalBytes_fault, → escape_fault, → countBounds_fault,
    → referenceName_fault]

end Faults

/-! ## What the levels hold -/

/-- The items from one place to another: whatever items follow there, these come before them. -/
def ItemsTo (macros : MacroTable) (chain : List String) (start here : List UInt8)
    (ps : List Pattern) : Prop :=
  ∀ rest qs, Derives macros .concatenation chain here rest (.seq qs) →
    Derives macros .concatenation chain start rest (.seq (ps ++ qs))

/-- The branches from one place to another: whatever branches follow there, these come before them. -/
def BranchesTo (macros : MacroTable) (chain : List String) (start here : List UInt8)
    (ps : List Pattern) : Prop :=
  ∀ rest qs, Derives macros .alternation chain here rest (.alt qs) →
    Derives macros .alternation chain start rest (.alt (ps ++ qs))

theorem ItemsTo.nil (here : List UInt8) : ItemsTo macros chain here here [] := fun _ _ derived => derived

theorem BranchesTo.nil (here : List UInt8) : BranchesTo macros chain here here [] :=
  fun _ _ derived => derived

section Derived

variable {start item here more : List UInt8} {ps bs : List Pattern} {p : Pattern}

theorem ItemsTo.snoc (items : ItemsTo macros chain start item ps)
    (derived : Derives macros .repetition chain item here p) (noCount : ¬ CountAhead here) :
    ItemsTo macros chain start here (ps ++ [p]) := by
  intro rest qs others
  rw [List.append_assoc]
  exact items rest (p :: qs) (derived.items noCount others)

/-- The items of a branch up to the last one. -/
theorem ItemsTo.last (items : ItemsTo macros chain start item ps)
    (derived : Derives macros .repetition chain item here p) :
    Derives macros .concatenation chain start here (.seq (ps ++ [p])) :=
  items here [p] derived.item

theorem BranchesTo.snoc {q : Pattern} (branches : BranchesTo macros chain start item bs)
    (derived : Derives macros .concatenation chain item (Ascii.bar :: more) q) :
    BranchesTo macros chain start more (bs ++ [q]) := by
  intro rest qs others
  rw [List.append_assoc]
  exact branches rest (q :: qs) (derived.branches others)

/-- The branches of an alternation up to the last one. -/
theorem BranchesTo.last {q : Pattern} (branches : BranchesTo macros chain start item bs)
    (derived : Derives macros .concatenation chain item here q) :
    Derives macros .alternation chain start here (.alt (bs ++ [q])) :=
  branches here [q] derived.branch

theorem flatParts_append (ps qs : List Pattern) : flatParts (ps ++ qs) = flatParts ps ++ flatParts qs := by
  induction ps with
  | nil => rfl
  | cons p ps ih => rw [List.cons_append, flatParts, flatParts, ih, List.append_assoc]

theorem flatBranches_append (ps qs : List Pattern) :
    flatBranches (ps ++ qs) = flatBranches ps ++ flatBranches qs := by
  induction ps with
  | nil => rfl
  | cons p ps ih => rw [List.cons_append, flatBranches, flatBranches, ih, List.append_assoc]

end Derived

/-- A level holds what was derived from the place where it began to the place where the reader is. -/
inductive Opens (macros : MacroTable) (chain : List String) (text : List UInt8) (level : Level)
    (start here : List UInt8) : Prop
  /-- A branch begins. -/
  | branch (bs : List Pattern) (item : ItemAt macros chain text here)
    (branches : BranchesTo macros chain start here bs)
    (allBranches : level.branches = (flatBranches bs).reverse) (noItems : level.items = [])
    (noOperand : level.last = none)
  /-- An item of a branch has been read, and signs may follow it. -/
  | operand (bs ps : List Pattern) (branch begun : List UInt8) (p : Pattern)
    (item : ItemAt macros chain text begun) (branches : BranchesTo macros chain start branch bs)
    (items : ItemsTo macros chain branch begun ps)
    (derived : Derives macros .repetition chain begun here p)
    (allBranches : level.branches = (flatBranches bs).reverse)
    (allItems : level.items = (flatParts ps).reverse) (last : level.last = some p.flat)

/-- The open levels, innermost first, each behind the parenthesis that opened it. -/
inductive Stands (macros : MacroTable) (chain : List String) (text : List UInt8) :
    Level → List Level → List UInt8 → Prop
  | outermost {level : Level} {here : List UInt8} (opens : Opens macros chain text level text here) :
    Stands macros chain text level [] here
  | group {level enclosing : Level} {outer : List Level} {start here : List UInt8}
    (opens : Opens macros chain text level start here)
    (outside : Stands macros chain text enclosing outer (Ascii.openParen :: start)) :
    Stands macros chain text level (enclosing :: outer) here

section Levels

variable {level : Level} {outer : List Level} {start here more : List UInt8}

/-- An atom begins where an item may begin. -/
theorem Opens.itemAt (opens : Opens macros chain text level start here)
    (noCount : level.last.isSome = true → ¬ CountAhead here) : ItemAt macros chain text here := by
  cases opens with
  | branch bs item _ _ _ _ => exact item
  | operand bs ps branch begun p item _ _ derived _ _ last =>
    exact item.next derived (noCount (by rw [last]; rfl))

theorem Opens.push {p : Pattern} (opens : Opens macros chain text level start here)
    (atom : Derives macros .atom chain here more p)
    (noCount : level.last.isSome = true → ¬ CountAhead here) :
    Opens macros chain text (level.push p.flat) start more := by
  have item := opens.itemAt noCount
  cases opens with
  | branch bs _ branches allBranches noItems noOperand =>
    exact .operand bs [] here here p item branches (.nil here) atom.once allBranches
      (allItems_of_none noItems noOperand) rfl
  | operand bs ps branch begun q _ branches items derived allBranches allItems last =>
    have ahead := noCount (by rw [last]; rfl)
    refine .operand bs (ps ++ [q]) branch here p item branches (items.snoc derived ahead) atom.once
      allBranches ?_ rfl
    show level.allItems = _
    rw [Level.allItems, last, allItems, flatParts_append, flatParts, flatParts, List.append_nil,
      List.reverse_append]

/-- The branches of a level with an operand, the one being read included. -/
theorem level_allBranches {bs ps : List Pattern} {p : Pattern}
    (allBranches : level.branches = (flatBranches bs).reverse)
    (allItems : level.items = (flatParts ps).reverse) (last : level.last = some p.flat) :
    level.allBranches = (flatBranches (bs ++ [.seq (ps ++ [p])])).reverse := by
  have items : level.allItems.reverse = flatParts (ps ++ [p]) := by
    rw [Level.allItems, last, allItems, flatParts_append, flatParts, flatParts, List.append_nil,
      List.reverse_append, List.reverse_reverse, List.reverse_reverse]
  rw [Level.allBranches, items, allBranches, flatBranches_append, flatBranches, flatBranches, flat,
    List.append_nil, List.reverse_append]

/-- A level with an operand ends as an alternation. -/
theorem Opens.alternation (opens : Opens macros chain text level start here)
    (some_operand : level.last.isNone = false) :
    ∃ bs, Derives macros .alternation chain start here (.alt bs) ∧
      level.allBranches = (flatBranches bs).reverse := by
  cases opens with
  | branch bs _ _ _ _ noOperand =>
    rw [noOperand] at some_operand
    cases some_operand
  | operand bs ps branch begun p _ branches items derived allBranches allItems last =>
    exact ⟨_, branches.last (items.last derived), level_allBranches allBranches allItems last⟩

/-- The repetition that a sign behind the last operand applies to. -/
theorem Opens.lastOperand (opens : Opens macros chain text level start here) {operand : Pattern}
    (last : level.last = some operand) :
    ∃ begun p, ItemAt macros chain text begun ∧ Derives macros .repetition chain begun here p ∧
      operand = p.flat := by
  cases opens with
  | branch bs _ _ _ _ noOperand =>
    rw [noOperand] at last
    cases last
  | operand bs ps branch begun p item _ _ derived _ _ given =>
    rw [given] at last
    exact ⟨begun, p, item, derived, (Option.some.inj last).symm⟩

theorem Opens.sign (opens : Opens macros chain text level start here) {operand : Pattern} {min : Nat}
    {max : Option Nat} (last : level.last = some operand) (sign : Sign here more min max)
    (small : (Pattern.rep operand min max).stateBound ≤ maxStates) :
    Opens macros chain text { level with last := some (.rep operand min max) } start more := by
  cases opens with
  | branch bs _ _ _ _ noOperand =>
    rw [noOperand] at last
    cases last
  | operand bs ps branch begun p item branches items derived allBranches allItems given =>
    rw [given] at last
    obtain rfl := Option.some.inj last
    exact .operand bs ps branch begun (.rep p min max) item branches items
      (derived.repeated sign small) allBranches allItems rfl

theorem Opens.bar (opens : Opens macros chain text level start (Ascii.bar :: more))
    (some_operand : level.last.isNone = false) :
    Opens macros chain text level.nextBranch start more := by
  cases opens with
  | branch bs _ _ _ _ noOperand =>
    rw [noOperand] at some_operand
    cases some_operand
  | operand bs ps branch begun p item branches items derived allBranches allItems last =>
    refine .branch _ (item.branch derived) (branches.snoc (items.last derived)) ?_ rfl rfl
    show level.allBranches = _
    exact level_allBranches allBranches allItems last

/-- What is true of one open level is true of the innermost one. -/
theorem Stands.step {level' : Level} (stands : Stands macros chain text level outer here)
    (step : ∀ start, Opens macros chain text level start here →
      Opens macros chain text level' start more) : Stands macros chain text level' outer more := by
  cases stands with
  | outermost opens => exact .outermost (step text opens)
  | group opens outside => exact .group (step _ opens) outside

theorem Stands.exists_opens (stands : Stands macros chain text level outer here) :
    ∃ start, Opens macros chain text level start here := by
  cases stands with
  | outermost opens | group opens _ => exact ⟨_, opens⟩

theorem Stands.opening (stands : Stands macros chain text level outer (Ascii.openParen :: more)) :
    Stands macros chain text (.fresh (Ascii.openParen :: more)) (level :: outer) more := by
  obtain ⟨start, opens⟩ := stands.exists_opens
  have item := opens.itemAt fun _ => not_countAhead_of_ne (by decide)
  exact .group (.branch [] item.group (.nil more) rfl rfl rfl) stands

/-- A group that is closed is an operand of the level around it. -/
theorem Stands.closing {enclosing : Level}
    (stands : Stands macros chain text level (enclosing :: outer) (Ascii.closeParen :: more))
    (some_operand : level.last.isNone = false) :
    Stands macros chain text (enclosing.push level.result) outer more := by
  cases stands with
  | group opens outside =>
    obtain ⟨bs, derived, allBranches⟩ := opens.alternation some_operand
    have result : level.result = flat (.alt bs) := by
      rw [Level.result, allBranches, List.reverse_reverse, flat]
    rw [result]
    refine outside.step fun start opens => ?_
    exact opens.push derived.group fun _ => not_countAhead_of_ne (by decide)

end Levels

/-! ## Refusals for size -/

/-- Some tree is checked, under an owner and at a position, and is too large. -/
def Oversized (macros : MacroTable) (chain : List String) (owner : Owner) (text : List UInt8)
    (owner' : Owner) (position : Nat) : Prop :=
  ∃ p, Checked macros chain owner text owner' position p ∧ maxStates < p.stateBound

/-- What one lexeme of a text may come to: the rest of the text is refused, from levels that again hold
what was derived. -/
def RestRefused (macros : MacroTable) (chain : List String) (owner : Owner) (text : List UInt8)
    (owner' : Owner) (position : Nat) (here : List UInt8) : Prop :=
  ∃ (level : Level) (outer : List Level) (more : List UInt8), more.length < here.length ∧
    Stands macros chain text level outer more ∧
    advance macros chain owner text level outer level.last.isSome more =
      .error (sizeError owner' position)

section Refusals

variable {level : Level} {outer : List Level} {after : Bool} {here more : List UInt8}

theorem oversized_of_bounded {p : Pattern}
    (refused : (bounded p here).mapError (Located.toError owner text) =
      .error (sizeError owner' position)) :
    maxStates < p.stateBound ∧ owner' = owner ∧ position = text.length - here.length := by
  rw [bounded] at refused
  split at refused
  · next large =>
    cases refused
    exact ⟨large, rfl, rfl⟩
  · cases refused

/-- At the end of the text it is the whole of it that is refused. -/
theorem oversized_of_advance_nil (stands : Stands macros chain text level outer [])
    (refused : advance macros chain owner text level outer after [] =
      .error (sizeError owner' position)) :
    Oversized macros chain owner text owner' position := by
  rw [advance_nil] at refused
  split at refused
  · cases refused
  · next some_operand =>
    split at refused
    · cases refused
    · next outermost =>
      obtain rfl := Decidable.not_not.1 outermost
      cases stands with
      | outermost opens =>
        obtain ⟨bs, derived, allBranches⟩ :=
          opens.alternation (Bool.eq_false_of_not_eq_true some_operand)
        have result : level.result = flat (.alt bs) := by
          rw [Level.result, allBranches, List.reverse_reverse, flat]
        obtain ⟨large, rfl, rfl⟩ := oversized_of_bounded refused
        rw [result] at large
        rw [Nat.sub_self]
        exact ⟨_, .whole derived, large⟩

theorem restRefused_of_atom {p : Pattern} (stands : Stands macros chain text level outer here)
    (shorter : more.length < here.length) (atom : Derives macros .atom chain here more p)
    (noCount : level.last.isSome = true → ¬ CountAhead here)
    (refused : advance macros chain owner text (level.push p.flat) outer true more =
      .error (sizeError owner' position)) :
    RestRefused macros chain owner text owner' position here :=
  ⟨level.push p.flat, outer, more, shorter, stands.step fun _ opens => opens.push atom noCount, refused⟩

theorem restRefused_of_lexed {p : Pattern} (stands : Stands macros chain text level outer here)
    (lexed : Lexed after here more (.operand p.flat)) (atom : Derives macros .atom chain here more p)
    (noCount : ¬ CountAhead here)
    (refused : advance macros chain owner text level outer after here =
      .error (sizeError owner' position)) :
    RestRefused macros chain owner text owner' position here := by
  rw [advance_operand lexed] at refused
  exact restRefused_of_atom stands lexed.shorter atom (fun _ => noCount) refused

/-- At a sign it is the repetition that is refused, or something behind it. -/
theorem refused_of_times {b : UInt8} {min : Nat} {max : Option Nat}
    (stands : Stands macros chain text level outer here)
    (lexed : Lexed after here more (.times b min max)) (sign : Sign here more min max)
    (refused : advance macros chain owner text level outer after here =
      .error (sizeError owner' position)) :
    Oversized macros chain owner text owner' position ∨
      RestRefused macros chain owner text owner' position here := by
  rw [advance_times lexed] at refused
  split at refused
  · cases refused
  · next operand last =>
    split at refused
    · next located checked =>
      have mapped : (bounded (.rep operand min max) here).mapError (Located.toError owner text) =
          .error (sizeError owner' position) := by
        rw [checked]
        exact refused
      obtain ⟨start, opens⟩ := stands.exists_opens
      obtain ⟨begun, p, item, derived, rfl⟩ := opens.lastOperand last
      obtain ⟨large, rfl, rfl⟩ := oversized_of_bounded mapped
      exact .inl ⟨_, .repetition item derived sign, large⟩
    · next repeated checked =>
      obtain ⟨small, rfl⟩ := of_bounded checked
      exact .inr ⟨_, outer, more, lexed.shorter,
        stands.step fun _ opens => opens.sign last sign small, refused⟩

/-- The trees that are checked in the fragments of a text account for their refusals. -/
def FragmentsOversized (macros : MacroTable) (chain : List String) (owner' : Owner) (position : Nat) :
    Prop :=
  ∀ name m, name ∉ chain → macros.find? name = some m →
    parseFragment macros (chain ++ [name]) (.fragment m.name m.origin) m.fragment =
      .error (sizeError owner' position) →
    Oversized macros (chain ++ [name]) (.fragment m.name m.origin) (utf8 m.fragment) owner' position

theorem refused_of_reference {rest : List UInt8} {name : String}
    (fragments : FragmentsOversized macros chain owner' position)
    (stands : Stands macros chain text level outer
      (Ascii.openBrace :: (utf8 name ++ Ascii.closeBrace :: rest)))
    (isName : IsName name) (behind : level.last.isSome = after) (noCount : after = true →
      ¬ CountAhead (Ascii.openBrace :: (utf8 name ++ Ascii.closeBrace :: rest)))
    (refused : advance macros chain owner text level outer after
      (Ascii.openBrace :: (utf8 name ++ Ascii.closeBrace :: rest)) =
        .error (sizeError owner' position)) :
    Oversized macros chain owner text owner' position ∨
      RestRefused macros chain owner text owner' position
        (Ascii.openBrace :: (utf8 name ++ Ascii.closeBrace :: rest)) := by
  subst behind
  have lexed := Lexed.reference isName noCount
  rw [advance_reference lexed] at refused
  split at refused
  · next e failed =>
    cases refused
    obtain ⟨start, opens⟩ := stands.exists_opens
    rw [expansion] at failed
    split at failed
    · cases failed
    · next fresh =>
      rw [List.contains_iff_mem] at fresh
      split at failed
      · cases failed
      · next m defined =>
        obtain ⟨p, checked, large⟩ := fragments name m fresh defined failed
        exact .inl ⟨p, .fragment isName (opens.itemAt noCount) fresh defined checked, large⟩
  · next tree expanded =>
    obtain ⟨fresh, m, defined, accepted⟩ := exists_of_expansion expanded
    obtain ⟨p, derived, rfl⟩ := parseFragment_iff.1 accepted
    exact .inr (restRefused_of_atom stands lexed.shorter (.reference isName fresh defined derived)
      noCount refused)

/-- A text that is refused for size is refused at its next lexeme, or behind it. -/
theorem refused_of_advance_cons {b : UInt8} {rest : List UInt8}
    (fragments : FragmentsOversized macros chain owner' position)
    (stands : Stands macros chain text level outer (b :: rest)) (behind : level.last.isSome = after)
    (refused : advance macros chain owner text level outer after (b :: rest) =
      .error (sizeError owner' position)) :
    Oversized macros chain owner text owner' position ∨
      RestRefused macros chain owner text owner' position (b :: rest) := by
  cases read : lexeme after b rest with
  | error located =>
    have other := lexeme_fault read
    rw [advance, lexemes] at refused
    split at refused
    · next failed =>
      rw [read] at failed
      obtain rfl := Except.error.inj failed
      injection refused with same
      injection same with _ _ fault
      exact absurd fault other
    · next succeeded =>
      rw [read] at succeeded
      cases succeeded
  | ok result =>
    obtain ⟨l, more⟩ := result
    have lexed := lexeme_iff.1 read
    cases lexed with
    | opening =>
      rw [advance_opening] at refused
      exact .inr ⟨_, _, rest, Nat.lt_succ_self _, stands.opening, refused⟩
    | closing =>
      rw [advance_closing] at refused
      split at refused
      · cases refused
      · next some_operand =>
        cases outer with
        | nil => cases refused
        | cons enclosing others =>
          exact .inr ⟨_, _, rest, Nat.lt_succ_self _,
            stands.closing (Bool.eq_false_of_not_eq_true some_operand), refused⟩
    | bar =>
      rw [advance_bar] at refused
      split at refused
      · cases refused
      · next some_operand =>
        exact .inr ⟨_, _, rest, Nat.lt_succ_self _, stands.step fun _ opens =>
          opens.bar (Bool.eq_false_of_not_eq_true some_operand), refused⟩
    | dot => exact .inr (restRefused_of_lexed stands .dot .dot (not_countAhead_of_ne (by decide)) refused)
    | star => exact refused_of_times stands .star .star refused
    | plus => exact refused_of_times stands .plus .plus refused
    | question => exact refused_of_times stands .question .question refused
    | charClass members =>
      exact .inr (restRefused_of_lexed stands (.charClass members) (.charClass members)
        (not_countAhead_of_ne (by decide)) refused)
    | @literal _ _ _ bytes quoted =>
      have whole_literal := flat_bytes bytes
      refine .inr (restRefused_of_lexed stands ?_ (.literal quoted)
        (not_countAhead_of_ne (by decide)) refused)
      rw [whole_literal]
      exact .literal quoted
    | escaped escape =>
      exact .inr (restRefused_of_lexed stands (.escaped escape) (.escaped escape)
        (not_countAhead_of_ne (by decide)) refused)
    | count bounds => exact refused_of_times stands (.count bounds) (.count bounds) refused
    | reference isName noCount =>
      exact refused_of_reference fragments stands isName behind noCount refused
    | byte ordinary =>
      refine .inr (restRefused_of_lexed stands (.byte ordinary) (.byte ordinary)
        (not_countAhead_of_ne ?_) refused)
      rintro rfl
      exact ordinary (by decide)

/-- A text that is refused for size has a checked tree that is too large, given that its fragments
do. -/
theorem oversized_of_advance (fragments : FragmentsOversized macros chain owner' position)
    (stands : Stands macros chain text level outer here)
    (refused : advance macros chain owner text level outer level.last.isSome here =
      .error (sizeError owner' position)) :
    Oversized macros chain owner text owner' position := by
  induction length : here.length using Nat.strong_induction_on generalizing level outer here with
  | _ n ih =>
    subst length
    cases here with
    | nil => exact oversized_of_advance_nil stands refused
    | cons b rest =>
      rcases refused_of_advance_cons fragments stands rfl refused with
        oversized | ⟨level', outer', more, shorter, stands', refused'⟩
      · exact oversized
      · exact ih _ shorter stands' refused' rfl

end Refusals

/-- A refusal for size is that of a checked tree which is too large. -/
theorem checked_of_refused {source : String}
    (refused : parseFragment macros chain owner source = .error (sizeError owner' position)) :
    Oversized macros chain owner (utf8 source) owner' position := by
  induction chain using chain_induct macros generalizing owner source with
  | extend chain ih =>
    rw [parseFragment_eq] at refused
    split at refused
    · cases refused
    · refine oversized_of_advance (fun name m fresh defined => ih name m fresh defined) ?_ refused
      exact .outermost (.branch [] .first (.nil _) rfl rfl rfl)

end ScannerGen.Pattern
