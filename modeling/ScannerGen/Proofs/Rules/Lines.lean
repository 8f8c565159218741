import Mathlib.Data.List.Forall2
import Mathlib.Data.List.Induction
import ScannerGen.Proofs.Rules.Cutter
import ScannerGen.Rules.Text

/-!
# Lines of a rule text

A statement is on the line on which its first character stands, and what it declares has this place.

* `Complete` — texts that end where a statement may begin, with their statements.
* `Cutter.Standing` — where the machine is behind any text.
* `statements_eq_ok_iff_complete`, `statements_append_of_line` — the statements of a text, and of two
  texts one behind the other.
* `Statement.Declares`, `Statement.Defines` — the token or macro of a statement.
* `Adds` — what statements add to a rule set.
* `statements_by_lines` — texts behind each other, the lines of statements, and the places of tokens
  and macros.
-/

namespace ScannerGen.Rules

/-! ## Between statements -/

/-- Texts that end where a statement may begin, with the statements in them.  A statement begins at a
character that is no blank and no hash sign, and its line is one more than the number of newlines
before.  It says what the same characters say at the beginning of a text. -/
inductive Complete : List Char → List Statement → Prop
  | nil : Complete [] []
  | blank {front : List Char} {read : List Statement} {c : Char} (complete : Complete front read)
      (blank : Ascii.isBlankChar c = true) : Complete (front ++ [c]) read
  | comment {front : List Char} {read : List Statement} {chars : List Char}
      (complete : Complete front read) (single : '\n' ∉ chars) :
      Complete (front ++ '#' :: (chars ++ ['\n'])) read
  | statement {front : List Char} {read : List Statement} {c : Char} {chars : List Char}
      {arguments : List Argument} (complete : Complete front read) (begins : Begins c)
      (one : statements (String.ofList (c :: (chars ++ ['\n']))) = .ok [⟨1, arguments⟩]) :
      Complete (front ++ c :: (chars ++ ['\n'])) (read ++ [⟨front.count '\n' + 1, arguments⟩])

namespace Cutter

theorem run_comment {line : Nat} {finished : List Statement} {chars : List Char}
    (single : '\n' ∉ chars) :
    (mk line finished .comment).run chars = .ok ⟨line, finished, .comment⟩ := by
  induction chars with
  | nil => rfl
  | cons c chars ih =>
    rw [List.mem_cons, not_or] at single
    rw [run_cons (step_comment (Ne.symm single.1)), ih single.2]

end Cutter

theorem count_comment {front chars : List Char} (single : '\n' ∉ chars) :
    (front ++ '#' :: (chars ++ ['\n'])).count '\n' = front.count '\n' + 1 := by
  rw [List.count_append, List.count_cons_of_ne (by decide), List.count_append,
    List.count_eq_zero_of_not_mem single]
  rfl

theorem Complete.run {text : List Char} {read : List Statement} (complete : Complete text read) :
    Cutter.initial.run text = .ok (.fresh (text.count '\n') read) := by
  induction complete with
  | nil => rfl
  | @blank front read c _ blank ih =>
    rw [Cutter.run_append_of_ok ih, Cutter.run_cons (Cutter.fresh_step_blank blank), Cutter.run_nil,
      List.count_append]
  | @comment front read chars _ single ih =>
    have hash : (Cutter.fresh (front.count '\n') read).step '#' =
        .ok ⟨front.count '\n' + 1, read.reverse, .comment⟩ := rfl
    rw [Cutter.run_append_of_ok ih, Cutter.run_cons hash,
      Cutter.run_append_of_ok (Cutter.run_comment single), count_comment single]
    rfl
  | @statement front read c chars arguments _ begins one ih =>
    have ran := (statements_eq_ok_iff_run (c :: chars)).1 one
    rw [List.cons_append] at ran
    rw [Cutter.run_append_of_ok ih, Cutter.fresh_run, ran, laterOutcome, Cutter.behind_fresh,
      List.count_append]
    rfl

namespace Cutter

/-- Where the machine is behind a text: behind complete lines, and then in a comment or in a
statement, where it is as in the text of the statement alone. -/
inductive Standing : List Char → Cutter → Prop
  | outside {front : List Char} {read : List Statement} (complete : Complete front read) :
      Standing front (fresh (front.count '\n') read)
  | comment {front : List Char} {read : List Statement} {chars : List Char}
      (complete : Complete front read) (single : '\n' ∉ chars) :
      Standing (front ++ '#' :: chars) ⟨front.count '\n' + 1, read.reverse, .comment⟩
  | inside {front : List Char} {read : List Statement} {c : Char} {chars : List Char}
      {cutter : Cutter} {as : List Argument} (complete : Complete front read) (begins : Begins c)
      (ran : initial.run (c :: chars) = .ok cutter) (alone : cutter.finished = [])
      (inside : cutter.place.draft? = some ⟨1, as⟩) :
      Standing (front ++ c :: chars) (cutter.behind (front.count '\n') read.reverse)

theorem Standing.complete {text : List Char} {cutter : Cutter} (standing : Standing text cutter)
    (outside : cutter.place = .outside) : Complete text cutter.finished.reverse := by
  cases standing with
  | outside complete => rwa [fresh, List.reverse_reverse]
  | comment => cases outside
  | @inside _ _ _ _ alone _ _ _ _ _ inside =>
    obtain ⟨line, finished, place⟩ := alone
    cases place with
    | outside => cases inside
    | comment | between | word | quoted | block => cases outside

theorem Standing.of_fresh {front : List Char} {read : List Statement} {next : Cutter} {c : Char}
    (complete : Complete front read) (stepped : (fresh (front.count '\n') read).step c = .ok next) :
    Standing (front ++ [c]) next := by
  by_cases blank : Ascii.isBlankChar c = true
  · rw [fresh_step_blank blank, ← List.count_append] at stepped
    cases stepped
    exact .outside (complete.blank blank)
  by_cases hash : c = '#'
  · subst hash
    cases stepped
    exact .comment complete List.not_mem_nil
  have begins : Begins c := ⟨Bool.eq_false_iff.2 blank, hash⟩
  have notNewline : c ≠ '\n' := by
    rintro rfl
    exact blank rfl
  obtain ⟨alone, first, rfl⟩ := laterOutcome_eq_ok.1 ((step_behind initial c).symm.trans stepped)
  have ran : initial.run [c] = .ok alone := by rw [run_singleton, first]
  rw [initial, step_begins begins] at first
  cases goes_of_beginArgument (d := ⟨1, []⟩) first with
  | on _ inside => exact .inside complete begins ran rfl inside
  | newline | ends => exact absurd rfl notNewline

theorem Standing.step {front : List Char} {cutter next : Cutter} {c : Char}
    (standing : Standing front cutter) (stepped : cutter.step c = .ok next) :
    Standing (front ++ [c]) next := by
  cases standing with
  | outside complete => exact .of_fresh complete stepped
  | @comment front read chars complete single =>
    rw [List.append_assoc, List.cons_append]
    by_cases newline : c = '\n'
    · subst newline
      cases stepped
      have closed := Standing.outside (complete.comment single)
      rwa [count_comment single] at closed
    · rw [step_comment newline] at stepped
      cases stepped
      refine .comment complete ?_
      rw [List.mem_append, List.mem_singleton, not_or]
      exact ⟨single, Ne.symm newline⟩
  | @inside front read first chars alone as complete begins ran finished inside =>
    rw [List.append_assoc, List.cons_append]
    obtain ⟨further, moved, rfl⟩ := laterOutcome_eq_ok.1 ((step_behind alone c).symm.trans stepped)
    have ranOn : initial.run (first :: (chars ++ [c])) = .ok further := by
      rw [← List.cons_append, run_append_of_ok ran, run_singleton, moved]
    cases goes_of_step inside moved with
    | on _ stays | newline stays => exact .inside complete begins ranOn finished stays
    | @ends arguments =>
      -- The statement ends on the line that the machine has counted up to.
      have ended : Cutter.mk (alone.line + 1) (⟨1, arguments⟩ :: alone.finished) .outside =
          fresh ((first :: (chars ++ ['\n'])).count '\n') [⟨1, arguments⟩] := by
        have counted := (line_of_run ranOn).trans (Nat.add_comm _ _)
        rw [fresh, finished]
        exact congrArg (Cutter.mk · _ _) counted
      rw [ended] at ranOn ⊢
      have closed := Standing.outside
        (complete.statement begins ((statements_eq_ok_iff_run (first :: chars)).2 ranOn))
      rw [List.count_append] at closed
      rw [behind_fresh]
      exact closed

theorem standing_of_run {text : List Char} {cutter : Cutter} (ran : initial.run text = .ok cutter) :
    Standing text cutter := by
  -- The machine takes its characters from the front, so what is new stands at the other end.
  induction text using List.reverseRecOn generalizing cutter with
  | nil =>
    cases ran
    exact .outside .nil
  | append_singleton front c ih =>
    obtain ⟨between, before, stepped⟩ := exists_run_of_append ran
    exact (ih before).step ((run_singleton between c).symm.trans stepped)

end Cutter

/-- The statements of a text, whose last line may lack its newline. -/
theorem statements_eq_ok_iff_complete {text : String} {read : List Statement} :
    statements text = .ok read ↔ Complete (text.toList ++ ['\n']) read := by
  have same := @statements_append_newline text.toList read
  rw [String.ofList_toList] at same
  rw [← same, statements_eq_ok_iff_run]
  constructor
  · intro ran
    have complete := (Cutter.standing_of_run ran).complete rfl
    rwa [Cutter.fresh, List.reverse_reverse] at complete
  · exact Complete.run

theorem statements_append_of_line {a b : String} {first : List Statement}
    (read : statements a = .ok first) (ended : a.toList.getLast? = some '\n') :
    statements (a ++ b) =
      laterOutcome (a.toList.count '\n')
        (fun second => first ++ second.map (Statement.later (a.toList.count '\n')))
        (statements b) := by
  obtain ⟨front, listed⟩ := List.getLast?_eq_some_iff.1 ended
  have ran : Cutter.initial.run a.toList = .ok (.fresh (a.toList.count '\n') first) := by
    rw [listed]
    refine (statements_eq_ok_iff_run front).1 ?_
    rw [← listed, String.ofList_toList, read]
  -- Behind the first text the machine is the fresh one, and so the second is read as it is alone.
  rw [statements, String.toList_append, Cutter.run_append_of_ok ran, Cutter.fresh_run, statements]
  cases Cutter.initial.run b.toList with
  | error fault => rfl
  | ok cutter =>
    show (cutter.behind _ _).finish = laterOutcome _ _ cutter.finish
    rw [Cutter.finish_behind, List.reverse_reverse]

/-! ## Places of tokens and macros -/

namespace Statement

/-- The statement begins with a keyword. -/
def opensWith (s : Statement) (keyword : String) : Bool := s.arguments.head? == some ⟨keyword, true⟩

/-- The declaration of a token statement, at the line of the statement. -/
def Declares (s : Statement) (d : Declaration) : Prop :=
  tokenDeclaration (.atLine s.line) s.arguments.tail = .ok d ∧ d.origin = .atLine s.line

/-- The macro of a macro statement, at the line of the statement. -/
def Defines (s : Statement) (m : Macro) : Prop :=
  s.arguments.tail.map Argument.text = [m.name, m.fragment] ∧ m.origin = .atLine s.line

end Statement

theorem tokenModifiers_origin {as : List Argument} {d e : Declaration}
    (modified : tokenModifiers d as = .ok e) : e.origin = d.origin := by
  fun_induction tokenModifiers d as with
  | case1 =>
    cases modified
    rfl
  | case2 _ _ ih | case4 _ _ _ _ _ ih | case7 _ _ _ ih | case8 _ _ _ _ _ _ _ ih => exact ih modified
  | case3 | case5 | case6 | case9 => cases modified

theorem tokenDeclaration_origin {origin : Origin} {as : List Argument} {d : Declaration}
    (declared : tokenDeclaration origin as = .ok d) : d.origin = origin := by
  unfold tokenDeclaration at declared
  split at declared
  · split at declared
    · cases declared
    · exact tokenModifiers_origin declared
  · cases declared

theorem setOption_kept {rules next : RuleSet} {name value : String} {origin : Origin}
    (set : rules.setOption name value origin = .ok next) :
    next.declarations = rules.declarations ∧ next.macros = rules.macros := by
  rw [RuleSet.setOption] at set
  split at set
  · cases set
    exact ⟨rfl, rfl⟩
  · cases set

theorem addOption_kept {rules next : RuleSet} {name value : String} {origin : Origin}
    (added : rules.addOption name value origin = .ok next) :
    next.declarations = rules.declarations ∧ next.macros = rules.macros := by
  rw [RuleSet.addOption] at added
  split at added
  · cases added
    exact ⟨rfl, rfl⟩
  · cases added

theorem defineMacro_added {rules next : RuleSet} {name fragment : String} {origin : Origin}
    (defined : rules.defineMacro name fragment origin = .ok next) :
    next.declarations = rules.declarations ∧
      next.macros.entries = rules.macros.entries ++ [⟨name, fragment, origin⟩] := by
  rw [RuleSet.defineMacro] at defined
  split_ifs at defined with invalid
  rw [MacroTable.define] at defined
  cases found : rules.macros.find? name with
  | some previous =>
    rw [found] at defined
    cases defined
  | none =>
    rw [found] at defined
    cases defined
    exact ⟨rfl, rfl⟩

/-- What statements add to a rule set: a declaration for each token statement and a macro for each
macro statement, in their order. -/
structure Adds (read : List Statement) (rules next : RuleSet) : Prop where
  declared : ∃ ds, next.declarations = rules.declarations ++ ds ∧
    (read.filter fun s => s.opensWith "token").Forall₂ Statement.Declares ds
  defined : ∃ ms, next.macros.entries = rules.macros.entries ++ ms ∧
    (read.filter fun s => s.opensWith "macro").Forall₂ Statement.Defines ms

theorem Adds.append {first second : List Statement} {rules between next : RuleSet}
    (before : Adds first rules between) (after : Adds second between next) :
    Adds (first ++ second) rules next := by
  obtain ⟨⟨ds, declared, dsAll⟩, ms, defined, msAll⟩ := before
  obtain ⟨⟨ds', declared', dsAll'⟩, ms', defined', msAll'⟩ := after
  refine ⟨⟨ds ++ ds', ?_, ?_⟩, ms ++ ms', ?_, ?_⟩
  · rw [declared', declared, List.append_assoc]
  · rw [List.filter_append]
    exact List.rel_append dsAll dsAll'
  · rw [defined', defined, List.append_assoc]
  · rw [List.filter_append]
    exact List.rel_append msAll msAll'

theorem filter_opensWith {line : Nat} {keyword word : String} {as : List Argument} :
    ([⟨line, ⟨keyword, true⟩ :: as⟩].filter fun s : Statement => s.opensWith word) =
      if keyword = word then [⟨line, ⟨keyword, true⟩ :: as⟩] else [] := by
  by_cases same : keyword = word <;> simp [Statement.opensWith, same]

theorem Adds.of_kept {rules next : RuleSet} {line : Nat} {keyword : String} {as : List Argument}
    (kept : next.declarations = rules.declarations ∧ next.macros = rules.macros)
    (option : keyword ≠ "token" ∧ keyword ≠ "macro") :
    Adds [⟨line, ⟨keyword, true⟩ :: as⟩] rules next := by
  refine ⟨⟨[], by rw [kept.1, List.append_nil], ?_⟩, [], by rw [kept.2, List.append_nil], ?_⟩
  · rw [filter_opensWith, if_neg option.1]
    exact .nil
  · rw [filter_opensWith, if_neg option.2]
    exact .nil

theorem adds_of_perform {rules next : RuleSet} {s : Statement}
    (performed : perform rules s = .ok next) : Adds [s] rules next := by
  obtain ⟨line, arguments⟩ := s
  unfold perform at performed
  split at performed
  · cases performed
  · cases performed
  case h_3 keyword arguments given =>
    obtain rfl : _ = _ := given
    split at performed
    case h_1 => exact .of_kept (setOption_kept performed) (by decide)
    case h_3 => exact .of_kept (addOption_kept performed) (by decide)
    case h_5 name fragment =>
      obtain ⟨kept, added⟩ := defineMacro_added performed
      refine ⟨⟨[], by rw [kept, List.append_nil], ?_⟩, _, added, ?_⟩
      · rw [filter_opensWith, if_neg (by decide)]
        exact .nil
      · rw [filter_opensWith, if_pos rfl]
        exact .cons ⟨rfl, rfl⟩ .nil
    case h_7 =>
      dsimp only at performed
      split at performed
      case h_1 d declared =>
        cases performed
        refine ⟨⟨[d], rfl, ?_⟩, [], (List.append_nil _).symm, ?_⟩
        · rw [filter_opensWith, if_pos rfl]
          exact .cons ⟨declared, tokenDeclaration_origin declared⟩ .nil
        · rw [filter_opensWith, if_neg (by decide)]
          exact .nil
      case h_2 => cases performed
    all_goals cases performed

theorem adds_of_foldlM {read : List Statement} {rules next : RuleSet}
    (carried : read.foldlM perform rules = .ok next) : Adds read rules next := by
  induction read generalizing rules with
  | nil =>
    cases carried
    exact ⟨⟨[], (List.append_nil _).symm, .nil⟩, [], (List.append_nil _).symm, .nil⟩
  | cons s read ih =>
    rw [List.foldlM_cons] at carried
    cases performed : perform rules s with
    | error fault =>
      rw [performed] at carried
      cases carried
    | ok between =>
      rw [performed] at carried
      exact (adds_of_perform performed).append (ih carried)

/-! ## Texts -/

theorem adds_of_ofText {text : String} {rules : RuleSet} (given : ofText text = .ok rules) :
    ∃ read, statements text = .ok read ∧ Adds read .empty rules := by
  rw [ofText] at given
  cases read : statements text with
  | error fault =>
    rw [read] at given
    cases given
  | ok list =>
    rw [read] at given
    exact ⟨list, rfl, adds_of_foldlM given⟩

/-- Rule texts are read statement by statement.

* Behind a text that ends with a line, another text is cut into the same statements, or refused with
  the same fault, as many lines further down as there are newlines in front of it.
* The line of a statement is one more than the number of newlines in front of its first character,
  whatever stands there.
* The tokens and macros of a text are those of its statements, at the lines of these. -/
theorem statements_by_lines :
    (∀ (a b : String) (first : List Statement), statements a = .ok first →
      a.toList.getLast? = some '\n' →
      statements (a ++ b) =
        match statements b with
        | .ok second => .ok (first ++ second.map (Statement.later (a.toList.count '\n')))
        | .error fault => .error (fault.later (a.toList.count '\n'))) ∧
    (∀ (text : String) (read : List Statement),
      statements text = .ok read ↔ Complete (text.toList ++ ['\n']) read) ∧
    ∀ (text : String) (rules : RuleSet), ofText text = .ok rules →
      ∃ read, statements text = .ok read ∧
        (read.filter fun s => s.opensWith "token").Forall₂ Statement.Declares rules.declarations ∧
        (read.filter fun s => s.opensWith "macro").Forall₂ Statement.Defines rules.macros.entries := by
  refine ⟨fun a b first read ended => ?_, fun _ _ => statements_eq_ok_iff_complete,
    fun text rules given => ?_⟩
  · rw [statements_append_of_line read ended]
    cases statements b <;> rfl
  · obtain ⟨read, cut, ⟨ds, declared, tokens⟩, ms, defined, macros⟩ := adds_of_ofText given
    rw [RuleSet.empty, List.nil_append] at declared
    rw [RuleSet.empty, MacroTable.empty, List.nil_append] at defined
    exact ⟨read, cut, declared ▸ tokens, defined ▸ macros⟩

/-- A comment, a token with a newline in its block, and an option with a newline behind a backslash. -/
def spanning : String :=
  "# \x22\n token %q\x7bx\n#\\\x7d\x7d keyword X\nset l_header \"y\\\n%q\x7b\" \n"

def spanningStatements : List Statement :=
  [⟨2, [⟨"token", true⟩, ⟨"x\n#\x7d", false⟩, ⟨"keyword", true⟩, ⟨"X", true⟩]⟩,
    ⟨4, [⟨"set", true⟩, ⟨"l_header", true⟩, ⟨"y\\\n%q\x7b", false⟩]⟩]

def spanningRules : RuleSet where
  macros := .empty
  declarations := [⟨some "x\n#\x7d", .keyword, some "X", none, none, false, .atLine 2⟩]
  options := { Options.default with sourceTop := some "y\\\n%q\x7b" }

/-- Five newlines stand before the two texts behind `spanning`. -/
theorem statements_by_lines_spanning :
    statements spanning = .ok spanningStatements ∧ spanning.toList.getLast? = some '\n' ∧
      statements (spanning ++ "\nmacro N [0-9]") =
        .ok (spanningStatements ++ [⟨7, [⟨"macro", true⟩, ⟨"N", true⟩, ⟨"[0-9]", true⟩]⟩]) ∧
      statements (spanning ++ "#\n%q\x7b") = .error (.unterminatedBlock 7) ∧
      Complete (spanning.toList ++ ['\n']) spanningStatements ∧
      ofText spanning = .ok spanningRules ∧
      ∃ read, statements spanning = .ok read ∧
        (read.filter fun s => s.opensWith "token").Forall₂ Statement.Declares
          spanningRules.declarations ∧
        (read.filter fun s => s.opensWith "macro").Forall₂ Statement.Defines
          spanningRules.macros.entries := by
  have read : statements spanning = .ok spanningStatements := rfl
  have ended : spanning.toList.getLast? = some '\n' := rfl
  have given : ofText spanning = .ok spanningRules := rfl
  exact ⟨read, ended, statements_by_lines.1 spanning "\nmacro N [0-9]" _ read ended,
    statements_by_lines.1 spanning "#\n%q\x7b" _ read ended,
    (statements_by_lines.2.1 spanning _).1 read, given, statements_by_lines.2.2 spanning _ given⟩

end ScannerGen.Rules
