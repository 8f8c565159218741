import Mathlib.Tactic.SplitIfs
import ScannerGen.Proofs.Rules.Statement

/-!
# Steps of the machine for rule texts

Behind complete lines the machine stands as it does at the beginning of a text, only on a later line
and behind other statements.  It counts the newlines wherever they stand.

* `Cutter.behind` — a machine on a later line, behind other statements.
* `Cutter.step_behind`, `Cutter.run_behind`, `Cutter.finish_behind` — it works as the machine does.
* `Cutter.Goes`, `Cutter.goes_of_step` — what one character does inside a statement.
* `Cutter.line_of_run` — the line is counted up by the newlines.
* `statements_append_newline`, `statements_eq_ok_iff_run` — what is read from a text that ends with a
  line.
-/

namespace ScannerGen.Rules

/-! ## Later lines -/

/-- The same statement further down. -/
def Statement.later (n : Nat) (s : Statement) : Statement := { s with line := n + s.line }

def CutFault.later (n : Nat) : CutFault → CutFault
  | unterminatedBlock line => unterminatedBlock (n + line)
  | unterminatedText line => unterminatedText (n + line)

/-- What is made of an outcome that is reached further down. -/
def laterOutcome {α β : Type} (n : Nat) (f : α → β) : Except CutFault α → Except CutFault β
  | .ok a => .ok (f a)
  | .error fault => .error (fault.later n)

theorem laterOutcome_ite {α β : Type} {n : Nat} {f : α → β} {p : Prop} [Decidable p]
    (x y : Except CutFault α) :
    laterOutcome n f (if p then x else y) =
      if p then laterOutcome n f x else laterOutcome n f y := by
  split_ifs <;> rfl

theorem laterOutcome_eq_ok {α β : Type} {n : Nat} {f : α → β} {x : Except CutFault α} {b : β} :
    laterOutcome n f x = .ok b ↔ ∃ a, x = .ok a ∧ f a = b := by
  cases x <;> simp [laterOutcome]

def Draft.later (n : Nat) (d : Draft) : Draft := { d with line := n + d.line }

def Place.later (n : Nat) : Place → Place
  | outside => outside
  | comment => comment
  | between d => between (d.later n)
  | word d chars => word (d.later n) chars
  | quoted d opened chars escaped => quoted (d.later n) (n + opened) chars escaped
  | block d opened depth chars escaped => block (d.later n) (n + opened) depth chars escaped

namespace Cutter

variable {n : Nat} {before : List Statement}

/-- The machine on a later line, behind other statements, last first. -/
def behind (n : Nat) (before : List Statement) (cutter : Cutter) : Cutter :=
  ⟨n + cutter.line, cutter.finished.map (Statement.later n) ++ before, cutter.place.later n⟩

theorem beginArgument_behind (cutter : Cutter) (d : Draft) (c : Char) :
    (cutter.behind n before).beginArgument (d.later n) c =
      laterOutcome n (behind n before) (cutter.beginArgument d c) := by
  simp only [beginArgument, laterOutcome_ite]
  rfl

theorem quotedChar_behind (cutter : Cutter) (d : Draft) (opened : Nat) (chars : List Char)
    (c : Char) :
    (cutter.behind n before).quotedChar (d.later n) (n + opened) chars c =
      laterOutcome n (behind n before) (cutter.quotedChar d opened chars c) := by
  simp only [quotedChar, laterOutcome_ite]
  rfl

theorem blockChar_behind (cutter : Cutter) (d : Draft) (opened depth : Nat) (chars : List Char)
    (c : Char) :
    (cutter.behind n before).blockChar (d.later n) (n + opened) depth chars c =
      laterOutcome n (behind n before) (cutter.blockChar d opened depth chars c) := by
  simp only [blockChar, laterOutcome_ite]
  rfl

theorem step_behind (cutter : Cutter) (c : Char) :
    (cutter.behind n before).step c = laterOutcome n (behind n before) (cutter.step c) := by
  obtain ⟨line, finished, place⟩ := cutter
  cases place with
  | outside =>
    simp only [step, laterOutcome_ite, ← beginArgument_behind]
    rfl
  | comment =>
    simp only [step, laterOutcome_ite]
    rfl
  | between d => exact beginArgument_behind _ d c
  | word d chars =>
    simp only [step, laterOutcome_ite, ← beginArgument_behind]
    rfl
  | quoted d opened chars escaped =>
    cases escaped with
    | false => exact quotedChar_behind _ d opened chars c
    | true =>
      -- The line is counted before the place is taken, so the two machines differ in both.
      by_cases newline : c = '\n'
      · subst newline
        rfl
      · simp only [step, behind, Place.later, if_neg newline]
        rfl
  | block d opened depth chars escaped =>
    cases escaped with
    | false => exact blockChar_behind _ d opened depth chars c
    | true =>
      simp only [step, laterOutcome_ite, ← blockChar_behind]
      rfl

theorem run_behind (text : List Char) (cutter : Cutter) :
    (cutter.behind n before).run text = laterOutcome n (behind n before) (cutter.run text) := by
  induction text generalizing cutter with
  | nil => rfl
  | cons c text ih =>
    rw [run, List.foldlM_cons, step_behind, run, List.foldlM_cons]
    cases cutter.step c with
    | error fault => rfl
    | ok next => exact ih next

theorem finish_behind (cutter : Cutter) :
    (cutter.behind n before).finish =
      laterOutcome n (fun read => before.reverse ++ read.map (Statement.later n)) cutter.finish := by
  obtain ⟨line, finished, place⟩ := cutter
  cases place with
  | outside | comment =>
    simp only [finish, behind, Place.later, laterOutcome, List.reverse_append, List.map_reverse]
  | between | word =>
    simp only [finish, behind, Place.later, laterOutcome, ← List.cons_append, List.reverse_append,
      List.map_reverse]
    rfl
  | quoted | block => rfl

end Cutter

/-! ## Inside a statement -/

/-- The statement that a place is in. -/
def Place.draft? : Place → Option Draft
  | outside | comment => none
  | between d | word d _ | quoted d _ _ _ | block d _ _ _ _ => some d

namespace Cutter

/-- What one character does inside a statement: it is read on the same line or ends a line there, or
it ends the statement with its line. -/
inductive Goes (cutter : Cutter) (d : Draft) : Char → Cutter → Prop
  | on {c : Char} {as : List Argument} {place : Place} (other : c ≠ '\n')
      (inside : place.draft? = some ⟨d.line, as⟩) :
      Goes cutter d c ⟨cutter.line, cutter.finished, place⟩
  | newline {as : List Argument} {place : Place} (inside : place.draft? = some ⟨d.line, as⟩) :
      Goes cutter d '\n' ⟨cutter.line + 1, cutter.finished, place⟩
  | ends {as : List Argument} :
      Goes cutter d '\n' ⟨cutter.line + 1, ⟨d.line, as⟩ :: cutter.finished, .outside⟩

variable {cutter next : Cutter} {d : Draft} {c : Char}

theorem goes_of_beginArgument {as : List Argument}
    (begun : cutter.beginArgument ⟨d.line, as⟩ c = .ok next) : Goes cutter d c next := by
  rw [beginArgument] at begun
  split_ifs at begun with newline blank quote
  · subst newline
    cases begun
    exact .ends
  all_goals
    cases begun
    exact .on newline rfl

theorem goes_of_quotedChar {opened : Nat} {chars : List Char}
    (read : cutter.quotedChar d opened chars c = .ok next) : Goes cutter d c next := by
  rw [quotedChar] at read
  split_ifs at read with newline quote backslash
  all_goals
    cases read
    exact .on newline rfl

theorem goes_of_blockChar {opened depth : Nat} {chars : List Char}
    (read : cutter.blockChar d opened depth chars c = .ok next) : Goes cutter d c next := by
  by_cases newline : c = '\n'
  · subst newline
    cases read
    exact .newline rfl
  · rw [blockChar, if_neg newline] at read
    split_ifs at read
    all_goals
      cases read
      exact .on newline rfl

theorem goes_of_step (inside : cutter.place.draft? = some d) (stepped : cutter.step c = .ok next) :
    Goes cutter d c next := by
  obtain ⟨line, finished, place⟩ := cutter
  cases place with
  | outside | comment => cases inside
  | between =>
    cases inside
    exact goes_of_beginArgument stepped
  | word _ chars =>
    cases inside
    simp only [step] at stepped
    split_ifs at stepped with opening blank
    · -- The word turns out to be the opening of a block; its last character is a brace.
      cases stepped
      obtain rfl := (List.cons.inj opening).1
      exact .on (by decide) rfl
    · exact goes_of_beginArgument stepped
    · cases stepped
      refine .on ?_ rfl
      rintro rfl
      exact blank rfl
  | quoted _ opened chars escaped =>
    cases inside
    cases escaped with
    | false => exact goes_of_quotedChar stepped
    | true =>
      cases stepped
      by_cases newline : c = '\n'
      · subst newline
        exact .newline rfl
      · rw [if_neg newline]
        exact .on newline rfl
  | block _ opened depth chars escaped =>
    cases inside
    cases escaped with
    | false => exact goes_of_blockChar stepped
    | true =>
      simp only [step] at stepped
      split_ifs at stepped with literal
      · -- A newline behind a backslash is none of these characters, and is read as any other.
        cases stepped
        refine .on ?_ rfl
        rintro rfl
        exact absurd literal (by decide)
      · exact goes_of_blockChar stepped

end Cutter

/-! ## Ends of lines -/

/-- The first character of a statement. -/
def Begins (c : Char) : Prop := Ascii.isBlankChar c = false ∧ c ≠ '#'

instance (c : Char) : Decidable (Begins c) := inferInstanceAs (Decidable (_ ∧ _))

namespace Cutter

variable {cutter next : Cutter} {d : Draft} {c : Char} {line : Nat} {finished read : List Statement}

theorem step_blank (blank : Ascii.isBlankChar c = true) :
    (mk line finished .outside).step c = .ok ⟨line + [c].count '\n', finished, .outside⟩ := by
  by_cases newline : c = '\n'
  · subst newline
    rfl
  · rw [List.count_singleton, if_neg (mt beq_iff_eq.1 newline)]
    simp only [step, if_neg newline, blank, if_true, Nat.add_zero]

theorem step_begins (begins : Begins c) :
    (mk line finished .outside).step c = (mk line finished .outside).beginArgument ⟨line, []⟩ c := by
  obtain ⟨visible, notHash⟩ := begins
  have notNewline : ¬ c = '\n' := by
    rintro rfl
    exact absurd visible (by decide)
  simp only [step, if_neg notNewline, visible, Bool.false_eq_true, if_false, if_neg notHash]

theorem step_comment (other : c ≠ '\n') :
    (mk line finished .comment).step c = .ok ⟨line, finished, .comment⟩ := by
  simp only [step, if_neg other]

theorem Goes.line_eq (goes : Goes cutter d c next) : next.line = cutter.line + [c].count '\n' := by
  cases goes with
  | on other => rw [List.count_singleton, if_neg (mt beq_iff_eq.1 other), Nat.add_zero]
  | newline | ends => rfl

theorem line_of_step (stepped : cutter.step c = .ok next) :
    next.line = cutter.line + [c].count '\n' := by
  cases inside : cutter.place.draft? with
  | some d => exact (goes_of_step inside stepped).line_eq
  | none =>
    -- Between statements every character is a blank, part of a comment or the first of a statement.
    obtain ⟨line, finished, place⟩ := cutter
    cases place with
    | between | word | quoted | block => cases inside
    | comment =>
      by_cases newline : c = '\n'
      · subst newline
        cases stepped
        rfl
      · rw [step_comment newline] at stepped
        cases stepped
        rw [List.count_singleton, if_neg (mt beq_iff_eq.1 newline), Nat.add_zero]
    | outside =>
      by_cases blank : Ascii.isBlankChar c = true
      · rw [step_blank blank] at stepped
        cases stepped
        rfl
      by_cases hash : c = '#'
      · subst hash
        cases stepped
        rfl
      · rw [step_begins ⟨Bool.eq_false_iff.2 blank, hash⟩] at stepped
        exact (goes_of_beginArgument (d := ⟨line, []⟩) stepped).line_eq

theorem exists_run_of_append {front back : List Char}
    (ran : cutter.run (front ++ back) = .ok next) :
    ∃ between, cutter.run front = .ok between ∧ between.run back = .ok next := by
  rw [run_append] at ran
  cases before : cutter.run front with
  | error fault =>
    rw [before] at ran
    cases ran
  | ok between =>
    rw [before] at ran
    exact ⟨between, rfl, ran⟩

theorem run_singleton (cutter : Cutter) (c : Char) : cutter.run [c] = cutter.step c := by
  rw [run, List.foldlM_cons]
  cases cutter.step c <;> rfl

theorem line_of_run {text : List Char} (ran : cutter.run text = .ok next) :
    next.line = cutter.line + text.count '\n' := by
  induction text generalizing cutter with
  | nil =>
    cases ran
    rfl
  | cons c text ih =>
    obtain ⟨between, stepped, others⟩ := @exists_run_of_append cutter next [c] text ran
    rw [run_singleton] at stepped
    rw [ih others, line_of_step stepped, Nat.add_assoc, ← List.count_append, List.singleton_append]

theorem step_word_newline (chars : List Char) :
    (mk line finished (.word d chars)).step '\n' =
      (mk line finished (.word d chars)).endStatement (d.add chars true) := by
  have noBlock : ¬ '\n' :: chars = blockOpening := fun same =>
    absurd (List.cons.inj same).1 (by decide)
  simp only [step, if_neg noBlock]
  rfl

/-- A text can end where it could end with a line. -/
theorem finish_eq_ok_iff :
    cutter.finish = .ok read ↔ cutter.step '\n' = .ok ⟨cutter.line + 1, read.reverse, .outside⟩ := by
  have ended {all : List Statement} {line : Nat} :
      (.ok all.reverse : Except CutFault (List Statement)) = .ok read ↔
        (.ok ⟨line, all, .outside⟩ : Except CutFault Cutter) = .ok ⟨line, read.reverse, .outside⟩ := by
    constructor
    · rintro ⟨⟩
      rw [List.reverse_reverse]
    · rintro ⟨⟩
      rw [List.reverse_reverse]
  obtain ⟨line, finished, place⟩ := cutter
  cases place with
  | outside | comment | between => exact ended
  | word =>
    rw [step_word_newline]
    exact ended
  | quoted _ _ _ escaped | block _ _ _ _ escaped =>
    cases escaped <;> constructor <;> rintro ⟨⟩

/-- A newline at the end of a text makes no difference. -/
theorem step_newline_finish :
    (cutter.step '\n').bind finish = .ok read ↔ cutter.finish = .ok read := by
  obtain ⟨line, finished, place⟩ := cutter
  cases place with
  | outside | comment | between => exact .rfl
  | word =>
    rw [step_word_newline]
    exact .rfl
  | quoted _ _ _ escaped | block _ _ _ _ escaped =>
    cases escaped <;> constructor <;> rintro ⟨⟩

end Cutter

theorem statements_append_newline {text : List Char} {read : List Statement} :
    statements (String.ofList (text ++ ['\n'])) = .ok read ↔
      statements (String.ofList text) = .ok read := by
  rw [statements, statements, String.toList_ofList, String.toList_ofList, Cutter.run_append]
  cases Cutter.initial.run text with
  | error fault => exact .rfl
  | ok cutter =>
    show ((cutter.run ['\n']).bind Cutter.finish) = _ ↔ cutter.finish = _
    rw [Cutter.run_singleton, Cutter.step_newline_finish]

namespace Cutter

variable {n : Nat} {read : List Statement} {c : Char}

/-- The machine behind complete lines with their statements. -/
def fresh (n : Nat) (read : List Statement) : Cutter := ⟨n + 1, read.reverse, .outside⟩

theorem fresh_run (text : List Char) :
    (fresh n read).run text = laterOutcome n (behind n read.reverse) (initial.run text) :=
  run_behind text initial

theorem behind_fresh (k : Nat) (first second : List Statement) :
    (fresh k second).behind n first.reverse =
      fresh (n + k) (first ++ second.map (Statement.later n)) := by
  rw [fresh, fresh, behind, List.reverse_append, List.map_reverse]
  rfl

theorem fresh_step_blank (blank : Ascii.isBlankChar c = true) :
    (fresh n read).step c = .ok (fresh (n + [c].count '\n') read) := by
  rw [fresh, step_blank blank, Nat.add_right_comm]
  rfl

end Cutter

theorem statements_eq_ok_iff_run (text : List Char) {read : List Statement} :
    statements (String.ofList (text ++ ['\n'])) = .ok read ↔
      Cutter.initial.run (text ++ ['\n']) = .ok (.fresh ((text ++ ['\n']).count '\n') read) := by
  rw [statements_append_newline, statements, String.toList_ofList, Cutter.run_append]
  cases ran : Cutter.initial.run text with
  | error fault => constructor <;> rintro ⟨⟩
  | ok cutter =>
    have lines : cutter.line + 1 = (text ++ ['\n']).count '\n' + 1 := by
      rw [Cutter.line_of_run ran, List.count_append, List.count_singleton_self, Cutter.initial,
        Nat.add_comm 1]
    show cutter.finish = _ ↔ cutter.run ['\n'] = _
    rw [Cutter.run_singleton, Cutter.finish_eq_ok_iff, lines]
    rfl

end ScannerGen.Rules
