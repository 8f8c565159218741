import ScannerGen.Rules.Statement

/-!
# Written statements

Arguments can be written so that they are read back whatever their texts hold: a bare word as it is,
any other text as a block in which backslashes and braces stand behind a backslash.

* `Argument.code`, `lineCode`, `linesText` — an argument, a line of arguments and a text of lines.
* `Argument.Plain` — bare words that are words.
* `Cutter.run_code` — the machine behind an argument.
* `statements_linesText` — a text of lines is cut into the arguments that were written.
-/

namespace ScannerGen.Rules

/-! ## Writing -/

/-- What a character of a text is written as in a block. -/
def blockCode (c : Char) : List Char :=
  if c = '\x5c' ∨ c = '\x7b' ∨ c = '\x7d' then ['\x5c', c] else [c]

/-- A block with a text in it. -/
def block (text : List Char) : List Char :=
  '%' :: 'q' :: '\x7b' :: (text.flatMap blockCode ++ ['\x7d'])

/-- Characters of which none ends a word or begins something else than a word. -/
def IsWord (word : List Char) : Prop :=
  word ≠ [] ∧ ∀ c ∈ word, Ascii.isBlankChar c = false ∧ c ≠ '\x22' ∧ c ≠ '#' ∧ c ≠ '\x7b'

instance (word : List Char) : Decidable (IsWord word) :=
  @instDecidableAnd _ _ inferInstance (List.decidableBAll _ word)

namespace Argument

/-- Bare arguments are words. -/
def Plain (a : Argument) : Prop := a.bare = true → IsWord a.text.toList

instance (a : Argument) : Decidable a.Plain := inferInstanceAs (Decidable (_ → _))

def code (a : Argument) : List Char := if a.bare then a.text.toList else block a.text.toList

end Argument

/-- The arguments of a statement, one blank between any two of them, and the end of the line. -/
def lineCode : List Argument → List Char
  | [] => ['\n']
  | a :: as => a.code ++ (as.flatMap fun b => ' ' :: b.code) ++ ['\n']

/-- A text with a line for each statement. -/
def linesText (lines : List (List Argument)) : String := String.ofList (lines.flatMap lineCode)

example : linesText [[⟨"set", true⟩, ⟨"prefix", true⟩, ⟨"a\x7d", false⟩]] =
    "set prefix %q\x7ba\\\x7d\x7d\n" := by
  decide

/-! ## Reading an argument -/

namespace Cutter

variable {line : Nat} {finished : List Statement} {statement : Draft}

theorem run_nil (cutter : Cutter) : cutter.run [] = .ok cutter := rfl

theorem run_cons {cutter next : Cutter} {c : Char} (stepped : cutter.step c = .ok next)
    (text : List Char) : cutter.run (c :: text) = next.run text := by
  rw [run, List.foldlM_cons, stepped]
  rfl

theorem run_append_of_ok {cutter next : Cutter} {front : List Char}
    (ran : cutter.run front = .ok next) (back : List Char) :
    cutter.run (front ++ back) = next.run back := by
  rw [run_append, ran]
  rfl

/-- One character of the text of a block, as it is written. -/
theorem run_blockCode {opened depth : Nat} {chars : List Char} (c : Char) :
    ∃ line', (Cutter.mk line finished (.block statement opened depth chars false)).run (blockCode c) =
      .ok ⟨line', finished, .block statement opened depth (c :: chars) false⟩ := by
  by_cases special : c = '\x5c' ∨ c = '\x7b' ∨ c = '\x7d'
  · refine ⟨line, ?_⟩
    rw [blockCode, if_pos special]
    rcases special with rfl | rfl | rfl <;> rfl
  · have notBackslash : ¬ c = '\x5c' := fun same => special (.inl same)
    have notOpen : ¬ c = '\x7b' := fun same => special (.inr (.inl same))
    have notClose : ¬ c = '\x7d' := fun same => special (.inr (.inr same))
    rw [blockCode, if_neg special]
    by_cases newline : c = '\n'
    · subst newline
      exact ⟨line + 1, rfl⟩
    · refine ⟨line, ?_⟩
      have stepped : (Cutter.mk line finished (.block statement opened depth chars false)).step c =
          .ok ⟨line, finished, .block statement opened depth (c :: chars) false⟩ := by
        simp only [step, blockChar, if_neg notBackslash, if_neg notOpen, if_neg notClose,
          if_neg newline, goTo]
      rw [run_cons stepped, run_nil]

theorem run_blockCodes {opened depth : Nat} (text : List Char) {chars : List Char} {line : Nat} :
    ∃ line', (Cutter.mk line finished (.block statement opened depth chars false)).run
        (text.flatMap blockCode) =
      .ok ⟨line', finished, .block statement opened depth (text.reverse ++ chars) false⟩ := by
  induction text generalizing chars line with
  | nil => exact ⟨line, rfl⟩
  | cons c text ih =>
    obtain ⟨between, first⟩ :=
      @run_blockCode line finished statement opened depth chars c
    obtain ⟨line', others⟩ := @ih (c :: chars) between
    refine ⟨line', ?_⟩
    rw [List.flatMap_cons, run_append_of_ok first, others, List.reverse_cons, List.append_assoc,
      List.singleton_append]

theorem run_block (text : List Char) :
    ∃ line', (Cutter.mk line finished (.between statement)).run (block text) =
      .ok ⟨line', finished, .between (statement.add text.reverse false)⟩ := by
  obtain ⟨line', inside⟩ := @run_blockCodes finished statement line 1 text [] line
  refine ⟨line', ?_⟩
  -- The opening looks like a word up to its brace.
  have opened : (Cutter.mk line finished (.between statement)).run ['%', 'q', '\x7b'] =
      .ok ⟨line, finished, .block statement line 1 [] false⟩ := rfl
  show (Cutter.mk line finished (.between statement)).run
    (['%', 'q', '\x7b'] ++ (text.flatMap blockCode ++ ['\x7d'])) = _
  rw [run_append_of_ok opened, run_append_of_ok inside, List.append_nil]
  rfl

theorem run_wordChars {word chars : List Char}
    (inWord : ∀ c ∈ word, Ascii.isBlankChar c = false ∧ c ≠ '\x22' ∧ c ≠ '#' ∧ c ≠ '\x7b') :
    (Cutter.mk line finished (.word statement chars)).run word =
      .ok ⟨line, finished, .word statement (word.reverse ++ chars)⟩ := by
  induction word generalizing chars with
  | nil => rfl
  | cons c word ih =>
    obtain ⟨⟨visible, _, _, notOpen⟩, others⟩ := List.forall_mem_cons.1 inWord
    -- Without a brace the word never becomes the opening of a block.
    have noBlock : ¬ c :: chars = blockOpening := fun same => notOpen (List.cons.inj same).1
    have stepped : (Cutter.mk line finished (.word statement chars)).step c =
        .ok ⟨line, finished, .word statement (c :: chars)⟩ := by
      simp only [step, if_neg noBlock, visible, Bool.false_eq_true, if_false, goTo]
    rw [run_cons stepped, ih others, List.reverse_cons, List.append_assoc, List.singleton_append]

theorem run_word {word : List Char} (isWord : IsWord word) :
    (Cutter.mk line finished (.between statement)).run word =
      .ok ⟨line, finished, .word statement word.reverse⟩ := by
  obtain ⟨nonempty, inWord⟩ := isWord
  cases word with
  | nil => exact absurd rfl nonempty
  | cons c word =>
    obtain ⟨⟨visible, notQuote, _, _⟩, others⟩ := List.forall_mem_cons.1 inWord
    have notNewline : ¬ c = '\n' := by
      rintro rfl
      exact absurd visible (by decide)
    have stepped : (Cutter.mk line finished (.between statement)).step c =
        .ok ⟨line, finished, .word statement [c]⟩ := by
      simp only [step, beginArgument, if_neg notNewline, visible, Bool.false_eq_true, if_false,
        if_neg notQuote, goTo]
    rw [run_cons stepped, run_wordChars others, List.reverse_cons]

/-- The place behind an argument: a bare word ends only at the blank behind it. -/
inductive Behind (statement : Draft) : Place → Prop
  | between : Behind statement (.between statement)
  | word {before : Draft} {chars : List Char} (ends : before.add chars true = statement) :
      Behind statement (.word before chars)

theorem Behind.step {place : Place} (behind : Behind statement place) {c : Char}
    (blank : Ascii.isBlankChar c = true) :
    (Cutter.mk line finished place).step c =
      (Cutter.mk line finished place).beginArgument statement c := by
  cases behind with
  | between => rfl
  | word ends =>
    have noBlock : ∀ chars, ¬ c :: chars = blockOpening := by
      rintro chars same
      obtain rfl := (List.cons.inj same).1
      exact absurd blank (by decide)
    simp only [Cutter.step, if_neg (noBlock _), blank, if_true, ends]

/-- A draft with one more argument. -/
theorem add_reverse (statement : Draft) (a : Argument) :
    statement.add a.text.toList.reverse a.bare =
      { statement with arguments := a :: statement.arguments } := by
  rw [Draft.add, List.reverse_reverse, String.ofList_toList]

theorem run_code {a : Argument} (plain : a.Plain) :
    ∃ line' place, (Cutter.mk line finished (.between statement)).run a.code =
        .ok ⟨line', finished, place⟩ ∧
      Behind { statement with arguments := a :: statement.arguments } place := by
  rw [← add_reverse, Argument.code]
  cases bare : a.bare with
  | true =>
    rw [if_pos rfl]
    exact ⟨_, _, run_word (plain bare), .word rfl⟩
  | false =>
    rw [if_neg Bool.false_ne_true]
    obtain ⟨line', ran⟩ := @run_block line finished statement a.text.toList
    exact ⟨line', _, ran, .between⟩

/-! ## Reading a line -/

theorem run_arguments {as : List Argument} (plain : ∀ a ∈ as, a.Plain) {line : Nat}
    {statement : Draft} {place : Place} (behind : Behind statement place) :
    ∃ line' place', (Cutter.mk line finished place).run (as.flatMap fun a => ' ' :: a.code) =
        .ok ⟨line', finished, place'⟩ ∧
      Behind { statement with arguments := as.reverse ++ statement.arguments } place' := by
  induction as generalizing line statement place with
  | nil => exact ⟨line, place, rfl, behind⟩
  | cons a as ih =>
    obtain ⟨first, others⟩ := List.forall_mem_cons.1 plain
    obtain ⟨between, place', ran, behind'⟩ := @run_code line finished statement a first
    obtain ⟨line'', place'', ranOthers, behind''⟩ := @ih others between _ place' behind'
    have blank : (Cutter.mk line finished place).step ' ' =
        .ok ⟨line, finished, .between statement⟩ := by
      rw [behind.step rfl]
      rfl
    refine ⟨line'', place'', ?_, ?_⟩
    · rw [List.flatMap_cons, List.cons_append, run_cons blank, run_append_of_ok ran, ranOthers]
    · rwa [List.reverse_cons, List.append_assoc, List.singleton_append]

/-- An argument begins with a character that begins a statement. -/
theorem exists_head_code {a : Argument} (plain : a.Plain) :
    ∃ c rest, a.code = c :: rest ∧ Ascii.isBlankChar c = false ∧ c ≠ '#' := by
  rw [Argument.code]
  cases bare : a.bare with
  | true =>
    obtain ⟨nonempty, inWord⟩ := plain bare
    rw [if_pos rfl]
    cases listed : a.text.toList with
    | nil => exact absurd listed nonempty
    | cons c rest =>
      rw [listed] at inWord
      obtain ⟨⟨visible, _, notHash, _⟩, _⟩ := List.forall_mem_cons.1 inWord
      exact ⟨c, rest, rfl, visible, notHash⟩
  | false => exact ⟨_, _, rfl, by decide, by decide⟩

theorem run_outside {a : Argument} (plain : a.Plain) (back : List Char) :
    (Cutter.mk line finished .outside).run (a.code ++ back) =
      (Cutter.mk line finished (.between ⟨line, []⟩)).run (a.code ++ back) := by
  obtain ⟨c, rest, code, visible, notHash⟩ := exists_head_code plain
  have notNewline : ¬ c = '\n' := by
    rintro rfl
    exact absurd visible (by decide)
  have same : (Cutter.mk line finished .outside).step c =
      (Cutter.mk line finished (.between ⟨line, []⟩)).step c := by
    simp only [step, beginArgument, if_neg notNewline, visible, Bool.false_eq_true, if_false,
      if_neg notHash, goTo]
  rw [code, List.cons_append, run, List.foldlM_cons, same, run, List.foldlM_cons]

theorem run_lineCode {as : List Argument} (nonempty : as ≠ []) (plain : ∀ a ∈ as, a.Plain)
    (line : Nat) :
    ∃ line', (Cutter.mk line finished .outside).run (lineCode as) =
      .ok ⟨line', ⟨line, as⟩ :: finished, .outside⟩ := by
  cases as with
  | nil => exact absurd rfl nonempty
  | cons a as =>
    obtain ⟨first, others⟩ := List.forall_mem_cons.1 plain
    obtain ⟨between, place, ran, behind⟩ := @run_code line finished ⟨line, []⟩ a first
    obtain ⟨last, place', ranOthers, behind'⟩ := @run_arguments finished as others between _ _ behind
    refine ⟨last + 1, ?_⟩
    rw [lineCode, List.append_assoc, run_outside first, run_append_of_ok ran,
      run_append_of_ok ranOthers]
    have ended : (Cutter.mk last finished place').step '\n' =
        .ok ⟨last + 1, ⟨line, a :: as⟩ :: finished, .outside⟩ := by
      rw [behind'.step rfl]
      simp only [beginArgument, if_true, endStatement, Draft.finish, List.reverse_append,
        List.reverse_reverse, List.reverse_singleton, List.singleton_append]
    rw [run_cons ended, run_nil]

/-! ## Reading a text -/

theorem run_lines {lines : List (List Argument)} (nonempty : ∀ as ∈ lines, as ≠ [])
    (plain : ∀ as ∈ lines, ∀ a ∈ as, a.Plain) {line : Nat} {finished : List Statement} :
    ∃ (line' : Nat) (read : List Statement), (Cutter.mk line finished .outside).run (lines.flatMap lineCode) =
        .ok ⟨line', read.reverse ++ finished, .outside⟩ ∧
      read.map Statement.arguments = lines := by
  induction lines generalizing line finished with
  | nil => exact ⟨line, [], rfl, rfl⟩
  | cons as lines ih =>
    obtain ⟨first, others⟩ := List.forall_mem_cons.1 nonempty
    obtain ⟨firstPlain, othersPlain⟩ := List.forall_mem_cons.1 plain
    obtain ⟨between, ran⟩ := @run_lineCode finished as first firstPlain line
    obtain ⟨line', read, ranOthers, same⟩ := @ih others othersPlain between (⟨line, as⟩ :: finished)
    refine ⟨line', ⟨line, as⟩ :: read, ?_, by rw [List.map_cons, same]⟩
    rw [List.flatMap_cons, run_append_of_ok ran, ranOthers, List.reverse_cons, List.append_assoc,
      List.singleton_append]

end Cutter

/-- A text of lines is cut into one statement for each line, with the arguments of the line. -/
theorem statements_linesText {lines : List (List Argument)} (nonempty : ∀ as ∈ lines, as ≠ [])
    (plain : ∀ as ∈ lines, ∀ a ∈ as, a.Plain) :
    ∃ read, statements (linesText lines) = .ok read ∧ read.map Statement.arguments = lines := by
  obtain ⟨line, read, ran, same⟩ := @Cutter.run_lines lines nonempty plain 1 []
  refine ⟨read, ?_, same⟩
  rw [statements, linesText, String.toList_ofList, Cutter.initial, ran]
  show Except.ok (read.reverse ++ []).reverse = _
  rw [List.append_nil, List.reverse_reverse]

end ScannerGen.Rules
