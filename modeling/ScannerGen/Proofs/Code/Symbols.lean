import ScannerGen.Text.Ascii

/-!
# Symbols of C texts

A reader of C takes a text apart into symbols, one character at a time.  Blanks and comments only
separate symbols, and so does a newline, unless it ends a directive.  The reader knows the part of the
language that constant arrays and numeric macros are written in, and refuses any other character.

* `Lexer.run`, `symbols?` — the reader.
* `Lexer.Spells` — the text that is left spells symbols.
* `Lexer.Spells.after`, `.word`, `.quoted`, `Lexer.run_comment` — how texts are read from their front.
-/

namespace ScannerGen.Code

/-- The smallest part of a text with a meaning: a word or numeral, a string, or a mark.  The end of a
directive is a mark. -/
inductive Symbol where
  | word (text : String)
  | quoted (text : String)
  | mark (c : Char)
  deriving DecidableEq, Repr, Inhabited

/-- What a reader is in the middle of. -/
inductive Lexing where
  | nothing
  | word (chars : List Char)
  | quoted (chars : List Char)
  /-- Behind a slash, which has to begin a comment. -/
  | slash
  | comment
  /-- In a comment, behind a star. -/
  | star
  deriving DecidableEq, Repr, Inhabited

structure Lexer where
  inDirective : Bool
  reading : Lexing
  deriving DecidableEq, Repr, Inhabited

def isWordChar (c : Char) : Bool := Ascii.isAlphaChar c || Ascii.isDigitChar c || c == '_'

/-- The marks of declarations. -/
def markChars : List Char := ['[', ']', '\x7b', '\x7d', '=', ',', ';', '*']

namespace Lexer

/-- Outside of any symbol, comment or directive. -/
def start : Lexer := ⟨false, .nothing⟩

/-- The next character where nothing is being read. -/
def enter (inDirective : Bool) (c : Char) : Option (Lexer × List Symbol) :=
  if isWordChar c then some (⟨inDirective, .word [c]⟩, [])
  else if c = '\x22' then some (⟨inDirective, .quoted []⟩, [])
  else if c = '/' then some (⟨inDirective, .slash⟩, [])
  else if c = '#' then some (⟨true, .nothing⟩, [.mark c])
  else if c = '\n' then some (start, if inDirective then [.mark c] else [])
  else if c = ' ' then some (⟨inDirective, .nothing⟩, [])
  else if markChars.contains c then some (⟨inDirective, .nothing⟩, [.mark c])
  else none

/-- The next character, and the symbols that it completes. -/
def step (lexer : Lexer) (c : Char) : Option (Lexer × List Symbol) :=
  match lexer.reading with
  | .nothing => enter lexer.inDirective c
  | .word chars =>
    if isWordChar c then some ({ lexer with reading := .word (chars ++ [c]) }, [])
    else
      (enter lexer.inDirective c).map fun (next, symbols) =>
        (next, .word (String.ofList chars) :: symbols)
  | .quoted chars =>
    if c = '\x22' then some ({ lexer with reading := .nothing }, [.quoted (String.ofList chars)])
    else if c = '\x5c' ∨ c = '\n' then none
    else some ({ lexer with reading := .quoted (chars ++ [c]) }, [])
  | .slash => if c = '*' then some ({ lexer with reading := .comment }, []) else none
  | .comment => some ({ lexer with reading := if c = '*' then .star else .comment }, [])
  | .star =>
    let reading := if c = '/' then .nothing else if c = '*' then .star else .comment
    some ({ lexer with reading }, [])

def run (lexer : Lexer) : List Char → Option (Lexer × List Symbol)
  | [] => some (lexer, [])
  | c :: cs =>
    (lexer.step c).bind fun (next, symbols) =>
      (next.run cs).map fun (last, more) => (last, symbols ++ more)

/-- The text that is left spells symbols, and ends outside of everything. -/
def Spells (lexer : Lexer) (text : List Char) (symbols : List Symbol) : Prop :=
  lexer.run text = some (start, symbols)

instance (lexer : Lexer) (text : List Char) (symbols : List Symbol) :
    Decidable (lexer.Spells text symbols) :=
  inferInstanceAs (Decidable (_ = _))

end Lexer

/-- The symbols of a text. -/
def symbols? (text : String) : Option (List Symbol) :=
  match Lexer.start.run text.toList with
  | some (last, symbols) => if last = .start then some symbols else none
  | none => none

theorem symbols?_eq_some_iff {text : String} {symbols : List Symbol} :
    symbols? text = some symbols ↔ Lexer.start.Spells text.toList symbols := by
  rw [symbols?, Lexer.Spells]
  cases Lexer.start.run text.toList with
  | none => simp
  | some result =>
    obtain ⟨last, read⟩ := result
    by_cases ended : last = .start <;> simp [ended]

example : symbols? "#define N 2\n/* a */ int x[N];\n" =
    some [.mark '#', .word "define", .word "N", .word "2", .mark '\n', .word "int", .word "x",
      .mark '[', .word "N", .mark ']', .mark ';'] := by
  decide

namespace Lexer

variable {lexer next : Lexer} {text rest : List Char} {symbols more : List Symbol}

theorem run_append (lexer : Lexer) (front back : List Char) :
    lexer.run (front ++ back) =
      (lexer.run front).bind fun (next, symbols) =>
        (next.run back).map fun (last, more) => (last, symbols ++ more) := by
  induction front generalizing lexer with
  | nil => simp [run]
  | cons c front ih =>
    rw [List.cons_append, run, run]
    cases lexer.step c with
    | none => rfl
    | some stepped =>
      obtain ⟨next, symbols⟩ := stepped
      simp only [Option.bind_some, ih]
      cases next.run front with
      | none => rfl
      | some middle =>
        obtain ⟨middle, between⟩ := middle
        simp [Option.map_map, Function.comp_def]

/-- A text whose symbols are complete at its end can be read before the rest. -/
theorem Spells.after (ran : lexer.run text = some (next, symbols)) (spells : next.Spells rest more) :
    lexer.Spells (text ++ rest) (symbols ++ more) := by
  rw [Spells] at spells
  simp only [Spells, run_append, ran, Option.bind_some, spells, Option.map_some]

/-! ## Words -/

/-- The text does not go on with a character of a word. -/
def breaks : List Char → Bool
  | [] => false
  | c :: _ => !isWordChar c

theorem run_word {inDirective : Bool} (chars : List Char) (inWord : ∀ c ∈ text, isWordChar c = true)
    (broken : breaks rest = true) (spells : (Lexer.mk inDirective .nothing).Spells rest symbols) :
    (Lexer.mk inDirective (.word chars)).Spells (text ++ rest)
      (.word (String.ofList (chars ++ text)) :: symbols) := by
  induction text generalizing chars with
  | nil =>
    cases rest with
    | nil => cases broken
    | cons c rest =>
      -- The character behind a word completes it and is read as if nothing had been there.
      have outside : isWordChar c = false := by simpa [breaks] using broken
      rw [Spells, run, step] at spells
      rw [Spells, List.nil_append, run, step]
      simp only [outside, Bool.false_eq_true, if_false, List.append_nil]
      cases entered : enter inDirective c with
      | none => simp [entered] at spells
      | some stepped =>
        simp only [entered, Option.bind_some, Option.map_some, Option.map_eq_some_iff] at spells ⊢
        obtain ⟨⟨last, more⟩, read, same⟩ := spells
        cases same
        exact ⟨_, read, rfl⟩
  | cons c text ih =>
    obtain ⟨first, others⟩ := List.forall_mem_cons.1 inWord
    have goesOn := ih (chars ++ [c]) others
    rw [List.append_assoc, List.singleton_append] at goesOn
    rw [Spells, List.cons_append, run, step]
    simp only [first, if_true, Option.bind_some, List.nil_append]
    rw [goesOn]
    rfl

/-- Words and numerals. -/
def IsWord (text : List Char) : Prop := text ≠ [] ∧ ∀ c ∈ text, isWordChar c = true

instance (text : List Char) : Decidable (IsWord text) :=
  @instDecidableAnd _ _ inferInstance (List.decidableBAll _ text)

theorem Spells.word {inDirective : Bool} {word : String} (isWord : IsWord word.toList)
    (broken : breaks rest = true) (spells : (Lexer.mk inDirective .nothing).Spells rest symbols) :
    (Lexer.mk inDirective .nothing).Spells (word.toList ++ rest) (.word word :: symbols) := by
  obtain ⟨nonempty, inWord⟩ := isWord
  obtain ⟨c, cs, text⟩ := List.exists_cons_of_ne_nil nonempty
  rw [text] at inWord
  obtain ⟨first, others⟩ := List.forall_mem_cons.1 inWord
  have entered : (Lexer.mk inDirective .nothing).run [c] = some (⟨inDirective, .word [c]⟩, []) := by
    simp [run, step, enter, first]
  have spelled := Spells.after entered (run_word [c] others broken spells)
  rwa [List.nil_append, ← List.append_assoc, List.singleton_append, ← text, String.ofList_toList]
    at spelled

/-! ## Strings and comments -/

/-- Characters that stand for themselves in a string. -/
def isPlainChar (c : Char) : Bool := c != '\x22' && c != '\x5c' && c != '\n'

theorem isPlainChar_of_isWordChar {c : Char} (inWord : isWordChar c = true) : isPlainChar c = true := by
  simp only [isPlainChar, Bool.and_eq_true, bne_iff_ne]
  refine ⟨⟨?_, ?_⟩, ?_⟩ <;> rintro rfl <;> cases inWord

theorem run_quoted {inDirective : Bool} (chars : List Char) (plain : ∀ c ∈ text, isPlainChar c = true) :
    (Lexer.mk inDirective (.quoted chars)).run (text ++ ['\x22']) =
      some (⟨inDirective, .nothing⟩, [.quoted (String.ofList (chars ++ text))]) := by
  induction text generalizing chars with
  | nil => simp [run, step]
  | cons c text ih =>
    obtain ⟨first, others⟩ := List.forall_mem_cons.1 plain
    obtain ⟨⟨noQuote, noEscape⟩, noNewline⟩ : (c ≠ '\x22' ∧ c ≠ '\x5c') ∧ c ≠ '\n' := by
      simpa [isPlainChar] using first
    have goesOn := ih (chars ++ [c]) others
    rw [List.append_assoc, List.singleton_append] at goesOn
    rw [List.cons_append, run, step]
    simp only [noQuote, noEscape, noNewline, or_self, if_false, Option.bind_some, goesOn]
    rfl

theorem Spells.quoted {content : String} (plain : ∀ c ∈ content.toList, isPlainChar c = true)
    (spells : start.Spells rest symbols) :
    start.Spells ('\x22' :: (content.toList ++ ('\x22' :: rest))) (.quoted content :: symbols) := by
  have entered : start.run ['\x22'] = some (⟨false, .quoted []⟩, []) := by decide
  have read := Spells.after entered (Spells.after (run_quoted [] plain) spells)
  simpa using read

theorem run_comment {inDirective : Bool} (starless : ∀ c ∈ text, c ≠ '*') :
    (Lexer.mk inDirective .comment).run text = some (⟨inDirective, .comment⟩, []) := by
  induction text with
  | nil => rfl
  | cons c text ih =>
    obtain ⟨first, others⟩ := List.forall_mem_cons.1 starless
    rw [run, step]
    simp only [first, if_false, Option.bind_some, ih others]
    rfl

end Lexer

end ScannerGen.Code
