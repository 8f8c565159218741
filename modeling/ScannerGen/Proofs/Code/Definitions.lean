import ScannerGen.Code.Item
import ScannerGen.Proofs.Code.Symbols
import ScannerGen.Proofs.Text.Decimal

/-!
# Definitions in C texts

A reader of numeric macros and constant arrays: it gives the numbers and strings between the braces, with
the types, names and dimensions that stand in front of them.  An array has at least one value, and one
comma between any two of them.

* `definitions?` — the reader.
* `Declares` — a text is read as definitions, whatever follows it.
* `declares_define`, `declares_array`, `declares_matrix`, `declares_nameArray` — items are read as what
  they were made of.
-/

namespace ScannerGen.Code

/-! ## Definitions -/

/-- A dimension of an array: a numeral, or the name of a macro. -/
inductive Extent where
  | number (n : Nat)
  | name (name : String)
  deriving DecidableEq, Repr, Inhabited

/-- What a text defines, with the numbers and strings between the braces. -/
inductive Definition where
  | constant (name : String) (value : Nat)
  | numbers (type : NumberType) (name : String) (extent : Extent) (values : List Nat)
  | rows (type : NumberType) (name : String) (rows columns : Extent) (values : List (List Nat))
  | strings (name : String) (extent : Extent) (values : List String)
  deriving DecidableEq, Repr, Inhabited

/-! ## Reading definitions -/

/-- The number that a word is the decimal numeral of, without leading zeros. -/
def numeral? (word : String) : Option Nat :=
  let n := word.toList.foldl (fun value c => value * 10 + (c.toNat - 48)) 0
  if word = toString n then some n else none

def extent? (word : String) : Option Extent :=
  if Ascii.isIdentifier word then some (.name word) else (numeral? word).map .number

def number? : Symbol → Option Nat
  | .word word => numeral? word
  | _ => none

def text? : Symbol → Option String
  | .quoted text => some text
  | _ => none

/-- Values up to the end of an array, with commas between them. -/
def values? {α : Type} (value? : Symbol → Option α) : List Symbol → Option (List α)
  | [symbol, .mark '\x7d', .mark ';'] => (value? symbol).map fun value => [value]
  | symbol :: .mark ',' :: rest =>
    (value? symbol).bind fun value => (values? value? rest).map fun more => value :: more
  | _ => none

/-- Rows of numbers up to the end of a matrix, from inside of a row on. -/
def rows? : List Symbol → Option (List (List Nat))
  | [symbol, .mark '\x7d', .mark '\x7d', .mark ';'] => (number? symbol).map fun n => [[n]]
  | symbol :: .mark '\x7d' :: .mark ',' :: .mark '\x7b' :: rest =>
    (number? symbol).bind fun n => (rows? rest).map fun others => [n] :: others
  | symbol :: .mark ',' :: rest =>
    (number? symbol).bind fun n =>
      match rows? rest with
      | some (row :: others) => some ((n :: row) :: others)
      | _ => none
  | _ => none

/-- Numbers or rows of numbers, behind their type. -/
def numbers? (type : NumberType) : List Symbol → Option Definition
  | .word name :: .mark '[' :: .word rows :: .mark ']' :: .mark '[' :: .word columns :: .mark ']' ::
      .mark '=' :: .mark '\x7b' :: .mark '\x7b' :: rest =>
    (extent? rows).bind fun rows => (extent? columns).bind fun columns =>
      (rows? rest).map fun values => .rows type name rows columns values
  | .word name :: .mark '[' :: .word extent :: .mark ']' :: .mark '=' :: .mark '\x7b' :: rest =>
    (extent? extent).bind fun extent =>
      (values? number? rest).map fun values => .numbers type name extent values
  | _ => none

def strings? : List Symbol → Option Definition
  | .word name :: .mark '[' :: .word extent :: .mark ']' :: .mark '=' :: .mark '\x7b' :: rest =>
    (extent? extent).bind fun extent =>
      (values? text? rest).map fun values => .strings name extent values
  | _ => none

/-- A constant array, behind its storage. -/
def array? : List Symbol → Option Definition
  | .word "unsigned" :: .word "char" :: rest => numbers? .unsignedChar rest
  | .word "unsigned" :: .word "short" :: rest => numbers? .unsignedShort rest
  | .word "unsigned" :: .word "int" :: rest => numbers? .unsignedInt rest
  | .word "int" :: rest => numbers? .int rest
  | .word "char" :: .mark '*' :: .word "const" :: rest => strings? rest
  | _ => none

def definition? : List Symbol → Option Definition
  | [.mark '#', .word "define", .word name, value, .mark '\n'] =>
    (number? value).map fun value => .constant name value
  | .word "static" :: .word "const" :: rest => array? rest
  | _ => none

/-- The ends of declarations and of directives. -/
def Symbol.ends : Symbol → Bool
  | mark c => c == ';' || c == '\n'
  | _ => false

/-- The symbols of each declaration and directive, its end included. -/
def splitStatements : List Symbol → List (List Symbol)
  | [] => []
  | symbol :: rest =>
    if symbol.ends then [symbol] :: splitStatements rest
    else
      match splitStatements rest with
      | [] => [[symbol]]
      | first :: others => (symbol :: first) :: others

/-- What a text defines, if it defines nothing but numeric macros and constant arrays. -/
def definitions? (text : String) : Option (List Definition) :=
  (symbols? text).bind fun symbols => (splitStatements symbols).mapM definition?

example : definitions? "#define N 2\nstatic const int x[N][1] =\n \x7b \x7b 7 \x7d,\n \x7b 8 \x7d \x7d;\n" =
    some [.constant "N" 2, .rows .int "x" (.name "N") (.number 1) [[7], [8]]] :=
  rfl

/-- A comma behind the last value is refused. -/
example : definitions? "static const int x[2] =\n \x7b 1, 2, \x7d;\n" = none :=
  rfl

/-! ## Texts that declare -/

/-- The text is read as definitions, and what follows it is read as if it stood alone. -/
def Declares (text : List Char) (ds : List Definition) : Prop :=
  ∃ symbols, Lexer.start.Spells text symbols ∧
    ∀ rest, (splitStatements (symbols ++ rest)).mapM definition? =
      ((splitStatements rest).mapM definition?).map fun others => ds ++ others

theorem Declares.definitions?_eq {text : String} {ds : List Definition}
    (declares : Declares text.toList ds) :
    definitions? text = some ds := by
  obtain ⟨symbols, spells, read⟩ := declares
  have alone := read []
  rw [List.append_nil] at alone
  rw [definitions?, symbols?_eq_some_iff.2 spells, Option.bind_some, alone]
  simp [splitStatements]

theorem Declares.append {front back : List Char} {ds es : List Definition}
    (first : Declares front ds) (second : Declares back es) : Declares (front ++ back) (ds ++ es) := by
  obtain ⟨symbols, spells, read⟩ := first
  obtain ⟨more, spells', read'⟩ := second
  -- Both readings are about any rest, and so the second text is the rest of the first.
  refine ⟨symbols ++ more, .after spells spells', fun rest => ?_⟩
  rw [List.append_assoc, read, read', Option.map_map]
  simp [Function.comp_def]

theorem declares_nothing {text : List Char} (spells : Lexer.start.Spells text []) : Declares text [] :=
  ⟨[], spells, fun rest => by simp⟩

theorem splitStatements_statement {body : List Symbol} {last : Symbol}
    (inside : ∀ s ∈ body, s.ends = false) (ends : last.ends = true) (rest : List Symbol) :
    splitStatements (body ++ last :: rest) = (body ++ [last]) :: splitStatements rest := by
  induction body with
  | nil => simp [splitStatements, ends]
  | cons s body ih =>
    obtain ⟨first, others⟩ := List.forall_mem_cons.1 inside
    rw [List.cons_append, splitStatements, if_neg (by simp [first]), ih others]
    rfl

theorem declares_of_statement {text : List Char} {d : Definition} (body : List Symbol) (last : Symbol)
    (spells : Lexer.start.Spells text (body ++ [last])) (inside : ∀ s ∈ body, s.ends = false)
    (ends : last.ends = true) (read : definition? (body ++ [last]) = some d) : Declares text [d] := by
  refine ⟨_, spells, fun rest => ?_⟩
  rw [List.append_assoc, List.singleton_append, splitStatements_statement inside ends, List.mapM_cons, read]
  cases (splitStatements rest).mapM definition? <;> rfl

/-! ## Numerals -/

/-- The numeral of a number. -/
def numeral (n : Nat) : Symbol := .word (toString n)

theorem numeral?_toString (n : Nat) : numeral? (toString n) = some n := by
  rw [numeral?]
  simp only [foldl_toString, if_true]

theorem number?_numeral (n : Nat) : number? (numeral n) = some n := numeral?_toString n

theorem isWord_toString (n : Nat) : Lexer.IsWord (toString n).toList := by
  refine ⟨toList_toString_ne_nil n, fun c member => ?_⟩
  have digit := List.all_eq_true.1 (isDigitChar_toString n) c member
  simp [isWordChar, digit]

theorem extent?_toString (n : Nat) : extent? (toString n) = some (.number n) := by
  rw [extent?, isIdentifier_toString, if_neg Bool.false_ne_true, numeral?_toString]
  rfl

theorem extent?_of_isIdentifier {name : String} (identifier : Ascii.isIdentifier name = true) :
    extent? name = some (.name name) :=
  if_pos identifier

theorem isWord_of_isIdentifier {name : String} (identifier : Ascii.isIdentifier name = true) :
    Lexer.IsWord name.toList := by
  rw [Ascii.isIdentifier] at identifier
  cases chars : name.toList with
  | nil => simp [chars] at identifier
  | cons c cs =>
    simp only [chars, Bool.and_eq_true, List.all_eq_true, Bool.or_eq_true] at identifier
    refine ⟨List.cons_ne_nil c cs, ?_⟩
    simp only [isWordChar, List.forall_mem_cons, Bool.or_eq_true]
    exact ⟨identifier.1.imp_left .inl, identifier.2⟩

/-! ## Values -/

/-- The symbols of values with commas between them. -/
def separated {α : Type} (symbol : α → Symbol) : List α → List Symbol
  | [] => []
  | [value] => [symbol value]
  | value :: next :: rest => symbol value :: .mark ',' :: separated symbol (next :: rest)

theorem ends_separated {α : Type} {symbol : α → Symbol} (inside : ∀ a, (symbol a).ends = false)
    (values : List α) : ∀ s ∈ separated symbol values, s.ends = false := by
  fun_induction separated symbol values with
  | case1 => exact List.forall_mem_nil _
  | case2 value => exact List.forall_mem_singleton.2 (inside value)
  | case3 value next rest ih =>
    exact List.forall_mem_cons.2 ⟨inside value, List.forall_mem_cons.2 ⟨rfl, ih⟩⟩

theorem values?_separated {α : Type} {symbol : α → Symbol} {value? : Symbol → Option α}
    (read : ∀ a, value? (symbol a) = some a) {values : List α} (nonempty : values ≠ []) :
    values? value? (separated symbol values ++ [.mark '\x7d', .mark ';']) = some values := by
  fun_induction separated symbol values with
  | case1 => exact absurd rfl nonempty
  | case2 value => simp [values?, read]
  | case3 value next rest ih =>
    rw [List.cons_append, List.cons_append, values?, read, ih (List.cons_ne_nil next rest)]
    rfl

/-- The symbols of the rows of a matrix, from inside of the first row on. -/
def rowSymbols : List (List Nat) → List Symbol
  | [] => []
  | [row] => separated numeral row ++ [.mark '\x7d']
  | row :: next :: rest =>
    separated numeral row ++ .mark '\x7d' :: .mark ',' :: .mark '\x7b' :: rowSymbols (next :: rest)

theorem ends_rowSymbols (rows : List (List Nat)) : ∀ s ∈ rowSymbols rows, s.ends = false := by
  have numerals := @ends_separated _ numeral (fun _ => rfl)
  fun_induction rowSymbols rows with
  | case1 => exact List.forall_mem_nil _
  | case2 row => exact List.forall_mem_append.2 ⟨numerals row, List.forall_mem_singleton.2 rfl⟩
  | case3 row next rest ih =>
    refine List.forall_mem_append.2 ⟨numerals row, ?_⟩
    exact List.forall_mem_cons.2 ⟨rfl, List.forall_mem_cons.2 ⟨rfl, List.forall_mem_cons.2 ⟨rfl, ih⟩⟩⟩

/-- A row is read in front of whatever ends its last number. -/
theorem rows?_row {tail : List Symbol} {others : List (List Nat)}
    (last : ∀ n, rows? (numeral n :: tail) = some ([n] :: others)) {row : List Nat} (nonempty : row ≠ []) :
    rows? (separated numeral row ++ tail) = some (row :: others) := by
  fun_induction separated numeral row with
  | case1 => exact absurd rfl nonempty
  | case2 n => exact last n
  | case3 n next rest ih =>
    rw [List.cons_append, List.cons_append, rows?, number?_numeral, ih (List.cons_ne_nil next rest)]
    rfl

theorem rows?_rowSymbols {rows : List (List Nat)} (nonempty : rows ≠ [])
    (filled : ∀ row ∈ rows, row ≠ []) :
    rows? (rowSymbols rows ++ [.mark '\x7d', .mark ';']) = some rows := by
  fun_induction rowSymbols rows with
  | case1 => exact absurd rfl nonempty
  | case2 row =>
    rw [List.append_assoc]
    exact rows?_row (fun n => by simp [rows?, number?_numeral]) (filled row List.mem_cons_self)
  | case3 row next rest ih =>
    obtain ⟨first, others⟩ := List.forall_mem_cons.1 filled
    have read := ih (List.cons_ne_nil next rest) others
    rw [List.append_assoc]
    refine rows?_row (fun n => ?_) first
    simp only [List.cons_append, rows?, number?_numeral, read]
    rfl

/-! ## Written values -/

section Written

open Lexer (Spells)

variable {rest : List Char} {symbols : List Symbol}

theorem spells_valuesFrom {column : Nat} {values : List Nat} (nonempty : values ≠ [])
    (spells : Lexer.start.Spells rest symbols) :
    Lexer.start.Spells ((valuesFrom column values).flatMap String.toList ++ rest)
      (separated numeral values ++ symbols) := by
  have comma : Lexer.start.run ", ".toList = some (.start, [.mark ',']) := by decide
  have wrapped : Lexer.start.run ",\n    ".toList = some (.start, [.mark ',']) := by decide
  have ended : Lexer.start.run "\n".toList = some (.start, []) := by decide
  fun_induction valuesFrom column values with
  | case1 => exact absurd rfl nonempty
  | case2 column v =>
    simp only [List.flatMap_cons, List.flatMap_nil, List.append_nil, List.append_assoc]
    exact .word (isWord_toString v) rfl (.after ended spells)
  | case3 column v w others inside ih =>
    have followed := Spells.after comma (ih (List.cons_ne_nil w others))
    simp only [List.flatMap_cons, List.append_assoc]
    exact .word (isWord_toString v) rfl followed
  | case4 column v w others last ih =>
    have followed := Spells.after wrapped (ih (List.cons_ne_nil w others))
    simp only [List.flatMap_cons, List.append_assoc]
    exact .word (isWord_toString v) rfl followed

theorem spells_valuePieces {values : List Nat} (nonempty : values ≠ [])
    (spells : Lexer.start.Spells rest symbols) :
    Lexer.start.Spells ((valuePieces values).flatMap String.toList ++ rest)
      (separated numeral values ++ symbols) := by
  have margin : Lexer.start.run "    ".toList = some (.start, []) := by decide
  have indented := Spells.after margin (@spells_valuesFrom _ _ 0 _ nonempty spells)
  rw [valuePieces, if_neg nonempty, List.flatMap_cons, List.append_assoc]
  exact indented

/-- A row behind its opening brace and the comment with its number. -/
theorem spells_row {index : Nat} {row : List Nat} (nonempty : row ≠ [])
    (spells : Lexer.start.Spells rest symbols) :
    Lexer.start.Spells
      (s!"  \x7b /* state {index} */\n".toList ++ ((valuePieces row).flatMap String.toList ++ rest))
      (.mark '\x7b' :: (separated numeral row ++ symbols)) := by
  have opened : Lexer.start.run "  \x7b /* state ".toList = some (⟨false, .comment⟩, [.mark '\x7b']) := by
    decide
  have left : (Lexer.mk false .comment).run " */\n".toList = some (.start, []) := by decide
  have starless : ∀ c ∈ (toString index).toList, c ≠ '*' := by
    rintro c member rfl
    exact absurd (List.all_eq_true.1 (isDigitChar_toString index) _ member) (by decide)
  have read := Spells.after opened (.after (Lexer.run_comment starless)
    (.after left (spells_valuePieces nonempty spells)))
  simp only [String.toList_append, List.append_assoc]
  exact read

theorem spells_rowPieces {index : Nat} {rows : List (List Nat)} (nonempty : rows ≠ [])
    (filled : ∀ row ∈ rows, row ≠ []) (spells : Lexer.start.Spells rest symbols) :
    Lexer.start.Spells ((rowPieces index rows).flatMap String.toList ++ rest)
      (.mark '\x7b' :: (rowSymbols rows ++ symbols)) := by
  have closed : Lexer.start.run "  \x7d\n".toList = some (.start, [.mark '\x7d']) := by decide
  have comma : Lexer.start.run "  \x7d,\n".toList = some (.start, [.mark '\x7d', .mark ',']) := by decide
  induction rows generalizing index with
  | nil => exact absurd rfl nonempty
  | cons row others ih =>
    obtain ⟨first, filled⟩ := List.forall_mem_cons.1 filled
    simp only [rowPieces, List.flatMap_append, List.flatMap_cons, List.append_assoc]
    -- Only the last row has no comma behind its brace.
    cases others with
    | nil =>
      rw [if_pos rfl, rowSymbols, List.append_assoc]
      exact spells_row first (.after closed spells)
    | cons next others =>
      have followed := Spells.after comma (@ih (index + 1) (List.cons_ne_nil next others) filled)
      rw [if_neg (List.cons_ne_nil next others), rowSymbols, List.append_assoc]
      exact spells_row first followed

theorem spells_namePieces {names : List String} (nonempty : names ≠ [])
    (plain : ∀ name ∈ names, ∀ c ∈ name.toList, Lexer.isPlainChar c = true)
    (spells : Lexer.start.Spells rest symbols) :
    Lexer.start.Spells ((namePieces names).flatMap String.toList ++ rest)
      (separated Symbol.quoted names ++ symbols) := by
  have margin : Lexer.start.run "    ".toList = some (.start, []) := by decide
  have comma : Lexer.start.run ",\n".toList = some (.start, [.mark ',']) := by decide
  have ended : Lexer.start.run "\n".toList = some (.start, []) := by decide
  induction names with
  | nil => exact absurd rfl nonempty
  | cons name others ih =>
    obtain ⟨first, plain⟩ := List.forall_mem_cons.1 plain
    cases others with
    | nil =>
      have read := Spells.after margin (.quoted first (.after ended spells))
      simp only [namePieces, List.flatMap_cons, List.flatMap_nil, List.append_nil, String.toList_append,
        List.append_assoc]
      exact read
    | cons next others =>
      have followed := Spells.after comma (ih (List.cons_ne_nil next others) plain)
      have read := Spells.after margin (.quoted first followed)
      rw [namePieces, List.flatMap_cons, List.append_assoc]
      simp only [String.toList_append, List.append_assoc]
      · exact read
      · exact List.cons_ne_nil next others

end Written

/-! ## Written items -/

/-- The symbols of a type. -/
def NumberType.symbols : NumberType → List Symbol
  | unsignedChar => [.word "unsigned", .word "char"]
  | unsignedShort => [.word "unsigned", .word "short"]
  | unsignedInt => [.word "unsigned", .word "int"]
  | int => [.word "int"]

theorem ends_symbols (type : NumberType) : ∀ s ∈ type.symbols, s.ends = false := by
  cases type <;> decide

theorem definition?_numbers (type : NumberType) (rest : List Symbol) :
    definition? (.word "static" :: .word "const" :: (type.symbols ++ rest)) = numbers? type rest := by
  cases type <;> rfl

theorem definition?_strings (rest : List Symbol) :
    definition? (.word "static" :: .word "const" :: .word "char" :: .mark '*' :: .word "const" :: rest) =
      strings? rest :=
  rfl

section Items

open Lexer (Spells)

variable {name : String} {rest : List Char} {symbols : List Symbol}

theorem spells_type (type : NumberType) (spells : Lexer.start.Spells rest symbols) :
    Lexer.start.Spells ("static const ".toList ++ (type.name.toList ++ (" ".toList ++ rest)))
      (.word "static" :: .word "const" :: (type.symbols ++ symbols)) := by
  have read : Lexer.start.run ("static const ".toList ++ (type.name.toList ++ " ".toList)) =
      some (.start, .word "static" :: .word "const" :: type.symbols) := by
    cases type <;> decide
  have followed := Spells.after read spells
  simpa only [List.append_assoc, List.cons_append] using followed

theorem declares_blank : Declares (Item.blank.pieces.flatMap String.toList) [] :=
  declares_nothing (by decide)

theorem declares_define (isWord : Lexer.IsWord name.toList) (n : Nat) :
    Declares ((Item.define name (some (toString n))).pieces.flatMap String.toList) [.constant name n] := by
  have opened : Lexer.start.run "#define ".toList =
      some (⟨true, .nothing⟩, [.mark '#', .word "define"]) := by decide
  have between : (Lexer.mk true .nothing).run " ".toList = some (⟨true, .nothing⟩, []) := by decide
  have ended : (Lexer.mk true .nothing).Spells "\n".toList [.mark '\n'] := by decide
  have read := Spells.after opened (.word isWord rfl (.after between (.word (isWord_toString n) rfl ended)))
  refine declares_of_statement [.mark '#', .word "define", .word name, numeral n] (.mark '\n')
    ?_ ?_ rfl ?_
  · simp only [Item.pieces, List.flatMap_cons, List.flatMap_nil, List.append_nil, String.toList_append,
      List.append_assoc]
    exact read
  · simp [Symbol.ends, numeral]
  · simp [definition?, number?_numeral]

theorem run_bracket : Lexer.start.run "[".toList = some (.start, [.mark '[']) := by decide

/-- In front of the values of an array. -/
theorem run_begin : Lexer.start.run "] =\n  \x7b\n".toList =
    some (.start, [.mark ']', .mark '=', .mark '\x7b']) := by
  decide

/-- Behind the values of an array. -/
theorem spells_end : Lexer.start.Spells "  \x7d;\n".toList [.mark '\x7d', .mark ';'] := by decide

theorem declares_array (type : NumberType) (isWord : Lexer.IsWord name.toList) {values : List Nat}
    {n : Nat} (length : values.length = n) (nonempty : values ≠ []) :
    Declares ((Item.array type name values).pieces.flatMap String.toList)
      [.numbers type name (.number n) values] := by
  subst length
  have listed := Spells.after run_begin (spells_valuePieces nonempty spells_end)
  have read := spells_type type
    (.word isWord rfl (.after run_bracket (.word (isWord_toString values.length) rfl listed)))
  refine declares_of_statement
    (.word "static" :: .word "const" :: (type.symbols ++ .word name :: .mark '[' :: numeral values.length ::
      .mark ']' :: .mark '=' :: .mark '\x7b' :: (separated numeral values ++ [.mark '\x7d'])))
    (.mark ';') ?_ ?_ rfl ?_
  · simp only [Item.pieces, List.flatMap_cons, List.flatMap_append, List.flatMap_nil, List.append_nil,
      String.toList_append, List.append_assoc, List.cons_append] at read ⊢
    exact read
  · have types := ends_symbols type
    have numerals := @ends_separated _ numeral (fun _ => rfl) values
    simp only [List.forall_mem_cons, List.forall_mem_append]
    exact ⟨rfl, rfl, types, rfl, rfl, rfl, rfl, rfl, rfl, numerals, rfl,
      List.forall_mem_nil _⟩
  · simp only [List.cons_append, List.append_assoc, definition?_numbers, numbers?, numeral,
      extent?_toString]
    simp [values?_separated number?_numeral nonempty]

theorem declares_matrix (type : NumberType) {rows columns : String} (isWord : Lexer.IsWord name.toList)
    (rowsName : Ascii.isIdentifier rows = true) (columnsName : Ascii.isIdentifier columns = true)
    {values : List (List Nat)} (nonempty : values ≠ []) (filled : ∀ row ∈ values, row ≠ []) :
    Declares ((Item.matrix type name rows columns values).pieces.flatMap String.toList)
      [.rows type name (.name rows) (.name columns) values] := by
  have next : Lexer.start.run "][".toList = some (.start, [.mark ']', .mark '[']) := by decide
  have listed := Spells.after run_begin (@spells_rowPieces _ _ 0 _ nonempty filled spells_end)
  have sized := Spells.after next (.word (isWord_of_isIdentifier columnsName) rfl listed)
  have read := spells_type type
    (.word isWord rfl (.after run_bracket (.word (isWord_of_isIdentifier rowsName) rfl sized)))
  refine declares_of_statement
    (.word "static" :: .word "const" :: (type.symbols ++ .word name :: .mark '[' :: .word rows ::
      .mark ']' :: .mark '[' :: .word columns :: .mark ']' :: .mark '=' :: .mark '\x7b' :: .mark '\x7b' ::
        (rowSymbols values ++ [.mark '\x7d'])))
    (.mark ';') ?_ ?_ rfl ?_
  · simp only [Item.pieces, List.flatMap_cons, List.flatMap_append, List.flatMap_nil, List.append_nil,
      String.toList_append, List.append_assoc, List.cons_append] at read ⊢
    exact read
  · have types := ends_symbols type
    have numerals := ends_rowSymbols values
    simp only [List.forall_mem_cons, List.forall_mem_append]
    exact ⟨rfl, rfl, types, rfl, rfl, rfl, rfl, rfl, rfl, rfl, rfl, rfl, rfl, numerals, rfl,
      List.forall_mem_nil _⟩
  · simp only [List.cons_append, List.append_assoc, definition?_numbers, numbers?,
      extent?_of_isIdentifier rowsName, extent?_of_isIdentifier columnsName]
    simp [rows?_rowSymbols nonempty filled]

theorem declares_nameArray (isWord : Lexer.IsWord name.toList) {values : List String} {n : Nat}
    (length : values.length = n) (nonempty : values ≠ [])
    (plain : ∀ value ∈ values, ∀ c ∈ value.toList, Lexer.isPlainChar c = true) :
    Declares ((Item.nameArray name values).pieces.flatMap String.toList)
      [.strings name (.number n) values] := by
  subst length
  have type : Lexer.start.run "static const char* const ".toList =
      some (.start, [.word "static", .word "const", .word "char", .mark '*', .word "const"]) := by decide
  have listed := Spells.after run_begin (spells_namePieces nonempty plain spells_end)
  have read := Spells.after type
    (.word isWord rfl (.after run_bracket (.word (isWord_toString values.length) rfl listed)))
  refine declares_of_statement
    (.word "static" :: .word "const" :: .word "char" :: .mark '*' :: .word "const" :: .word name ::
      .mark '[' :: numeral values.length :: .mark ']' :: .mark '=' :: .mark '\x7b' ::
        (separated .quoted values ++ [.mark '\x7d']))
    (.mark ';') ?_ ?_ rfl ?_
  · simp only [Item.pieces, List.flatMap_cons, List.flatMap_append, List.flatMap_nil, List.append_nil,
      String.toList_append, List.append_assoc, List.cons_append, List.nil_append] at read ⊢
    exact read
  · have texts := @ends_separated _ Symbol.quoted (fun _ => rfl) values
    simp only [List.forall_mem_cons, List.forall_mem_append]
    exact ⟨rfl, rfl, rfl, rfl, rfl, rfl, rfl, rfl, rfl, rfl, rfl, texts, rfl,
      List.forall_mem_nil _⟩
  · simp only [List.cons_append, List.append_assoc, definition?_strings, strings?, numeral,
      extent?_toString]
    simp [@values?_separated _ Symbol.quoted text? (fun _ => rfl) _ nonempty]

end Items

/-! ## Files -/

theorem toList_fileText (items : List Item) :
    (fileText items).toList = items.flatMap fun item => item.pieces.flatMap String.toList := by
  rw [fileText, String.toList_join, List.flatMap_assoc]

theorem fileText_append (items more : List Item) :
    fileText (items ++ more) = fileText items ++ fileText more :=
  String.toList_inj.1 (by simp [toList_fileText])

theorem declares_noItems : Declares (fileText []).toList [] := declares_nothing rfl

theorem Declares.item {item : Item} {items : List Item} {d : Definition} {ds : List Definition}
    (first : Declares (item.pieces.flatMap String.toList) [d])
    (others : Declares (fileText items).toList ds) :
    Declares (fileText (item :: items)).toList (d :: ds) := by
  rw [toList_fileText] at others ⊢
  exact first.append others

theorem Declares.blank {items : List Item} {ds : List Definition}
    (others : Declares (fileText items).toList ds) :
    Declares (fileText (.blank :: items)).toList ds := by
  rw [toList_fileText] at others ⊢
  exact declares_blank.append others

/-- An item that only some files have. -/
theorem Declares.itemIf {present : Bool} {item : Item} {items : List Item} {d : Definition}
    {ds : List Definition} (first : Declares (item.pieces.flatMap String.toList) [d])
    (others : Declares (fileText items).toList ds) :
    Declares (fileText ((if present then [item, .blank] else []) ++ items)).toList
      ((if present then [d] else []) ++ ds) := by
  cases present with
  | true => exact .item first (.blank others)
  | false => exact others

end ScannerGen.Code
