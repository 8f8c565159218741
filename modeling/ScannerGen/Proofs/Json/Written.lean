import Mathlib.Data.List.Forall2
import ScannerGen.Json.Record
import ScannerGen.Proofs.Text.Decimal
import ScannerGen.Proofs.Text.Utf8

/-!
# Reading what is written

A value that is written without blanks is read back by the reader of its type, whatever text goes on
behind it with a comma or a closing bracket or brace.

* `Reads` — a reader reads a text as a value, and needs no more than the next byte to know its end.
* `Reads.natural`, `Reads.boolean`, `Reads.listOf` — numbers, truth values and lists.
* `Shape.Fills`, `Shape.Fills.reads` — an object with the fields of a record, one after the other.
* `Reads.document` — a value that is a whole document.
-/

namespace ScannerGen.Json

/-- What may follow a value: nothing, or what separates or ends values. -/
def Delimited (rest : List UInt8) : Prop :=
  ∀ b ∈ rest.head?, b = Ascii.comma ∨ b = Ascii.closeBracket ∨ b = Ascii.closeBrace

theorem delimited_nil : Delimited [] := fun _ none => nomatch none

theorem delimited_cons {b : UInt8} {rest : List UInt8}
    (separates : b = Ascii.comma ∨ b = Ascii.closeBracket ∨ b = Ascii.closeBrace) :
    Delimited (b :: rest) := by
  intro c first
  rwa [← Option.some.inj first]

/-- A text is read as a value in front of anything that may follow a value.  It begins like a value:
with no blank, and with no bracket that would close a list. -/
structure Reads {α : Type} (read : Reader α) (written : List UInt8) (value : α) : Prop where
  begins : ∃ b more, written = b :: more ∧ isBlank b = false ∧ b ≠ Ascii.closeBracket
  reads : ∀ rest, Delimited rest → read (written ++ rest) = .ok (value, rest)

theorem skipBlanks_cons {b : UInt8} {rest : List UInt8} (visible : isBlank b = false) :
    skipBlanks (b :: rest) = b :: rest := by
  rw [skipBlanks, List.dropWhile_cons_of_neg (by simp [visible])]

/-! ## Numbers -/

theorem le_foldl_digits (digits : List UInt8) (value : Nat) :
    value ≤ digits.foldl (fun value b => value * 10 + Ascii.digitValue b) value := by
  induction digits generalizing value with
  | nil => exact Nat.le_refl value
  | cons b digits ih =>
    have grown : value ≤ value * 10 + Ascii.digitValue b := by omega
    exact Nat.le_trans grown (ih _)

/-- All digits are taken if their number stays within the limit. -/
theorem takeDigits_append {limit value count : Nat} {digits rest : List UInt8}
    (all : ∀ b ∈ digits, Ascii.isDigit b = true)
    (fits : digits.foldl (fun value b => value * 10 + Ascii.digitValue b) value ≤ limit)
    (stops : beginsWithDigit rest = false) :
    takeDigits limit value count (digits ++ rest) =
      (digits.foldl (fun value b => value * 10 + Ascii.digitValue b) value, count + digits.length,
        rest) := by
  induction digits generalizing value count with
  | nil =>
    cases rest with
    | nil => rfl
    | cons b rest =>
      have notDigit : Ascii.isDigit b = false := by simpa [beginsWithDigit] using stops
      simp [takeDigits, notDigit]
  | cons b digits ih =>
    obtain ⟨digit, others⟩ := List.forall_mem_cons.1 all
    have within : ¬ limit < value * 10 + Ascii.digitValue b :=
      Nat.not_lt.2 (Nat.le_trans (le_foldl_digits digits _) fits)
    rw [List.cons_append, takeDigits, if_pos digit, if_neg within, ih others fits, List.foldl_cons,
      List.length_cons, Nat.add_assoc, Nat.add_comm 1]

theorem Delimited.notDigit {rest : List UInt8} (delimited : Delimited rest) :
    beginsWithDigit rest = false := by
  cases rest with
  | nil => rfl
  | cons b rest => rcases delimited b rfl with rfl | rfl | rfl <;> rfl

/-- An integer ends where a delimiter stands. -/
theorem afterInteger_delimited {digits : Nat} {rest : List UInt8} (delimited : Delimited rest) :
    afterInteger false digits 0 true rest = .ok (.natural digits, rest) := by
  cases rest with
  | nil => rfl
  | cons b rest => rcases delimited b rfl with rfl | rfl | rfl <;> rfl

/-- A digit is no sign, no blank and no bracket. -/
theorem visible_of_isDigit {b : UInt8} (digit : Ascii.isDigit b = true) :
    b ≠ Ascii.minus ∧ isBlank b = false ∧ b ≠ Ascii.closeBracket := by
  have differs : ∀ c, Ascii.isDigit c = false → b ≠ c := by
    rintro c other rfl
    exact Bool.noConfusion (digit.symm.trans other)
  refine ⟨differs _ rfl, ?_, differs _ rfl⟩
  simp [isBlank, differs Ascii.space rfl, differs Ascii.newline rfl, differs Ascii.tab rfl,
    differs Ascii.carriageReturn rfl]

theorem number_toString {n : Nat} {rest : List UInt8} (bound : n ≤ maxNatural)
    (delimited : Delimited rest) : number (utf8 (toString n) ++ rest) = .ok (.natural n, rest) := by
  obtain ⟨b, digits, written, zeroAlone⟩ := exists_head_toString n
  have all := @isDigit_of_mem_utf8_toString n
  have value := numeral_utf8_toString n
  rw [written] at all value ⊢
  obtain ⟨digit, others⟩ := List.forall_mem_cons.1 all
  have notMinus := (visible_of_isDigit digit).1
  rw [number, if_neg (by simpa using notMinus), List.cons_append, unsignedNumber]
  by_cases zero : b = Ascii.zero
  · -- A zero is not followed by further digits.
    obtain ⟨rfl, rfl⟩ := zeroAlone zero
    rw [List.nil_append, if_pos zero, delimited.notDigit]
    exact afterInteger_delimited delimited
  · rw [Ascii.numeral, List.foldl_cons, Nat.zero_mul, Nat.zero_add] at value
    have taken := @takeDigits_append maxNatural _ 1 _ rest others (by rwa [value]) delimited.notDigit
    have nothing : rest.takeWhile Ascii.isDigit = [] := by
      cases rest with
      | nil => rfl
      | cons c rest =>
        have notDigit : Ascii.isDigit c = false := by simpa [beginsWithDigit] using delimited.notDigit
        exact List.takeWhile_cons_of_neg (by simp [notDigit])
    simp only [if_neg zero, digit, if_true, taken, value, nothing]
    exact afterInteger_delimited delimited

theorem Reads.natural {type : String} {limit n : Nat} (bound : n ≤ limit) (word : limit ≤ maxNatural) :
    Reads (natural type limit) (utf8 (toString n)) n := by
  obtain ⟨b, digits, written, _⟩ := exists_head_toString n
  have digit : Ascii.isDigit b = true :=
    isDigit_of_mem_utf8_toString b (by rw [written]; exact List.mem_cons_self)
  obtain ⟨_, visible, notClosing⟩ := visible_of_isDigit digit
  refine ⟨⟨b, digits, written, visible, notClosing⟩, fun rest delimited => ?_⟩
  have read := number_toString (Nat.le_trans bound word) delimited
  rw [written, List.cons_append] at read ⊢
  have begins : beginsWithNumber (b :: (digits ++ rest)) = true := by
    simp [beginsWithNumber, beginsWithDigit, digit]
  simp only [Json.natural, skipBlanks_cons visible, List.cons_ne_nil, if_false, begins, if_true, read]
  show (if n ≤ limit then _ else _) = _
  rw [if_pos bound]

theorem Reads.boolean (flag : Bool) : Reads boolean (utf8 (if flag then "true" else "false")) flag := by
  cases flag with
  | true => exact ⟨⟨_, _, rfl, by decide, by decide⟩, fun rest _ => rfl⟩
  | false => exact ⟨⟨_, _, rfl, by decide, by decide⟩, fun rest _ => rfl⟩

/-! ## Lists -/

/-- What follows an element: the others behind commas, and the closing byte. -/
def following (close : UInt8) : List (List UInt8) → List UInt8
  | [] => [close]
  | text :: texts => Ascii.comma :: (text ++ following close texts)

/-- What follows an opening byte: texts with commas between them, and the closing byte. -/
def enclosed (close : UInt8) : List (List UInt8) → List UInt8
  | [] => [close]
  | text :: texts => text ++ following close texts

theorem utf8_intercalate_append (close : UInt8) (texts : List String) :
    utf8 (",".intercalate texts) ++ [close] = enclosed close (texts.map utf8) := by
  cases texts with
  | nil => rfl
  | cons text texts =>
    induction texts generalizing text with
    | nil => rfl
    | cons next texts ih =>
      rw [String.intercalate_cons_cons, utf8_append, utf8_append, List.append_assoc, ih next]
      simp only [List.map_cons, enclosed, following, List.append_assoc]
      rfl

/-- The text of a list, from the texts of its elements. -/
def listText (texts : List (List UInt8)) : List UInt8 :=
  Ascii.openBracket :: enclosed Ascii.closeBracket texts

theorem delimited_following {close : UInt8}
    (closes : close = Ascii.closeBracket ∨ close = Ascii.closeBrace) (texts : List (List UInt8))
    (rest : List UInt8) : Delimited (following close texts ++ rest) := by
  cases texts with
  | nil => exact delimited_cons (.inr closes)
  | cons text texts => exact delimited_cons (.inl rfl)

theorem length_lt_following (close : UInt8) (texts : List (List UInt8)) :
    texts.length < (following close texts).length := by
  induction texts with
  | nil => exact Nat.one_pos
  | cons text texts ih =>
    rw [following, List.length_cons, List.length_cons, List.length_append]
    omega

/-- There are at least as many bytes as texts, so the bytes are fuel enough for reading the texts. -/
theorem length_le_enclosed (close : UInt8) (texts : List (List UInt8)) :
    texts.length ≤ (enclosed close texts).length := by
  cases texts with
  | nil => exact Nat.zero_le _
  | cons text texts =>
    have bound := length_lt_following close texts
    rw [enclosed, List.length_append, List.length_cons]
    omega

section Elements

variable {α : Type} {read : Reader α} {text : List UInt8} {value : α}

theorem Reads.nextElement_first (reads : Reads read text value) (rest : List UInt8) :
    nextElement true (text ++ rest) = .ok (some (text ++ rest)) := by
  obtain ⟨b, more, rfl, visible, notClosing⟩ := reads.begins
  simp only [nextElement, List.cons_append, skipBlanks_cons visible, if_neg notClosing, if_true]

theorem Reads.nextElement_comma (reads : Reads read text value) (rest : List UInt8) :
    nextElement false (Ascii.comma :: (text ++ rest)) = .ok (some (text ++ rest)) := by
  obtain ⟨b, more, rfl, visible, notClosing⟩ := reads.begins
  have comma : isBlank Ascii.comma = false := rfl
  have differs : ¬ Ascii.comma = Ascii.closeBracket := by decide
  simp only [nextElement, List.cons_append, skipBlanks_cons comma, skipBlanks_cons visible,
    if_neg notClosing, if_neg differs, Bool.false_eq_true, if_false, if_true]

variable {texts : List (List UInt8)} {values : List α}

theorem Reads.elements_cons (reads : Reads read text value) {fuel : Nat} {first : Bool}
    {start rest last : List UInt8} (next : nextElement first start = .ok (some (text ++ rest)))
    (delimited : Delimited rest) (others : elements read fuel false rest = .ok (values, last)) :
    elements read (fuel + 1) first start = .ok (value :: values, last) := by
  rw [elements, next]
  show (read (text ++ rest) >>= _) = _
  rw [reads.reads rest delimited]
  show (elements read fuel false rest >>= _) = _
  rw [others]
  rfl

theorem elements_following (each : List.Forall₂ (Reads read) texts values) {fuel : Nat}
    (enough : texts.length < fuel) (rest : List UInt8) :
    elements read fuel false (following Ascii.closeBracket texts ++ rest) =
      .ok (values, Ascii.closeBracket :: rest) := by
  induction each generalizing fuel with
  | nil =>
    cases fuel with
    | zero => exact absurd enough (Nat.not_lt_zero _)
    | succ fuel => rfl
  | @cons text value texts values reads _ ih =>
    cases fuel with
    | zero => exact absurd enough (Nat.not_lt_zero _)
    | succ fuel =>
      refine reads.elements_cons ?_ (delimited_following (.inl rfl) texts rest)
        (ih (Nat.lt_of_succ_lt_succ enough))
      rw [following, List.cons_append, List.append_assoc]
      exact reads.nextElement_comma _

theorem elements_enclosed (each : List.Forall₂ (Reads read) texts values) {fuel : Nat}
    (enough : texts.length ≤ fuel) (rest : List UInt8) :
    elements read (fuel + 1) true (enclosed Ascii.closeBracket texts ++ rest) =
      .ok (values, Ascii.closeBracket :: rest) := by
  cases each with
  | nil => rfl
  | @cons text value texts values reads others =>
    refine reads.elements_cons ?_ (delimited_following (.inl rfl) texts rest)
      (elements_following others enough rest)
    rw [enclosed, List.append_assoc]
    exact reads.nextElement_first _

end Elements

theorem Reads.listOf {α : Type} {item : Nat → Reader α} {texts : List (List UInt8)} {values : List α}
    {remaining : Nat} (levels : 1 < remaining)
    (each : List.Forall₂ (Reads (item (remaining - 1))) texts values) :
    Reads (listOf remaining item) (listText texts) values := by
  refine ⟨⟨_, _, rfl, by decide, by decide⟩, fun rest _ => ?_⟩
  have visible : isBlank Ascii.openBracket = false := rfl
  have enough : texts.length ≤ (enclosed Ascii.closeBracket texts ++ rest).length := by
    have bound := length_le_enclosed Ascii.closeBracket texts
    rw [List.length_append]
    omega
  simp only [Json.listOf, listText, List.cons_append, skipBlanks_cons visible, if_true, entered,
    if_neg (Nat.not_le_of_lt levels), elements_enclosed each enough rest]
  rfl

/-! ## Objects -/

/-- Names that are written as they are. -/
def IsPlain (name : String) : Prop :=
  ∀ b ∈ utf8 name, ¬ b < 0x20 ∧ b < 0x80 ∧ b ≠ Ascii.quote ∧ b ≠ Ascii.backslash

instance (name : String) : Decidable (IsPlain name) :=
  List.decidableBAll _ (utf8 name)

theorem stringBytes_plain {bytes : List UInt8} (rest : List UInt8)
    (plain : ∀ b ∈ bytes, ¬ b < 0x20 ∧ b ≠ Ascii.quote ∧ b ≠ Ascii.backslash) :
    stringBytes (bytes ++ Ascii.quote :: rest) = .ok (bytes, rest) := by
  induction bytes with
  | nil =>
    rw [List.nil_append, stringBytes]
    exact if_pos rfl
  | cons b bytes ih =>
    obtain ⟨⟨printable, notQuote, notBackslash⟩, others⟩ := List.forall_mem_cons.1 plain
    rw [List.cons_append, stringBytes, if_neg notQuote, if_neg notBackslash, if_neg printable,
      ih others]
    rfl

theorem string_plain {name : String} (plain : IsPlain name) (rest : List UInt8) :
    string (utf8 name ++ Ascii.quote :: rest) = .ok (name, rest) := by
  have narrow : ∀ b ∈ utf8 name, b < 0x80 := fun b member => (plain b member).2.1
  rw [string, stringBytes_plain rest fun b member =>
    ⟨(plain b member).1, (plain b member).2.2.1, (plain b member).2.2.2⟩]
  simp only [decode?_of_narrow narrow, asciiText_utf8 narrow]

/-- The text of an entry of an object, from the name and the text of the value. -/
def entryText (entry : String × List UInt8) : List UInt8 :=
  Ascii.quote :: (utf8 entry.1 ++ Ascii.quote :: Ascii.colon :: entry.2)

/-- The text of an object, from its entries. -/
def objectText (entries : List (String × List UInt8)) : List UInt8 :=
  Ascii.openBrace :: enclosed Ascii.closeBrace (entries.map entryText)

namespace Shape

variable {σ : Type}

/-- Entries fill a record: each one names a field that has not been read before, and its text is read
into the state by the reader of the field; nothing that is required is missing in the end. -/
inductive Fills (shape : Shape σ) (remaining : Nat) :
    List String → σ → List (String × List UInt8) → σ → Prop
  | done {seen : List String} {state : σ} (complete : shape.missing? seen = none) :
      Fills shape remaining seen state [] state
  | entry {seen : List String} {state state' final : σ} {name : String} {field : Field σ}
      {text : List UInt8} {entries : List (String × List UInt8)} (plain : IsPlain name)
      (known : (shape.fields.find? fun field => field.name == name) = some field)
      (fresh : seen.contains name = false) (reads : Reads (field.read remaining state) text state')
      (others : Fills shape remaining (name :: seen) state' entries final) :
      Fills shape remaining seen state ((name, text) :: entries) final

variable {shape : Shape σ} {remaining : Nat}

theorem objectFields_entry {seen : List String} {state state' : σ} {name : String} {field : Field σ}
    {text start rest : List UInt8} {first : Bool} {fuel : Nat} (plain : IsPlain name)
    (known : (shape.fields.find? fun field => field.name == name) = some field)
    (fresh : seen.contains name = false) (reads : Reads (field.read remaining state) text state')
    (next : nextKey first start =
      .ok (some (utf8 name ++ Ascii.quote :: Ascii.colon :: (text ++ rest))))
    (delimited : Delimited rest) :
    shape.objectFields remaining (fuel + 1) first seen state start =
      shape.objectFields remaining fuel false (name :: seen) state' rest := by
  have key := string_plain plain (Ascii.colon :: (text ++ rest))
  have colon : Json.colon (Ascii.colon :: (text ++ rest)) = .ok (text ++ rest) := rfl
  have value := reads.reads rest delimited
  simp only [objectFields, next, inside, Except.mapError, key, known, fresh, Bool.false_eq_true,
    if_false, colon, value, bind, Except.bind]

theorem Fills.objectFields {seen : List String} {state final : σ}
    {entries : List (String × List UInt8)} (fills : shape.Fills remaining seen state entries final)
    {fuel : Nat} (enough : entries.length < fuel) (rest : List UInt8) :
    shape.objectFields remaining fuel false seen state
        (following Ascii.closeBrace (entries.map entryText) ++ rest) =
      .ok (final, Ascii.closeBrace :: rest) := by
  induction fills generalizing fuel with
  | @done seen state complete =>
    cases fuel with
    | zero => exact absurd enough (Nat.not_lt_zero _)
    | succ fuel =>
      have ended : nextKey false (Ascii.closeBrace :: rest) = .ok none := rfl
      simp only [Shape.objectFields, List.map_nil, following, List.singleton_append, ended, inside,
        Except.mapError, complete, bind, Except.bind]
  | @entry seen state state' final name field text entries plain known fresh reads _ ih =>
    cases fuel with
    | zero => exact absurd enough (Nat.not_lt_zero _)
    | succ fuel =>
      have delimited := delimited_following (.inr rfl) (entries.map entryText) rest
      rw [objectFields_entry plain known fresh reads ?_ delimited]
      · exact ih (Nat.lt_of_succ_lt_succ enough)
      · simp only [List.map_cons, following, entryText, List.cons_append, List.append_assoc]
        rfl

/-- The first entry stands behind the brace, the others behind commas. -/
theorem Fills.objectFields_first {initial final : σ} {entries : List (String × List UInt8)}
    (fills : shape.Fills remaining [] initial entries final) {fuel : Nat}
    (enough : entries.length ≤ fuel) (rest : List UInt8) :
    shape.objectFields remaining (fuel + 1) true [] initial
        (enclosed Ascii.closeBrace (entries.map entryText) ++ rest) =
      .ok (final, Ascii.closeBrace :: rest) := by
  cases fills with
  | done complete => exact (Fills.done complete).objectFields (Nat.succ_pos fuel) rest
  | @entry _ _ state' _ name field text entries plain known fresh reads others =>
    have delimited := delimited_following (.inr rfl) (entries.map entryText) rest
    rw [objectFields_entry plain known fresh reads ?_ delimited]
    · exact others.objectFields enough rest
    · simp only [List.map_cons, enclosed, entryText, List.cons_append, List.append_assoc]
      rfl

theorem Fills.reads {initial final : σ} {entries : List (String × List UInt8)}
    (levels : 1 < remaining) (fills : shape.Fills (remaining - 1) [] initial entries final) :
    Reads (shape.read initial remaining) (objectText entries) final := by
  refine ⟨⟨_, _, rfl, by decide, by decide⟩, fun rest _ => ?_⟩
  have visible : isBlank Ascii.openBrace = false := rfl
  have notList : ¬ Ascii.openBrace = Ascii.openBracket := by decide
  have enough : entries.length ≤
      (enclosed Ascii.closeBrace (entries.map entryText) ++ rest).length := by
    have bound := length_le_enclosed Ascii.closeBrace (entries.map entryText)
    rw [List.length_map] at bound
    rw [List.length_append]
    omega
  simp only [Shape.read, objectText, List.cons_append, skipBlanks_cons visible, if_neg notList,
    if_true, entered, if_neg (Nat.not_le_of_lt levels), fills.objectFields_first enough rest]
  rfl

end Shape

/-! ## Documents -/

theorem Reads.document {α : Type} {read : Reader α} {text : List UInt8} {value : α}
    (reads : Reads read text value) : document read text = .ok value := by
  have whole := reads.reads [] delimited_nil
  rw [List.append_nil] at whole
  rw [Json.document, whole]
  rfl

end ScannerGen.Json
