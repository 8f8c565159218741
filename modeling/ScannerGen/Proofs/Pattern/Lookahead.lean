import ScannerGen.Proofs.Pattern.Parsing

/-!
# What a lexeme depends on

A lexeme is read without knowing what follows it, except that a run of digits in an escape goes on as
long as it can.  So the text behind a lexeme can be exchanged for any other that does not begin with
a digit that was not there before.

* `NoNewDigit` — when one text may take the place of another behind a lexeme.
* `Reframes` — a rule that holds of a text still holds when what follows is exchanged.
* `Cuts` — the lexemes at the front of a text; `Cuts.reframe` exchanges the text behind them.
-/

namespace ScannerGen.Pattern

/-! ## Exchanging what follows -/

/-- A text begins with a hexadecimal digit only if another one begins with the same. -/
def NoNewDigit (rest rest' : List UInt8) : Prop :=
  ∀ b ∈ rest'.head?, Ascii.isHexDigit b = true → b ∈ rest.head?

theorem noNewDigit_of_head {rest rest' : List UInt8} (same : rest.head? = rest'.head?) :
    NoNewDigit rest rest' := by
  intro b first _
  rw [same]
  exact first

theorem noNewDigit_cons {b : UInt8} (differs : Ascii.isHexDigit b = false) (rest text : List UInt8) :
    NoNewDigit rest (b :: text) := by
  intro c first digit
  obtain rfl := Option.some.inj first
  rw [differs] at digit
  cases digit

theorem noNewDigit_append {w : List UInt8} (some_bytes : w ≠ []) (rest rest' : List UInt8) :
    NoNewDigit (w ++ rest) (w ++ rest') := by
  obtain ⟨b, w, rfl⟩ := List.exists_cons_of_ne_nil some_bytes
  exact noNewDigit_of_head rfl

/-- A rule that holds of a text and its rest holds as well with another rest. -/
def Reframes (rule : List UInt8 → List UInt8 → Prop) (text rest : List UInt8) : Prop :=
  ∃ w, w ≠ [] ∧ text = w ++ rest ∧ ∀ rest', NoNewDigit rest rest' → rule (w ++ rest') rest'

namespace Reframes

variable {rule rule' : List UInt8 → List UInt8 → Prop} {text more rest : List UInt8}

/-- A rule about the first byte and the text behind it. -/
theorem cons (b : UInt8) (frames : Reframes rule text rest)
    (holds : ∀ text rest, rule text rest → rule' (b :: text) rest) :
    Reframes rule' (b :: text) rest := by
  obtain ⟨w, _, rfl, exchange⟩ := frames
  exact ⟨b :: w, List.cons_ne_nil b w, rfl, fun rest' allowed => holds _ _ (exchange rest' allowed)⟩

/-- A rule made of one for the front of the text and one for the text behind it. -/
theorem trans {rule₁ rule₂ : List UInt8 → List UInt8 → Prop} (first : Reframes rule₁ text more)
    (second : Reframes rule₂ more rest)
    (holds : ∀ text more rest, rule₁ text more → rule₂ more rest → rule text rest) :
    Reframes rule text rest := by
  obtain ⟨w, some_bytes, rfl, exchange⟩ := first
  obtain ⟨v, some_more, rfl, exchangeMore⟩ := second
  refine ⟨w ++ v, List.append_ne_nil_of_left_ne_nil some_bytes v, (List.append_assoc w v rest).symm,
    fun rest' allowed => ?_⟩
  rw [List.append_assoc]
  exact holds _ _ _ (exchange _ (noNewDigit_append some_more rest rest')) (exchangeMore rest' allowed)

end Reframes

theorem reframes_byte {rule : List UInt8 → List UInt8 → Prop} {b : UInt8} {rest : List UInt8}
    (holds : ∀ rest', rule (b :: rest') rest') : Reframes rule (b :: rest) rest :=
  ⟨[b], List.cons_ne_nil b [], rfl, fun rest' _ => holds rest'⟩

/-! ## Escapes and literals -/

theorem isHexDigit_of_isOctalDigit {b : UInt8} (octal : Ascii.isOctalDigit b = true) :
    Ascii.isHexDigit b = true := by
  simp only [Ascii.isOctalDigit, Bool.and_eq_true, decide_eq_true_eq] at octal
  have digit : b ≤ 0x39 := UInt8.le_trans octal.2 (by decide)
  simp [Ascii.isHexDigit, Ascii.isDigit, octal.1, digit]

/-- A run of digits ends where it did. -/
theorem DigitRun.reframe {isDigit : UInt8 → Bool} {limit : Nat} {digits rest rest' : List UInt8}
    (hex : ∀ b, isDigit b = true → Ascii.isHexDigit b = true)
    (run : DigitRun isDigit limit digits rest) (allowed : NoNewDigit rest rest') :
    DigitRun isDigit limit digits rest' where
  nonempty := run.nonempty
  all := run.all
  length_le := run.length_le
  whole := by
    refine run.whole.imp id fun stops b first => Bool.eq_false_of_not_eq_true fun digit => ?_
    rw [stops b (allowed b first (hex b digit))] at digit
    cases digit

theorem Escape.reframes {text rest : List UInt8} {b : UInt8} (escape : Escape text rest b) :
    Reframes (fun text rest => Escape text rest b) text rest := by
  cases escape with
  | letter listed => exact reframes_byte fun _ => .letter listed
  | @hexadecimal digits _ run =>
    refine ⟨Ascii.letterX :: digits, List.cons_ne_nil _ _, rfl, fun rest' allowed => ?_⟩
    exact .hexadecimal (run.reframe (fun _ => id) allowed)
  | @octal digits _ run fits =>
    refine ⟨digits, run.nonempty, rfl, fun rest' allowed => ?_⟩
    exact .octal (run.reframe (fun _ => isHexDigit_of_isOctalDigit) allowed) fits
  | plain unlisted notHex notOctal => exact reframes_byte fun _ => .plain unlisted notHex notOctal

theorem Literal.reframes {text rest bytes : List UInt8} (quoted : Literal text rest bytes) :
    Reframes (fun text rest => Literal text rest bytes) text rest := by
  induction quoted with
  | close => exact reframes_byte fun _ => .close
  | escaped escape _ ih =>
    have both := escape.reframes.trans ih fun _ _ _ first second => Literal.escaped first second
    exact both.cons _ fun _ _ => id
  | byte notQuote notBackslash _ ih =>
    exact ih.cons _ fun _ _ others => .byte notQuote notBackslash others

/-! ## Classes -/

theorem ClassByte.reframes {text rest : List UInt8} {b : UInt8} (member : ClassByte text rest b) :
    Reframes (fun text rest => ClassByte text rest b) text rest := by
  cases member with
  | escaped escape => exact escape.reframes.cons _ fun _ _ => .escaped
  | plain notBackslash narrow => exact reframes_byte fun _ => .plain notBackslash narrow

/-- Whether a minus sign makes a range is told by the two bytes at the front. -/
theorem rangeAhead_append {w rest rest' : List UInt8} (some_bytes : w ≠ [])
    (notMinus : w ≠ [Ascii.minus]) (ahead : RangeAhead (w ++ rest')) : RangeAhead (w ++ rest) := by
  obtain ⟨b, tail, same, notLast⟩ := ahead
  match w with
  | [] => exact absurd rfl some_bytes
  | [c] =>
    obtain rfl := (List.cons.inj same).1
    exact absurd rfl notMinus
  | c :: d :: w =>
    obtain ⟨rfl, others⟩ := List.cons.inj same
    obtain ⟨rfl, _⟩ := List.cons.inj others
    exact ⟨d, w ++ rest, rfl, notLast⟩

theorem append_ne_singleton {w v : List UInt8} (some_bytes : w ≠ []) (some_more : v ≠ [])
    (b : UInt8) : w ++ v ≠ [b] := by
  intro same
  have length := congrArg List.length same
  have := List.length_pos_iff.2 some_bytes
  have := List.length_pos_iff.2 some_more
  rw [List.length_append, List.length_singleton] at length
  omega

theorem head?_append_of_ne_nil {w : List UInt8} (some_bytes : w ≠ []) (rest rest' : List UInt8) :
    (w ++ rest).head? = (w ++ rest').head? := by
  obtain ⟨b, w, rfl⟩ := List.exists_cons_of_ne_nil some_bytes
  rfl

/-- The members of a class end with its bracket, so what is behind it is not looked at. -/
theorem ClassItems.reframes {first : Bool} {text rest : List UInt8} {items : List (UInt8 × UInt8)}
    (members : ClassItems first text rest items) :
    ∃ w, w ≠ [] ∧ w ≠ [Ascii.minus] ∧ text = w ++ rest ∧
      ∀ rest', ClassItems first (w ++ rest') rest' items := by
  induction members with
  | close => exact ⟨[Ascii.closeBracket], by decide, by decide, rfl, fun _ => .close⟩
  | @single first text more rest b items goesOn member alone _ ih =>
    obtain ⟨w, some_bytes, rfl, exchange⟩ := member.reframes
    obtain ⟨v, some_more, notMinus, rfl, exchangeMore⟩ := ih
    refine ⟨w ++ v, List.append_ne_nil_of_left_ne_nil some_bytes v, ?_,
      (List.append_assoc w v rest).symm, fun rest' => ?_⟩
    · exact append_ne_singleton some_bytes some_more Ascii.minus
    · rw [List.append_assoc]
      rw [head?_append_of_ne_nil some_bytes _ (v ++ rest')] at goesOn
      exact .single goesOn (exchange _ (noNewDigit_append some_more rest rest'))
        (mt (rangeAhead_append some_more notMinus) alone) (exchangeMore rest')
  | @range first text more after rest lo hi items goesOn low notLast high ordered _ ih =>
    obtain ⟨w, some_bytes, rfl, exchange⟩ := low.reframes
    obtain ⟨u, some_high, rfl, exchangeHigh⟩ := high.reframes
    obtain ⟨v, some_more, notMinus, rfl, exchangeMore⟩ := ih
    refine ⟨w ++ Ascii.minus :: (u ++ v), List.append_ne_nil_of_left_ne_nil some_bytes _, ?_, ?_,
      fun rest' => ?_⟩
    · exact append_ne_singleton some_bytes (List.cons_ne_nil _ _) Ascii.minus
    · simp
    · have same : Ascii.minus :: (u ++ v ++ rest') = Ascii.minus :: (u ++ (v ++ rest')) := by simp
      rw [List.append_assoc, List.cons_append, same]
      rw [head?_append_of_ne_nil some_bytes _ (Ascii.minus :: (u ++ (v ++ rest')))] at goesOn
      rw [head?_append_of_ne_nil some_high _ (v ++ rest')] at notLast
      exact .range goesOn (exchange _ (noNewDigit_of_head rfl)) notLast
        (exchangeHigh _ (noNewDigit_append some_more rest rest')) ordered (exchangeMore rest')

theorem ClassText.reframes {text rest : List UInt8} {bytes : ByteSet}
    (members : ClassText text rest bytes) :
    Reframes (fun text rest => ClassText text rest bytes) text rest := by
  cases members with
  | listed unmarked members denotes inhabited =>
    obtain ⟨w, some_bytes, _, rfl, exchange⟩ := members.reframes
    refine ⟨w, some_bytes, rfl, fun rest' _ => ?_⟩
    rw [head?_append_of_ne_nil some_bytes _ rest'] at unmarked
    exact .listed unmarked (exchange rest') denotes inhabited
  | negated members denotes inhabited =>
    obtain ⟨w, some_bytes, _, rfl, exchange⟩ := members.reframes
    exact ⟨Ascii.caret :: w, List.cons_ne_nil _ _, rfl,
      fun rest' _ => .negated (exchange rest') denotes inhabited⟩

/-! ## Counts and lexemes -/

theorem CountText.reframes {text rest : List UInt8} {min : Nat} {max : Option Nat}
    (bounds : CountText text rest min max) :
    Reframes (fun text rest => CountText text rest min max) text rest := by
  cases bounds with
  | @exactly digits _ _ count =>
    refine ⟨digits ++ [Ascii.closeBrace], by simp, by simp, fun rest' _ => ?_⟩
    simpa using @CountText.exactly _ rest' _ count
  | @atLeast digits _ _ count =>
    refine ⟨digits ++ [Ascii.comma, Ascii.closeBrace], by simp, by simp, fun rest' _ => ?_⟩
    simpa using @CountText.atLeast _ rest' _ count
  | @between lower upper _ _ _ least most ordered =>
    refine ⟨lower ++ Ascii.comma :: (upper ++ [Ascii.closeBrace]), by simp, by simp,
      fun rest' _ => ?_⟩
    simpa using @CountText.between _ _ rest' _ _ least most ordered

theorem countAhead_name_iff (name : String) (rest rest' : List UInt8) :
    CountAhead (Ascii.openBrace :: (utf8 name ++ Ascii.closeBrace :: rest)) ↔
      CountAhead (Ascii.openBrace :: (utf8 name ++ Ascii.closeBrace :: rest')) := by
  rw [countAhead_cons, countAhead_cons]
  cases utf8 name <;> exact Iff.rfl

theorem Lexed.reframes {after : Bool} {text rest : List UInt8} {l : Lexeme}
    (lexed : Lexed after text rest l) :
    Reframes (fun text rest => Lexed after text rest l) text rest := by
  cases lexed with
  | opening => exact reframes_byte fun _ => .opening
  | closing => exact reframes_byte fun _ => .closing
  | bar => exact reframes_byte fun _ => .bar
  | dot => exact reframes_byte fun _ => .dot
  | star => exact reframes_byte fun _ => .star
  | plus => exact reframes_byte fun _ => .plus
  | question => exact reframes_byte fun _ => .question
  | charClass members => exact members.reframes.cons _ fun _ _ => .charClass
  | literal quoted => exact quoted.reframes.cons _ fun _ _ => .literal
  | escaped escape => exact escape.reframes.cons _ fun _ _ => .escaped
  | count bounds => exact bounds.reframes.cons _ fun _ _ => .count
  | @reference _ _ name isName noCount =>
    refine ⟨Ascii.openBrace :: (utf8 name ++ [Ascii.closeBrace]), List.cons_ne_nil _ _, by simp,
      fun rest' _ => ?_⟩
    have moved := @Lexed.reference after rest' name isName fun behind =>
      mt (countAhead_name_iff name rest' rest).1 (noCount behind)
    simpa using moved
  | byte ordinary => exact reframes_byte fun _ => .byte ordinary

/-! ## Lexemes at the front of a text -/

/-- Lexemes at the front of a text, up to a rest.  Of each text it is known whether it stands behind
an operand. -/
inductive Cuts : Bool → List UInt8 → List Lexeme → Bool → List UInt8 → Prop
  | nil {after : Bool} {text : List UInt8} : Cuts after text [] after text
  | cons {after after' : Bool} {text more rest : List UInt8} {l : Lexeme} {ls : List Lexeme}
    (first : Lexed after text more l) (others : Cuts l.endsOperand more ls after' rest) :
    Cuts after text (l :: ls) after' rest

/-- The text behind some lexemes can be exchanged. -/
theorem Cuts.reframe {after after' : Bool} {text rest : List UInt8} {ls : List Lexeme}
    (cuts : Cuts after text ls after' rest) :
    ∃ w, text = w ++ rest ∧
      ∀ rest', NoNewDigit rest rest' → Cuts after (w ++ rest') ls after' rest' := by
  induction cuts with
  | nil => exact ⟨[], rfl, fun _ _ => .nil⟩
  | @cons after after' text more rest l ls first others ih =>
    obtain ⟨w, _, rfl, exchange⟩ := first.reframes
    obtain ⟨v, rfl, exchangeMore⟩ := ih
    refine ⟨w ++ v, (List.append_assoc w v rest).symm, fun rest' allowed => ?_⟩
    rw [List.append_assoc]
    refine .cons (exchange _ ?_) (exchangeMore rest' allowed)
    match v with
    | [] => exact allowed
    | b :: v => exact noNewDigit_append (List.cons_ne_nil b v) rest rest'

/-- Lexemes at the front of a text are the first of all its lexemes. -/
theorem Cuts.lexemes_eq {after after' : Bool} {text rest : List UInt8} {ls : List Lexeme}
    (cuts : Cuts after text ls after' rest) :
    ∃ placed, lexemes after text = placed ++ lexemes after' rest ∧
      placed.map Placed.lexeme = ls := by
  induction cuts with
  | nil => exact ⟨[], rfl, rfl⟩
  | @cons after after' text more rest l ls first _ ih =>
    obtain ⟨placed, all, same⟩ := ih
    obtain ⟨b, tail, rfl⟩ := List.exists_cons_of_ne_nil first.ne_nil
    exact ⟨⟨l, b :: tail⟩ :: placed, by rw [lexemes_of_lexed first, all, List.cons_append],
      by rw [List.map_cons, same]⟩

/-- Where no fault comes before a place, lexemes lead up to it. -/
theorem exists_cuts {after : Bool} {text : List UInt8} {before later : List Placed}
    (all : lexemes after text = before ++ later)
    (faultless : ∀ p ∈ before, ∀ fault, p.lexeme ≠ .fault fault) :
    ∃ after' rest, Cuts after text (before.map Placed.lexeme) after' rest ∧
      lexemes after' rest = later := by
  induction before generalizing after text with
  | nil => exact ⟨after, text, .nil, all⟩
  | cons p before ih =>
    obtain ⟨head, tail⟩ := List.forall_mem_cons.1 faultless
    cases text with
    | nil =>
      rw [lexemes] at all
      cases all
    | cons b text =>
      cases read : lexeme after b text with
      | error located =>
        have only : lexemes after (b :: text) = [⟨.fault located.fault, located.suffix⟩] := by
          rw [lexemes]
          split <;> simp_all
        rw [only] at all
        obtain ⟨rfl, _⟩ := List.cons.inj all
        exact absurd rfl (head located.fault)
      | ok result =>
        obtain ⟨l, more⟩ := result
        have lexed := lexeme_iff.1 read
        rw [lexemes_of_lexed lexed] at all
        obtain ⟨rfl, others⟩ := List.cons.inj all
        obtain ⟨after', rest, cuts, ends⟩ := ih others tail
        exact ⟨after', rest, .cons lexed cuts, ends⟩

end ScannerGen.Pattern
