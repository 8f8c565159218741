import ScannerGen.Proofs.Scan.Lexemes
import ScannerGen.Proofs.Text.Utf8
import ScannerGen.Proofs.Text.Words

/-!
# Reports of jams

Where nothing matches, the report gives a range of bytes around the position and shows the text of it.  The
text has one character for each byte, and that of a byte that is not visible is a middle dot.  The end of the
range is reckoned from the length of that text in UTF-8, where a dot is two bytes long, so every dot puts it
one byte too far.

* `Jam.Shows` — what character stands for a byte.
* `Jam.report`, `Jam.report_inj` — the text of a report, from which its range and its text can be read.
* `ContextRight` — what a range and a text have to satisfy to be right.
* `Tables.contextRight_iff` — when those of a report are.
-/

namespace ScannerGen

/-! ## Bytes as they are shown -/

/-- A byte that is shown as the character that it is in ASCII. -/
def Jam.IsVisible (b : UInt8) : Prop :=
  0x20 ≤ b ∧ b ≤ 0x7e ∨ b = Ascii.newline ∨ b = Ascii.tab ∨ b = Ascii.carriageReturn

instance (b : UInt8) : Decidable (Jam.IsVisible b) :=
  inferInstanceAs (Decidable (_ ∨ _))

/-- A character stands for a byte. -/
inductive Jam.Shows : Char → UInt8 → Prop
  | visible {b : UInt8} (visible : Jam.IsVisible b) : Shows (Char.ofNat b.toNat) b
  | hidden {b : UInt8} (hidden : ¬ Jam.IsVisible b) : Shows '\u00b7' b

/-- A range of bytes around a position and a text are right: the range is within the input and has the
position in it, and the text shows the bytes of the range, one character for each. -/
structure ContextRight (input : List UInt8) (position start stop : Nat) (shown : String) : Prop where
  start_le : start ≤ position
  lt_stop : position < stop
  stop_le : stop ≤ input.length
  shows : List.Forall₂ Jam.Shows shown.toList ((input.take stop).drop start)

namespace Jam

theorem shownByte_eq (b : UInt8) :
    shownByte b = if IsVisible b then Char.ofNat b.toNat else '\u00b7' := by
  rw [shownByte]
  apply if_congr _ rfl rfl
  simp [IsVisible, or_assoc]

theorem shows_shownByte (b : UInt8) : Shows (shownByte b) b := by
  rw [shownByte_eq]
  split
  · next visible => exact .visible visible
  · next hidden => exact .hidden hidden

/-- The middle dot takes two bytes in UTF-8, all else that is shown is ASCII. -/
theorem utf8Size_shownByte (b : UInt8) :
    (shownByte b).utf8Size = 1 + if IsVisible b then 0 else 1 := by
  rw [shownByte_eq]
  split
  · next visible =>
    have narrow : b < 0x80 := by
      rcases visible with ⟨_, most⟩ | rfl | rfl | rfl
      · exact UInt8.lt_of_le_of_lt most (by decide)
      · decide
      · decide
      · decide
    rw [← String.length_utf8EncodeChar, utf8EncodeChar_of_narrow narrow, List.length_singleton]
  · rfl

theorem utf8ByteSize_ofList_shown (bytes : List UInt8) :
    (String.ofList (bytes.map shownByte)).utf8ByteSize =
      bytes.length + bytes.countP fun b => !decide (IsVisible b) := by
  induction bytes with
  | nil => rfl
  | cons b bytes ih =>
    rw [List.map_cons, String.ofList_cons, String.utf8ByteSize_append, String.utf8ByteSize_singleton, ih,
      utf8Size_shownByte, List.length_cons, List.countP_cons]
    by_cases visible : IsVisible b
    · simp [visible]
      omega
    · simp [visible]
      omega

/-! ## The text of a report -/

/-- What a report says of the position. -/
def place (jam : Jam) (input : List UInt8) : String :=
  let b := input.getD jam.position 0
  s!"no rule matches at byte {jam.position} (line {jam.line}, " ++
    s!"char {charLiteral (Char.ofNat b.toNat)}, 0x{hexByte b}); "

/-- The report that gives a range and shows a text. -/
def report (jam : Jam) (input : List UInt8) (start stop : Nat) (shown : String) : String :=
  jam.place input ++ s!"context [{start}..{stop}):\n{shown}"

theorem message_eq (jam : Jam) (input : List UInt8) :
    jam.message input = jam.report input jam.contextStart
      (jam.contextStart + (jam.context input).utf8ByteSize) (jam.context input) := rfl

/-- The range and the text can be read from a report. -/
theorem report_inj {jam : Jam} {input : List UInt8} {start start' stop stop' : Nat} {shown shown' : String}
    (same : jam.report input start stop shown = jam.report input start' stop' shown') :
    start = start' ∧ stop = stop' ∧ shown = shown' := by
  have chars := congrArg String.toList same
  simp only [report, String.toList_append, List.append_assoc, List.append_cancel_left_eq] at chars
  obtain ⟨rfl, afterStart⟩ := numeral_append_inj (ends_append (by decide) _) (ends_append (by decide) _) chars
  obtain ⟨rfl, afterStop⟩ := numeral_append_inj (ends_append (by decide) _) (ends_append (by decide) _)
    (List.append_cancel_left afterStart)
  exact ⟨rfl, rfl, String.toList_inj.1 (List.append_cancel_left afterStop)⟩

/-! ## The range of a report -/

/-- Where the shown bytes end. -/
def contextStop (jam : Jam) (input : List UInt8) : Nat := min (jam.position + reach) input.length

/-- The bytes that are shown. -/
def window (jam : Jam) (input : List UInt8) : List UInt8 :=
  (input.take (jam.contextStop input)).drop jam.contextStart

variable {jam : Jam} {input : List UInt8}

theorem context_eq : jam.context input = String.ofList ((jam.window input).map shownByte) := by
  rw [context, window, contextStop, ← List.take_take, List.take_length]

theorem length_window : (jam.window input).length = jam.contextStop input - jam.contextStart := by
  simp [window, contextStop]

theorem contextStart_le_contextStop (inside : jam.position < input.length) :
    jam.contextStart ≤ jam.contextStop input := by
  rw [contextStart, contextStop]
  omega

/-- The end that is reported is too far by the number of the dots. -/
theorem reportedStop_eq (inside : jam.position < input.length) :
    jam.contextStart + (jam.context input).utf8ByteSize =
      jam.contextStop input + (jam.window input).countP fun b => !decide (IsVisible b) := by
  -- Adding the length of the range to its start gives its stop only if the start is not behind it.
  have order := contextStart_le_contextStop inside
  rw [context_eq, utf8ByteSize_ofList_shown, length_window]
  omega

/-- What is shown is the text of a range that has the position in it. -/
theorem contextRight_context (inside : jam.position < input.length) :
    ContextRight input jam.position jam.contextStart (jam.contextStop input) (jam.context input) where
  start_le := Nat.sub_le _ _
  lt_stop := by
    rw [contextStop, reach]
    omega
  stop_le := Nat.min_le_right _ _
  shows := by
    rw [context_eq, String.toList_ofList, List.forall₂_map_left_iff]
    exact List.forall₂_same.2 fun b _ => shows_shownByte b

end Jam

/-- A right range is as long as the text that is shown. -/
theorem ContextRight.length_shown {input : List UInt8} {position start stop : Nat} {shown : String}
    (right : ContextRight input position start stop shown) : shown.toList.length = stop - start := by
  have length := right.shows.length_eq
  have bound := right.stop_le
  simp only [List.length_drop, List.length_take] at length
  omega

namespace Tables

/-- The report of a scan that got stuck gives one range of bytes and one text.  The range begins 16 bytes in
front of the position, or with the input, and the text shows, one character for each byte, what stands from
there up to 16 bytes behind the position, or to the end of the input.  The end that is given is that end and
the number of dots in the text; so the range is right exactly if no byte is shown as a dot. -/
theorem contextRight_iff {t : Tables} {input : List UInt8} {jam : Jam} (jammed : t.scan input = .error jam) :
    (∃ start stop shown, jam.message input = jam.report input start stop shown) ∧
    ∀ start stop shown, jam.message input = jam.report input start stop shown →
      start = jam.position - 16 ∧
      stop = min (jam.position + 16) input.length +
        (jam.window input).countP (fun b => !decide (Jam.IsVisible b)) ∧
      ContextRight input jam.position start (min (jam.position + 16) input.length) shown ∧
      (ContextRight input jam.position start stop shown ↔ ∀ b ∈ jam.window input, Jam.IsVisible b) := by
  obtain ⟨_, inside, _⟩ := stuck_of_scanFrom_eq_error .refl jammed
  refine ⟨⟨_, _, _, jam.message_eq input⟩, ?_⟩
  intro start stop shown same
  rw [jam.message_eq] at same
  obtain ⟨rfl, rfl, rfl⟩ := Jam.report_inj same
  have shownRight := Jam.contextRight_context inside
  refine ⟨rfl, Jam.reportedStop_eq inside, shownRight, ?_⟩
  rw [Jam.reportedStop_eq inside]
  constructor
  · intro right
    -- Both ranges have the length of the text, and they begin at one place.
    have lengths := right.length_shown.symm.trans shownRight.length_shown
    have order := Jam.contextStart_le_contextStop inside
    have noDots : (jam.window input).countP (fun b => !decide (Jam.IsVisible b)) = 0 := by omega
    simpa using noDots
  · intro visible
    have noDots : (jam.window input).countP (fun b => !decide (Jam.IsVisible b)) = 0 := by
      simpa using visible
    rw [noDots]
    exact shownRight

/-- Tables of a scanner for the letter a. -/
def onlyLetter : Tables :=
  ⟨(Vector.replicate 256 0).set 0x61 1, 2, #[#[0, 0], #[0, 2], #[0, 0]], #[none, none, some 0], 1, 0, #[false]⟩

/-- Behind a letter the scanner gets stuck at a byte that is shown as a dot, and the end that is reported for
the three bytes is four. -/
theorem contextRight_iff_dot :
    onlyLetter.scan [0x61, 0x80, 0x62] = .error ⟨1, 1⟩ ∧
      (⟨1, 1⟩ : Jam).message [0x61, 0x80, 0x62] =
        "no rule matches at byte 1 (line 1, char '\\u\x7b80\x7d', 0x80); context [0..4):\na\u00b7b" ∧
      ContextRight [0x61, 0x80, 0x62] 1 0 3 "a\u00b7b" ∧
      ¬ ContextRight [0x61, 0x80, 0x62] 1 0 4 "a\u00b7b" := by
  have jammed : onlyLetter.scan [0x61, 0x80, 0x62] = .error ⟨1, 1⟩ := by
    have stuck : onlyLetter.scanFrom 1 1 [0x80, 0x62] = .error ⟨1, 1⟩ := by
      rw [scanFrom_eq]
      rfl
    rw [scan, scanFrom_eq]
    exact congrArg (Except.map _) stuck
  have said : (⟨1, 1⟩ : Jam).message [0x61, 0x80, 0x62] =
      (⟨1, 1⟩ : Jam).report [0x61, 0x80, 0x62] 0 4 "a\u00b7b" := by
    decide +kernel
  obtain ⟨_, read⟩ := contextRight_iff jammed
  obtain ⟨_, _, right, wrong⟩ := read 0 4 "a\u00b7b" said
  exact ⟨jammed, by decide +kernel, right, mt wrong.1 (by decide +kernel)⟩

/-- An input of one byte is reported as a range of two bytes. -/
theorem context_pastTheEnd :
    onlyLetter.scan [0x80] = .error ⟨0, 1⟩ ∧
      (⟨0, 1⟩ : Jam).message [0x80] = (⟨0, 1⟩ : Jam).report [0x80] 0 2 "\u00b7" ∧
      ¬ ContextRight [0x80] 0 0 2 "\u00b7" := by
  have jammed : onlyLetter.scan [0x80] = .error ⟨0, 1⟩ := by
    rw [scan, scanFrom_eq]
    rfl
  exact ⟨jammed, rfl, fun right => absurd right.stop_le (by decide)⟩

end Tables

end ScannerGen
