import ScannerGen.Proofs.Pattern.Grammar
import ScannerGen.Proofs.Text.Utf8

/-!
# Readers and rules

Each reader below the lexemes accepts what its rule derives, with the same rest and the same value.

* `escape_iff`, `literalBytes_iff`, `classSet_iff`, `referenceName_iff`, `countBounds_iff` — one
  statement for each reader.
* `leading_append` — a run of digits that could not be longer is read to its end.
-/

namespace ScannerGen.Pattern

/-! ## Runs of digits -/

section Runs

variable {isDigit : UInt8 → Bool}

theorem leading_nil (count : Nat) : leading isDigit count [] = [] := by
  rw [leading, List.take_nil, List.takeWhile_nil]

theorem leading_cons_succ (count : Nat) (b : UInt8) (text : List UInt8) :
    leading isDigit (count + 1) (b :: text) =
      if isDigit b then b :: leading isDigit count text else [] := by
  rw [leading, List.take_succ_cons, List.takeWhile_cons]
  rfl

/-- The digits that are read are digits, no more than asked for, and as many as there are. -/
theorem leading_spec (isDigit : UInt8 → Bool) (count : Nat) (text : List UInt8) :
    leading isDigit count text ++ text.drop (leading isDigit count text).length = text ∧
      (∀ d ∈ leading isDigit count text, isDigit d = true) ∧
      (leading isDigit count text).length ≤ count ∧
      ((leading isDigit count text).length = count ∨
        Stops isDigit (text.drop (leading isDigit count text).length)) := by
  induction text generalizing count with
  | nil =>
    rw [leading_nil]
    exact ⟨rfl, fun _ absent => absurd absent List.not_mem_nil, Nat.zero_le _,
      .inr fun _ absent => absurd absent (Option.not_mem_none _)⟩
  | cons b text ih =>
    cases count with
    | zero => exact ⟨rfl, fun _ absent => absurd absent List.not_mem_nil, Nat.le_refl _, .inl rfl⟩
    | succ count =>
      rw [leading_cons_succ]
      by_cases digit : isDigit b = true
      · obtain ⟨joined, all, most, whole⟩ := ih count
        rw [if_pos digit]
        refine ⟨congrArg (b :: ·) joined, List.forall_mem_cons.2 ⟨digit, all⟩,
          Nat.succ_le_succ most, ?_⟩
        exact whole.imp (congrArg (· + 1)) id
      · rw [if_neg digit]
        refine ⟨rfl, fun _ absent => absurd absent List.not_mem_nil, Nat.zero_le _, .inr ?_⟩
        intro c first
        obtain rfl := Option.some.inj first
        exact Bool.eq_false_of_not_eq_true digit

/-- A run that could not be longer is read to its end. -/
theorem leading_append {count : Nat} {digits rest : List UInt8}
    (all : ∀ d ∈ digits, isDigit d = true) (most : digits.length ≤ count)
    (whole : digits.length = count ∨ Stops isDigit rest) :
    leading isDigit count (digits ++ rest) = digits := by
  induction digits generalizing count with
  | nil =>
    cases count with
    | zero => rfl
    | succ count =>
      cases rest with
      | nil => exact leading_nil _
      | cons b rest =>
        rcases whole with absurdly | stops
        · cases absurdly
        · rw [List.nil_append, leading_cons_succ, if_neg]
          rw [stops b rfl]
          exact Bool.false_ne_true
  | cons d digits ih =>
    obtain ⟨first, others⟩ := List.forall_mem_cons.1 all
    cases count with
    | zero => cases most
    | succ count =>
      rw [List.cons_append, leading_cons_succ, if_pos first,
        ih others (Nat.le_of_succ_le_succ most) (whole.imp_left Nat.succ.inj)]

end Runs

/-! ## Escapes -/

theorem lookup_eq_some_iff_mem {κ α : Type} [BEq κ] [LawfulBEq κ] {entries : List (κ × α)}
    (distinct : (entries.map Prod.fst).Nodup) {k : κ} {x : α} :
    entries.lookup k = some x ↔ (k, x) ∈ entries := by
  induction entries with
  | nil => simp
  | cons entry entries ih =>
    obtain ⟨key, value⟩ := entry
    rw [List.map_cons, List.nodup_cons] at distinct
    rw [List.lookup_cons, List.mem_cons, Prod.mk.injEq]
    by_cases same : k = key
    · subst same
      have absent : (k, x) ∉ entries := fun member =>
        distinct.1 (List.mem_map.2 ⟨(k, x), member, rfl⟩)
      simp [absent, eq_comm]
    · rw [beq_eq_false_iff_ne.2 same]
      simp [same, ih distinct.2]

theorem lookup_letterEscapes {b control : UInt8} :
    letterEscapes.lookup b = some control ↔ (b, control) ∈ letterEscapes :=
  lookup_eq_some_iff_mem (by decide)

theorem lookup_letterEscapes_eq_none {b : UInt8} :
    letterEscapes.lookup b = none ↔ ∀ control, (b, control) ∉ letterEscapes := by
  rw [Option.eq_none_iff_forall_ne_some]
  exact forall_congr' fun control => not_congr lookup_letterEscapes

theorem lookup_of_isOctalDigit {b : UInt8} (octal : Ascii.isOctalDigit b = true) :
    letterEscapes.lookup b = none ∧ b ≠ Ascii.letterX := by
  constructor
  · rw [lookup_letterEscapes_eq_none]
    intro control listed
    simp only [letterEscapes, List.mem_cons, Prod.mk.injEq, List.not_mem_nil, or_false] at listed
    rcases listed with ⟨rfl, _⟩ | ⟨rfl, _⟩ | ⟨rfl, _⟩ | ⟨rfl, _⟩ | ⟨rfl, _⟩ | ⟨rfl, _⟩ | ⟨rfl, _⟩ <;>
      exact absurd octal (by decide)
  · rintro rfl
    exact absurd octal (by decide)

theorem escape_iff {text rest : List UInt8} {b : UInt8} :
    escape text = .ok (b, rest) ↔ Escape text rest b := by
  constructor
  · intro read
    cases text with
    | nil => cases read
    | cons c text =>
      rw [escape] at read
      split at read
      · next control known =>
        cases read
        exact .letter (lookup_letterEscapes.1 known)
      · next unknown =>
        split at read
        · -- The digits that are read are a run behind the letter.
          next hex =>
          subst hex
          obtain ⟨joined, all, most, whole⟩ := leading_spec Ascii.isHexDigit 2 text
          dsimp only at read
          split at read
          · cases read
          · next some_digits =>
            cases read
            have derived := @Escape.hexadecimal _ (text.drop _)
              ⟨mt List.isEmpty_iff.2 some_digits, all, most, whole⟩
            rwa [joined] at derived
        · next notHex =>
          split at read
          · -- The byte itself is the first digit of the run.
            next octal =>
            obtain ⟨joined, all, most, whole⟩ := leading_spec Ascii.isOctalDigit 2 text
            dsimp only at read
            split at read
            · cases read
            · next fits =>
              cases read
              have derived := @Escape.octal _ (text.drop _)
                ⟨List.cons_ne_nil c _, List.forall_mem_cons.2 ⟨octal, all⟩, Nat.succ_le_succ most,
                  whole.imp_left (congrArg (· + 1))⟩ (Nat.le_of_not_lt fits)
              rwa [List.cons_append, joined] at derived
          · next notOctal =>
            cases read
            exact .plain (lookup_letterEscapes_eq_none.1 unknown) notHex
              (Bool.eq_false_of_not_eq_true notOctal)
  · intro derived
    cases derived with
    | letter listed =>
      rw [escape, lookup_letterEscapes.2 listed]
    | @hexadecimal digits _ run =>
      have unknown : letterEscapes.lookup Ascii.letterX = none := by decide
      have some_digits : digits.isEmpty = false := by
        rw [List.isEmpty_eq_false_iff]
        exact run.nonempty
      simp only [escape, unknown, leading_append run.all run.length_le run.whole, some_digits,
        List.drop_left, if_true, Bool.false_eq_true, if_false]
    | @octal digits _ run fits =>
      obtain ⟨nonempty, all, most, whole⟩ := run
      cases digits with
      | nil => exact absurd rfl nonempty
      | cons d digits =>
        obtain ⟨first, others⟩ := List.forall_mem_cons.1 all
        obtain ⟨unknown, notHex⟩ := lookup_of_isOctalDigit first
        have read := leading_append others (Nat.le_of_succ_le_succ most)
          (whole.imp_left Nat.succ.inj)
        simp only [List.cons_append, escape, unknown, notHex, first, read, List.drop_left, if_true,
          if_false, if_neg (Nat.not_lt_of_le fits)]
    | plain unlisted notHex notOctal =>
      rw [escape, lookup_letterEscapes_eq_none.2 unlisted]
      simp only [notHex, notOctal, if_false, Bool.false_eq_true]

/-! ## Literals -/

theorem literalBytes_iff {text rest bytes : List UInt8} :
    literalBytes text = .ok (bytes, rest) ↔ Literal text rest bytes := by
  constructor
  · intro read
    fun_induction literalBytes text generalizing bytes rest with
    | case1 => cases read
    | case2 =>
      cases read
      exact .close
    | case3 => cases read
    | case4 => cases read
    | case5 text c more escaped bytes' after others _ ih =>
      cases read
      exact .escaped (escape_iff.1 escaped) (ih others)
    | case6 => cases read
    | case7 b text notQuote notBackslash bytes' after others ih =>
      cases read
      exact .byte notQuote notBackslash (ih others)
  · intro derived
    induction derived with
    | close => rw [literalBytes, if_pos rfl]
    | @escaped text more rest bytes b escaped _ ih =>
      have read := escape_iff.2 escaped
      rw [literalBytes, if_neg (by decide), if_pos rfl]
      split
      · next failed =>
        rw [read] at failed
        cases failed
      · next succeeded =>
        rw [read] at succeeded
        cases succeeded
        rw [ih]
    | byte notQuote notBackslash _ ih =>
      rw [literalBytes, if_neg notQuote, if_neg notBackslash, ih]

/-! ## Classes -/

theorem classByte_iff {text rest : List UInt8} {b : UInt8} :
    classByte text = .ok (b, rest) ↔ ClassByte text rest b := by
  constructor
  · intro read
    cases text with
    | nil => cases read
    | cons c text =>
      rw [classByte] at read
      split at read
      · next backslash =>
        subst backslash
        split at read
        · cases read
        · next result escaped =>
          cases read
          exact .escaped (escape_iff.1 escaped)
      · next notBackslash =>
        split at read
        · cases read
        · next narrow =>
          cases read
          exact .plain notBackslash (Bool.eq_false_of_not_eq_true narrow)
  · intro derived
    cases derived with
    | escaped escaped => rw [classByte, if_pos rfl, escape_iff.2 escaped]
    | plain notBackslash narrow =>
      rw [classByte, if_neg notBackslash, narrow, if_neg Bool.false_ne_true]

theorem rangeEnd?_eq_some {text bound : List UInt8} :
    rangeEnd? text = some bound ↔
      text = Ascii.minus :: bound ∧ bound ≠ [] ∧ bound.head? ≠ some Ascii.closeBracket := by
  rw [rangeEnd?]
  cases text with
  | nil => simp
  | cons b text =>
    simp only [List.head?_cons, List.tail_cons, Option.some.injEq, Option.ite_none_right_eq_some,
      List.cons.injEq]
    constructor
    · rintro ⟨⟨rfl, some_bound, notLast⟩, rfl⟩
      exact ⟨⟨rfl, rfl⟩, some_bound, notLast⟩
    · rintro ⟨⟨rfl, rfl⟩, some_bound, notLast⟩
      exact ⟨⟨rfl, some_bound, notLast⟩, rfl⟩

theorem rangeEnd?_eq_none {text : List UInt8} : rangeEnd? text = none ↔ ¬ RangeAhead text := by
  rw [Option.eq_none_iff_forall_ne_some, RangeAhead, ← not_exists, not_iff_not]
  constructor
  · rintro ⟨bound, found⟩
    obtain ⟨rfl, some_bound, notLast⟩ := rangeEnd?_eq_some.1 found
    obtain ⟨b, rest, rfl⟩ := List.exists_cons_of_ne_nil some_bound
    exact ⟨b, rest, rfl, fun same => notLast (congrArg some same)⟩
  · rintro ⟨b, rest, rfl, notLast⟩
    exact ⟨b :: rest, rangeEnd?_eq_some.2
      ⟨rfl, List.cons_ne_nil b rest, fun same => notLast (Option.some.inj same)⟩⟩

theorem inRanges_cons (lo hi : UInt8) (items : List (UInt8 × UInt8)) (b : UInt8) :
    inRanges ((lo, hi) :: items) b = ((decide (lo ≤ b) && decide (b ≤ hi)) || inRanges items b) := by
  rw [inRanges, List.any_cons, inRanges]

theorem contains_insert_eq (members : ByteSet) (c b : UInt8) :
    (members.insert c).contains b = (members.contains b || (decide (c ≤ b) && decide (b ≤ c))) := by
  rw [ByteSet.contains_insert, Bool.eq_iff_iff]
  simp only [Bool.or_eq_true, beq_iff_eq, Bool.and_eq_true, decide_eq_true_eq]
  exact or_congr_right ⟨fun same => same ▸ ⟨UInt8.le_refl _, UInt8.le_refl _⟩,
    fun both => UInt8.le_antisymm both.1 both.2⟩

theorem goesOn_iff {text : List UInt8} {first : Bool} :
    ¬ (text.head? = some Ascii.closeBracket ∧ first = false) ↔
      first = true ∨ text.head? ≠ some Ascii.closeBracket := by
  rw [Decidable.not_and_iff_not_or_not, Bool.not_eq_false, or_comm]

theorem ClassByte.ne_nil {text rest : List UInt8} {b : UInt8} (member : ClassByte text rest b) :
    text ≠ [] := by
  cases member <;> exact List.cons_ne_nil _ _

/-- The first member is read, then what follows it tells whether it begins a range. -/
theorem classMembers_of_classByte {whole text more : List UInt8} {first : Bool} {members : ByteSet}
    {lo : UInt8} (goesOn : first = true ∨ text.head? ≠ some Ascii.closeBracket)
    (low : ClassByte text more lo) :
    classMembers whole first members text =
      match rangeEnd? more with
      | none => classMembers whole false (members.insert lo) more
      | some bound =>
        match classByte bound with
        | .error located => .error located
        | .ok (hi, after) =>
          if hi < lo then .error ⟨.reversedRange lo hi, text⟩
          else classMembers whole false (members.union (.range lo hi)) after := by
  have read := classByte_iff.2 low
  rw [classMembers, if_neg (goesOn_iff.2 goesOn), if_neg low.ne_nil]
  split
  · next failed =>
    rw [read] at failed
    cases failed
  · next succeeded =>
    rw [read] at succeeded
    cases succeeded
    split
    · next noRange => rw [noRange]
    · next range =>
      rw [range]
      split
      · next failed => simp only [failed]
      · next succeeded => simp only [succeeded]

/-- The members that are read are those of the items, added to what was there. -/
theorem classMembers_iff {whole text rest : List UInt8} {first : Bool} {members result : ByteSet} :
    classMembers whole first members text = .ok (result, rest) ↔
      ∃ items, ClassItems first text rest items ∧
        ∀ b, result.contains b = (members.contains b || inRanges items b) := by
  constructor
  · intro read
    fun_induction classMembers whole first members text generalizing result rest with
    | case1 first members text closed =>
      -- A bracket that is not the first member closes the class.
      cases read
      obtain ⟨bracket, rfl⟩ := closed
      obtain ⟨text, rfl⟩ := List.head?_eq_some_iff.1 bracket
      exact ⟨[], .close, fun b => (Bool.or_false _).symm⟩
    | case2 => cases read
    | case3 => cases read
    | case4 first members text goesOn _ lo more low noRange ih =>
      obtain ⟨items, others, denotes⟩ := ih read
      refine ⟨(lo, lo) :: items, .single (goesOn_iff.1 goesOn) (classByte_iff.1 low)
        (rangeEnd?_eq_none.1 noRange) others, fun b => ?_⟩
      rw [denotes, inRanges_cons, contains_insert_eq, Bool.or_assoc]
    | case5 => cases read
    | case6 => cases read
    | case7 first members text goesOn _ lo more low bound range hi after high ordered ih =>
      obtain ⟨items, others, denotes⟩ := ih read
      obtain ⟨rfl, _, notLast⟩ := rangeEnd?_eq_some.1 range
      refine ⟨(lo, hi) :: items, .range (goesOn_iff.1 goesOn) (classByte_iff.1 low) notLast
        (classByte_iff.1 high) (UInt8.not_lt.1 ordered) others, fun b => ?_⟩
      rw [denotes, inRanges_cons, ByteSet.contains_union, ByteSet.contains_range, Bool.or_assoc]
  · rintro ⟨items, derived, denotes⟩
    induction derived generalizing members with
    | close =>
      have same : members = result := ByteSet.ext fun b => by
        rw [denotes, inRanges, List.any_nil, Bool.or_false]
      rw [classMembers, if_pos ⟨rfl, rfl⟩, same, List.tail_cons]
    | single goesOn member alone _ ih =>
      rw [classMembers_of_classByte goesOn member, rangeEnd?_eq_none.2 alone]
      apply ih
      intro b
      rw [denotes, inRanges_cons, contains_insert_eq, Bool.or_assoc]
    | range goesOn member notLast bound ordered _ ih =>
      rw [classMembers_of_classByte goesOn member,
        rangeEnd?_eq_some.2 ⟨rfl, bound.ne_nil, notLast⟩]
      simp only [classByte_iff.2 bound, if_neg (UInt8.not_lt.2 ordered)]
      apply ih
      intro b
      rw [denotes, inRanges_cons, ByteSet.contains_union, ByteSet.contains_range, Bool.or_assoc]

theorem isEmpty_eq_false_iff {bytes : ByteSet} :
    ¬ bytes.isEmpty = true ↔ ∃ b, bytes.contains b = true := by
  constructor
  · intro inhabited
    by_contra none
    have same : bytes = .empty := ByteSet.ext fun b => by
      rw [ByteSet.contains_empty]
      exact Bool.eq_false_of_not_eq_true fun member => none ⟨b, member⟩
    exact inhabited (by rw [same]; rfl)
  · rintro ⟨b, member⟩ empty
    have same : bytes = .empty := by
      obtain ⟨bits⟩ := bytes
      exact congrArg ByteSet.mk (eq_of_beq empty)
    rw [same, ByteSet.contains_empty] at member
    cases member

theorem classSet_iff {whole text rest : List UInt8} {bytes : ByteSet} :
    classSet whole text = .ok (bytes, rest) ↔ ClassText text rest bytes := by
  constructor
  · intro read
    rw [classSet] at read
    split at read
    · cases read
    · next members more found =>
      obtain ⟨items, derived, denotes⟩ := classMembers_iff.1 found
      by_cases caret : text.head? = some Ascii.caret
      · obtain ⟨text, rfl⟩ := List.head?_eq_some_iff.1 caret
        simp only [List.head?_cons, if_true] at read
        split at read
        · cases read
        · next inhabited =>
          cases read
          refine .negated derived (fun b => ?_) (isEmpty_eq_false_iff.1 inhabited)
          rw [ByteSet.contains_compl, denotes, ByteSet.contains_empty, Bool.false_or]
      · simp only [if_neg caret] at read
        split at read
        · cases read
        · next inhabited =>
          cases read
          rw [afterCaret, if_neg caret] at derived
          refine .listed caret derived (fun b => ?_) (isEmpty_eq_false_iff.1 inhabited)
          rw [denotes, ByteSet.contains_empty, Bool.false_or]
  · intro derived
    cases derived with
    | @listed _ _ items _ unmarked derived denotes inhabited =>
      have read : classMembers whole true .empty (afterCaret text) = .ok (bytes, rest) := by
        rw [afterCaret, if_neg unmarked]
        refine classMembers_iff.2 ⟨items, derived, fun b => ?_⟩
        rw [denotes, ByteSet.contains_empty, Bool.false_or]
      rw [classSet, read]
      simp only [if_neg unmarked, if_neg (isEmpty_eq_false_iff.2 inhabited)]
    | @negated text _ items _ derived denotes inhabited =>
      -- The members are the complement of what the class denotes.
      have read : classMembers whole true .empty (afterCaret (Ascii.caret :: text)) =
          .ok (bytes.compl, rest) := by
        refine classMembers_iff.2 ⟨items, derived, fun b => ?_⟩
        rw [ByteSet.contains_compl, denotes, Bool.not_not, ByteSet.contains_empty, Bool.false_or]
      have twice : bytes.compl.compl = bytes := ByteSet.ext fun b => by
        rw [ByteSet.contains_compl, ByteSet.contains_compl, Bool.not_not]
      rw [classSet, read]
      simp only [List.head?_cons, if_true, twice, if_neg (isEmpty_eq_false_iff.2 inhabited)]

/-! ## Names -/

theorem narrow_of_isNameByte {b : UInt8} (named : Ascii.isNameByte b = true) : b < 0x80 := by
  simp only [Ascii.isNameByte, Ascii.isLetter, Ascii.isDigit, Bool.or_eq_true, Bool.and_eq_true,
    decide_eq_true_eq, beq_iff_eq, UInt8.le_iff_toNat_le] at named
  rw [UInt8.lt_iff_toNat_lt]
  rcases named with ((⟨_, bound⟩ | ⟨_, bound⟩) | ⟨_, bound⟩) | rfl
  · exact Nat.lt_of_le_of_lt bound (by decide)
  · exact Nat.lt_of_le_of_lt bound (by decide)
  · exact Nat.lt_of_le_of_lt bound (by decide)
  · decide

theorem referenceName_iff {text rest : List UInt8} {name : String} :
    referenceName text = .ok (name, rest) ↔
      IsName name ∧ text = utf8 name ++ Ascii.closeBrace :: rest := by
  constructor
  · intro read
    rw [referenceName] at read
    split at read
    · cases read
    · next brace more dropped =>
      -- The name is what stands before the first closing brace.
      have stop := List.head?_dropWhile_not (· != Ascii.closeBrace) text
      have joined := List.takeWhile_append_dropWhile (p := (· != Ascii.closeBrace)) (l := text)
      rw [dropped] at stop joined
      generalize text.takeWhile (· != Ascii.closeBrace) = bytes at read joined
      dsimp only at read
      split at read
      · cases read
      · next valid =>
        cases read
        rw [Bool.or_eq_true, not_or, Bool.not_eq_true', Bool.not_eq_false, List.all_eq_true,
          List.isEmpty_iff] at valid
        obtain ⟨some_bytes, named⟩ := valid
        have narrow : ∀ b ∈ bytes, b < 0x80 := fun b member => narrow_of_isNameByte (named b member)
        have written := utf8_asciiText narrow
        rw [decode?_of_narrow narrow, Option.getD_some, IsName, written]
        refine ⟨⟨?_, named⟩, ?_⟩
        · intro empty
          rw [empty] at written
          exact some_bytes written.symm
        · rw [← joined]
          congr 2
          simpa using stop
  · rintro ⟨⟨some_name, named⟩, rfl⟩
    have narrow : ∀ b ∈ utf8 name, b < 0x80 := fun b member => narrow_of_isNameByte (named b member)
    have goesOn : ∀ b ∈ utf8 name, (b != Ascii.closeBrace) = true := by
      intro b member
      rw [bne_iff_ne]
      rintro rfl
      exact absurd (named _ member) (by decide)
    have some_bytes : utf8 name ≠ [] := by
      intro empty
      have same := asciiText_utf8 narrow
      rw [empty] at same
      exact some_name same.symm
    have stop : (Ascii.closeBrace :: rest).dropWhile (· != Ascii.closeBrace) =
        Ascii.closeBrace :: rest := List.dropWhile_cons_of_neg (by simp)
    have take : (Ascii.closeBrace :: rest).takeWhile (· != Ascii.closeBrace) = [] :=
      List.takeWhile_cons_of_neg (by simp)
    have valid : ¬ ((utf8 name).isEmpty || !(utf8 name).all Ascii.isNameByte) = true := by
      rw [Bool.or_eq_true, not_or, Bool.not_eq_true', Bool.not_eq_false, List.all_eq_true,
        List.isEmpty_iff]
      exact ⟨some_bytes, named⟩
    rw [referenceName, List.dropWhile_append_of_pos goesOn, stop]
    simp only [List.takeWhile_append_of_pos goesOn, take, List.append_nil, if_neg valid,
      decode?_of_narrow narrow, asciiText_utf8 narrow, Option.getD_some]

/-! ## Counts -/

theorem countNumber_iff {text rest : List UInt8} {n : Nat} :
    countNumber text = .ok (n, rest) ↔
      ∃ digits, CountDigits digits n ∧ text = digits ++ rest ∧ Stops Ascii.isDigit rest := by
  constructor
  · intro read
    have stop := List.head?_dropWhile_not Ascii.isDigit text
    have joined := List.takeWhile_append_dropWhile (p := Ascii.isDigit) (l := text)
    have all : ∀ d ∈ text.takeWhile Ascii.isDigit, Ascii.isDigit d = true :=
      List.all_eq_true.1 List.all_takeWhile
    rw [countNumber] at read
    split at read
    · cases read
    · next valid =>
      split at read
      · cases read
      · next small =>
        cases read
        rw [Bool.or_eq_true, not_or, List.isEmpty_iff] at valid
        refine ⟨_, ⟨valid.1, all, rfl, Nat.le_of_not_lt small⟩, joined.symm, fun b first => ?_⟩
        rw [Option.mem_def] at first
        rw [first] at stop
        exact stop
  · rintro ⟨digits, ⟨nonempty, all, value, small⟩, rfl, stops⟩
    have take : rest.takeWhile Ascii.isDigit = [] := by
      cases rest with
      | nil => rfl
      | cons b rest => exact List.takeWhile_cons_of_neg (by rw [stops b rfl]; exact Bool.false_ne_true)
    have drop : rest.dropWhile Ascii.isDigit = rest := by
      cases rest with
      | nil => rfl
      | cons b rest => exact List.dropWhile_cons_of_neg (by rw [stops b rfl]; exact Bool.false_ne_true)
    have fits : n ≤ 0xffffffff := Nat.le_trans small (by decide)
    have valid : ¬ (digits.isEmpty || decide (0xffffffff < n)) = true := by
      rw [Bool.or_eq_true, not_or, List.isEmpty_iff, decide_eq_true_eq]
      exact ⟨nonempty, Nat.not_lt_of_le fits⟩
    rw [countNumber]
    simp only [List.takeWhile_append_of_pos all, List.dropWhile_append_of_pos all, take, drop,
      List.append_nil, value, if_neg valid, if_neg (Nat.not_lt_of_le small)]

theorem stops_cons {kind : UInt8 → Bool} {b : UInt8} (differs : kind b = false)
    (rest : List UInt8) : Stops kind (b :: rest) := by
  intro c first
  obtain rfl := Option.some.inj first
  exact differs

/-- A count is read up to a byte that is no digit. -/
theorem countNumber_append {digits rest : List UInt8} {n : Nat} {b : UInt8}
    (count : CountDigits digits n) (differs : Ascii.isDigit b = false) :
    countNumber (digits ++ b :: rest) = .ok (n, b :: rest) :=
  countNumber_iff.2 ⟨digits, count, rfl, stops_cons differs rest⟩

theorem countBounds_iff {text rest : List UInt8} {min : Nat} {max : Option Nat} :
    countBounds text = .ok (min, max, rest) ↔ CountText text rest min max := by
  constructor
  · intro read
    rw [countBounds] at read
    split at read
    · cases read
    · next more first =>
      obtain ⟨lower, least, rfl, _⟩ := countNumber_iff.1 first
      split at read
      · next closed =>
        obtain ⟨more, rfl⟩ := List.head?_eq_some_iff.1 closed
        cases read
        exact .exactly least
      · split at read
        · next comma =>
          obtain ⟨more, rfl⟩ := List.head?_eq_some_iff.1 comma
          rw [List.tail_cons] at read
          split at read
          · next closed =>
            obtain ⟨more, rfl⟩ := List.head?_eq_some_iff.1 closed
            cases read
            exact .atLeast least
          · split at read
            · cases read
            · next after second =>
              obtain ⟨upper, most, rfl, _⟩ := countNumber_iff.1 second
              split at read
              · cases read
              · next closed =>
                obtain ⟨more, rfl⟩ := List.head?_eq_some_iff.1 (Decidable.not_not.1 closed)
                split at read
                · cases read
                · next ordered =>
                  cases read
                  exact .between least most (Nat.le_of_not_lt ordered)
        · cases read
  · intro derived
    cases derived with
    | exactly count =>
      rw [countBounds, countNumber_append count (by decide)]
      rfl
    | atLeast count =>
      rw [countBounds, countNumber_append count (by decide)]
      rfl
    | @between lower upper _ _ n least most ordered =>
      -- The second count begins with a digit, so the brace behind the comma does not close.
      have more : (upper ++ Ascii.closeBrace :: rest).head? ≠ some Ascii.closeBrace := by
        obtain ⟨d, digits, rfl⟩ := List.exists_cons_of_ne_nil most.nonempty
        intro closed
        obtain rfl := Option.some.inj closed
        exact absurd (most.all _ List.mem_cons_self) (by decide)
      have comma : some Ascii.comma ≠ some Ascii.closeBrace := by decide
      rw [countBounds, countNumber_append least (by decide)]
      simp only [List.head?_cons, List.tail_cons, if_neg comma, if_true, if_neg more,
        countNumber_append most (by decide : Ascii.isDigit Ascii.closeBrace = false), ne_eq,
        not_true_eq_false, if_false, if_neg (Nat.not_lt_of_le ordered)]

/-- A count begins with a digit. -/
theorem CountText.head {text rest : List UInt8} {min : Nat} {max : Option Nat}
    (bounds : CountText text rest min max) :
    ∃ d more, text = d :: more ∧ Ascii.isDigit d = true := by
  have first : ∀ {digits after : List UInt8} {n : Nat}, CountDigits digits n →
      ∃ d more, digits ++ after = d :: more ∧ Ascii.isDigit d = true := by
    intro digits after n count
    obtain ⟨d, digits, rfl⟩ := List.exists_cons_of_ne_nil count.nonempty
    exact ⟨d, digits ++ after, rfl, count.all d List.mem_cons_self⟩
  cases bounds with
  | exactly count => exact first count
  | atLeast count => exact first count
  | between least _ _ => exact first least

/-! ## Lexemes -/

/-- The lexemes that a text can begin with, and the rest of the text.  Only a brace is read
differently behind an operand. -/
inductive Lexed : Bool → List UInt8 → List UInt8 → Lexeme → Prop
  | opening {after : Bool} {rest : List UInt8} : Lexed after (Ascii.openParen :: rest) rest .opening
  | closing {after : Bool} {rest : List UInt8} : Lexed after (Ascii.closeParen :: rest) rest .closing
  | bar {after : Bool} {rest : List UInt8} : Lexed after (Ascii.bar :: rest) rest .bar
  | dot {after : Bool} {rest : List UInt8} :
    Lexed after (Ascii.dot :: rest) rest (.operand (.set .dot))
  | star {after : Bool} {rest : List UInt8} :
    Lexed after (Ascii.star :: rest) rest (.times Ascii.star 0 none)
  | plus {after : Bool} {rest : List UInt8} :
    Lexed after (Ascii.plus :: rest) rest (.times Ascii.plus 1 none)
  | question {after : Bool} {rest : List UInt8} :
    Lexed after (Ascii.question :: rest) rest (.times Ascii.question 0 (some 1))
  | charClass {after : Bool} {text rest : List UInt8} {bytes : ByteSet}
    (members : ClassText text rest bytes) :
    Lexed after (Ascii.openBracket :: text) rest (.operand (.set bytes))
  | literal {after : Bool} {text rest bytes : List UInt8} (quoted : Literal text rest bytes) :
    Lexed after (Ascii.quote :: text) rest (.operand (seqOf (bytes.map byte)))
  | escaped {after : Bool} {text rest : List UInt8} {b : UInt8} (escape : Escape text rest b) :
    Lexed after (Ascii.backslash :: text) rest (.operand (byte b))
  | count {text rest : List UInt8} {min : Nat} {max : Option Nat}
    (bounds : CountText text rest min max) :
    Lexed true (Ascii.openBrace :: text) rest (.times Ascii.openBrace min max)
  | reference {after : Bool} {rest : List UInt8} {name : String} (isName : IsName name)
    (noCount : after = true →
      ¬ CountAhead (Ascii.openBrace :: (utf8 name ++ Ascii.closeBrace :: rest))) :
    Lexed after (Ascii.openBrace :: (utf8 name ++ Ascii.closeBrace :: rest)) rest (.reference name)
  | byte {after : Bool} {b : UInt8} {rest : List UInt8} (ordinary : b ∉ specialBytes) :
    Lexed after (b :: rest) rest (.operand (byte b))

theorem Lexed.ne_nil {after : Bool} {text more : List UInt8} {l : Lexeme}
    (lexed : Lexed after text more l) : text ≠ [] := by
  cases lexed <;> exact List.cons_ne_nil _ _

theorem lookup_oneByteLexemes {b : UInt8} {l : Lexeme} :
    oneByteLexemes.lookup b = some l ↔ (b, l) ∈ oneByteLexemes :=
  lookup_eq_some_iff_mem (by decide)

theorem countAhead_cons {text : List UInt8} :
    CountAhead (Ascii.openBrace :: text) ↔ text.head?.any Ascii.isDigit = true := by
  constructor
  · rintro ⟨d, rest, same, digit⟩
    rw [List.cons.injEq] at same
    rw [same.2]
    exact digit
  · intro digit
    cases text with
    | nil => cases digit
    | cons d rest => exact ⟨d, rest, rfl, digit⟩

theorem lexed_of_lexeme {after : Bool} {b : UInt8} {rest more : List UInt8} {l : Lexeme}
    (read : lexeme after b rest = .ok (l, more)) : Lexed after (b :: rest) more l := by
  rw [lexeme] at read
  split at read
  · next known =>
    cases read
    have listed := lookup_oneByteLexemes.1 known
    simp only [oneByteLexemes, List.mem_cons, Prod.mk.injEq, List.not_mem_nil, or_false] at listed
    rcases listed with ⟨rfl, rfl⟩ | ⟨rfl, rfl⟩ | ⟨rfl, rfl⟩ | ⟨rfl, rfl⟩ | ⟨rfl, rfl⟩ | ⟨rfl, rfl⟩ |
      ⟨rfl, rfl⟩
    · exact .opening
    · exact .closing
    · exact .bar
    · exact .dot
    · exact .star
    · exact .plus
    · exact .question
  · next unknown =>
    split at read
    · next bracket =>
      subst bracket
      split at read
      · cases read
      · next found =>
        cases read
        exact .charClass (classSet_iff.1 found)
    · next notBracket =>
      split at read
      · next quote =>
        subst quote
        split at read
        · cases read
        · next found =>
          cases read
          exact .literal (literalBytes_iff.1 found)
      · next notQuote =>
        split at read
        · next backslash =>
          subst backslash
          split at read
          · cases read
          · next found =>
            cases read
            exact .escaped (escape_iff.1 found)
        · next notBackslash =>
          split at read
          · next brace =>
            subst brace
            split at read
            · next counted =>
              rw [Bool.and_eq_true] at counted
              obtain ⟨rfl, _⟩ := counted
              split at read
              · cases read
              · next found =>
                cases read
                exact .count (countBounds_iff.1 found)
            · next notCounted =>
              split at read
              · cases read
              · next found =>
                cases read
                obtain ⟨isName, rfl⟩ := referenceName_iff.1 found
                refine .reference isName fun behind ahead => notCounted ?_
                rw [Bool.and_eq_true]
                exact ⟨behind, countAhead_cons.1 ahead⟩
          · -- No case before has the byte, so it is none of the special ones.
            next notBrace =>
            cases read
            refine .byte fun special => ?_
            simp only [oneByteLexemes, List.lookup_eq_none_iff, List.forall_mem_cons, bne_iff_ne]
              at unknown
            simp only [specialBytes, List.mem_cons, List.not_mem_nil, or_false] at special
            simp_all

theorem lexeme_openBrace (after : Bool) (rest : List UInt8) :
    lexeme after Ascii.openBrace rest =
      if (after && rest.head?.any Ascii.isDigit) = true then
        match countBounds rest with
        | .error fault => .error ⟨fault, Ascii.openBrace :: rest⟩
        | .ok (min, max, more) => .ok (.times Ascii.openBrace min max, more)
      else
        match referenceName rest with
        | .error fault => .error ⟨fault, Ascii.openBrace :: rest⟩
        | .ok (name, more) => .ok (.reference name, more) := rfl

theorem lexeme_of_lexed {after : Bool} {b : UInt8} {rest more : List UInt8} {l : Lexeme}
    (derived : Lexed after (b :: rest) more l) : lexeme after b rest = .ok (l, more) := by
  cases derived with
  | opening | closing | bar | dot | star | plus | question => rfl
  | charClass members =>
    have unknown : oneByteLexemes.lookup Ascii.openBracket = none := rfl
    rw [lexeme, unknown]
    simp only [if_true, classSet_iff.2 members]
  | literal quoted =>
    have unknown : oneByteLexemes.lookup Ascii.quote = none := rfl
    rw [lexeme, unknown]
    simp only [if_neg (by decide : ¬ Ascii.quote = Ascii.openBracket), if_true,
      literalBytes_iff.2 quoted]
  | escaped escape =>
    have unknown : oneByteLexemes.lookup Ascii.backslash = none := rfl
    rw [lexeme, unknown]
    simp only [if_neg (by decide : ¬ Ascii.backslash = Ascii.openBracket),
      if_neg (by decide : ¬ Ascii.backslash = Ascii.quote), if_true, escape_iff.2 escape]
  | count bounds =>
    have counted : (true && rest.head?.any Ascii.isDigit) = true := by
      obtain ⟨d, digits, rfl, digit⟩ := bounds.head
      exact digit
    rw [lexeme_openBrace, if_pos counted, countBounds_iff.2 bounds]
  | @reference _ _ name isName noCount =>
    have read : referenceName (utf8 name ++ Ascii.closeBrace :: more) = .ok (name, more) :=
      referenceName_iff.2 ⟨isName, rfl⟩
    rw [lexeme_openBrace, if_neg, read]
    intro counted
    rw [Bool.and_eq_true] at counted
    exact noCount counted.1 (countAhead_cons.2 counted.2)
  | byte ordinary =>
    simp only [specialBytes, List.mem_cons, List.not_mem_nil, or_false, not_or] at ordinary
    have unknown : oneByteLexemes.lookup b = none := by
      simp only [oneByteLexemes, List.lookup_eq_none_iff, List.forall_mem_cons, bne_iff_ne]
      simp_all
    rw [lexeme, unknown]
    simp only [ordinary, if_false]

/-- A lexeme is read exactly if there is a rule for it. -/
theorem lexeme_iff {after : Bool} {b : UInt8} {rest more : List UInt8} {l : Lexeme} :
    lexeme after b rest = .ok (l, more) ↔ Lexed after (b :: rest) more l :=
  ⟨lexed_of_lexeme, lexeme_of_lexed⟩

end ScannerGen.Pattern
