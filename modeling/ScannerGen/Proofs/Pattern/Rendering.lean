import ScannerGen.Proofs.Pattern.Inlining
import ScannerGen.Proofs.Pattern.NormalForm
import ScannerGen.Proofs.Text.Decimal

/-!
# Patterns written from trees

Every normal tree that is small enough has a text that is read as it, and the text names no macro.

* `render` — the text: sets are classes of escapes, counts are always bounded in braces, and
  parentheses stand around what binds looser than its place.
* `Writes` — a text is derived, whatever follows it, and its tree has a given flat form; one lemma for
  every way of putting texts together.
* `Rendered` — the three places where the text of a tree can stand; `rendered_of_normal` is the
  induction over normal trees.
* `parse_normal_and_parse_text` — what is read is normal and small, and the text of every such tree is
  read as that tree.
-/

namespace ScannerGen.Pattern

/-! ## Rendering -/

/-- The byte of a hexadecimal digit. -/
def hexDigitByte (d : Nat) : UInt8 := UInt8.ofNat (Ascii.hexDigit d).toNat

/-- A byte as an escape of two hexadecimal digits. -/
def hexEscape (b : UInt8) : List UInt8 :=
  [Ascii.backslash, Ascii.letterX, hexDigitByte (b.toNat / 16), hexDigitByte (b.toNat % 16)]

/-- A set as a class that lists its members. -/
def renderClass (bytes : ByteSet) : List UInt8 :=
  Ascii.openBracket :: (bytes.elements.flatMap hexEscape ++ [Ascii.closeBracket])

/-- The bounds of a repetition in braces. -/
def renderCount (min : Nat) : Option Nat → List UInt8
  | none => Ascii.openBrace :: (utf8 (toString min) ++ [Ascii.comma, Ascii.closeBrace])
  | some max =>
    Ascii.openBrace ::
      (utf8 (toString min) ++ Ascii.comma :: (utf8 (toString max) ++ [Ascii.closeBrace]))

/-- The text of a tree as an operand: sequences and alternations stand in parentheses. -/
def enclose : Pattern → List UInt8 → List UInt8
  | .seq _, text | .alt _, text => Ascii.openParen :: (text ++ [Ascii.closeParen])
  | .empty, text | .set _, text | .rep .., text => text

mutual

/-- The bytes of a text that is read as the tree. -/
def render : Pattern → List UInt8
  | .empty => [Ascii.quote, Ascii.quote]
  | .set bytes => renderClass bytes
  | .seq ps => renderItems ps
  | .alt ps => renderBranches ps
  | .rep body min max => enclose body (render body) ++ renderCount min max

def renderItems : List Pattern → List UInt8
  | [] => []
  | p :: ps => enclose p (render p) ++ renderItems ps

def renderBranches : List Pattern → List UInt8
  | [] => []
  | [p] => render p
  | p :: q :: ps => render p ++ Ascii.bar :: renderBranches (q :: ps)

end

/-- A pattern text for a tree. -/
def text (p : Pattern) : String := asciiText (render p)

/-! ## Every byte is ASCII -/

theorem narrow_hexDigitByte : ∀ d < 16, hexDigitByte d < 0x80 := by decide

theorem narrow_hexEscape (b : UInt8) : ∀ c ∈ hexEscape b, c < 0x80 := by
  have bound := UInt8.toNat_lt b
  simp only [hexEscape, List.forall_mem_cons]
  exact ⟨by decide, by decide, narrow_hexDigitByte _ (by omega), narrow_hexDigitByte _ (by omega),
    fun _ absent => absurd absent List.not_mem_nil⟩

theorem narrow_toString (n : Nat) : ∀ b ∈ utf8 (toString n), b < 0x80 := by
  intro b member
  have digit := isDigit_of_mem_utf8_toString b member
  rw [Ascii.isDigit, Bool.and_eq_true, decide_eq_true_eq, decide_eq_true_eq] at digit
  exact UInt8.lt_of_le_of_lt digit.2 (by decide)

theorem narrow_renderCount (min : Nat) (max : Option Nat) : ∀ b ∈ renderCount min max, b < 0x80 := by
  cases max with
  | none =>
    rw [renderCount, List.forall_mem_cons, List.forall_mem_append, List.forall_mem_cons,
      List.forall_mem_singleton]
    exact ⟨by decide, narrow_toString min, by decide, by decide⟩
  | some max =>
    rw [renderCount, List.forall_mem_cons, List.forall_mem_append, List.forall_mem_cons,
      List.forall_mem_append, List.forall_mem_singleton]
    exact ⟨by decide, narrow_toString min, by decide, narrow_toString max, by decide⟩

theorem narrow_enclose (p : Pattern) {text : List UInt8} (narrow : ∀ b ∈ text, b < 0x80) :
    ∀ b ∈ enclose p text, b < 0x80 := by
  cases p with
  | seq _ | alt _ =>
    rw [enclose, List.forall_mem_cons, List.forall_mem_append, List.forall_mem_singleton]
    exact ⟨by decide, narrow, by decide⟩
  | empty | set _ | rep _ _ _ => exact narrow

theorem narrow_render (p : Pattern) : ∀ b ∈ render p, b < 0x80 := by
  induction p with
  | empty =>
    rw [render, List.forall_mem_cons, List.forall_mem_singleton]
    exact ⟨by decide, by decide⟩
  | set bytes =>
    rw [render, renderClass, List.forall_mem_cons, List.forall_mem_append, List.forall_mem_singleton]
    refine ⟨by decide, fun b member => ?_, by decide⟩
    obtain ⟨c, _, inEscape⟩ := List.mem_flatMap.1 member
    exact narrow_hexEscape c b inEscape
  | seq ps ih =>
    rw [render]
    induction ps with
    | nil => exact fun b absent => absurd absent List.not_mem_nil
    | cons p ps ihTail =>
      obtain ⟨head, tail⟩ := List.forall_mem_cons.1 ih
      rw [renderItems, List.forall_mem_append]
      exact ⟨narrow_enclose p head, ihTail tail⟩
  | alt ps ih =>
    rw [render]
    induction ps with
    | nil => exact fun b absent => absurd absent List.not_mem_nil
    | cons p ps ihTail =>
      obtain ⟨head, tail⟩ := List.forall_mem_cons.1 ih
      cases ps with
      | nil => exact head
      | cons q ps =>
        rw [renderBranches, List.forall_mem_append, List.forall_mem_cons]
        exact ⟨head, by decide, ihTail tail⟩
  | rep body min max ih =>
    rw [render, List.forall_mem_append]
    exact ⟨narrow_enclose body ih, narrow_renderCount min max⟩

theorem utf8_text (p : Pattern) : utf8 p.text = render p := utf8_asciiText (narrow_render p)

/-! ## Escapes, classes and counts -/

theorem digitValue_hexDigitByte : ∀ d < 16, Ascii.digitValue (hexDigitByte d) = d := by decide

theorem isHexDigit_hexDigitByte : ∀ d < 16, Ascii.isHexDigit (hexDigitByte d) = true := by decide

theorem classByte_hexEscape (b : UInt8) (rest : List UInt8) : ClassByte (hexEscape b ++ rest) rest b := by
  have bound := UInt8.toNat_lt b
  have high : b.toNat / 16 < 16 := by omega
  have low : b.toNat % 16 < 16 := by omega
  have value : Ascii.numeral 16 [hexDigitByte (b.toNat / 16), hexDigitByte (b.toNat % 16)] = b.toNat := by
    simp only [Ascii.numeral, List.foldl_cons, List.foldl_nil, digitValue_hexDigitByte _ high,
      digitValue_hexDigitByte _ low]
    omega
  have run : DigitRun Ascii.isHexDigit 2 [hexDigitByte (b.toNat / 16), hexDigitByte (b.toNat % 16)] rest :=
    { nonempty := List.cons_ne_nil _ _
      all := List.forall_mem_cons.2 ⟨isHexDigit_hexDigitByte _ high,
        List.forall_mem_singleton.2 (isHexDigit_hexDigitByte _ low)⟩
      length_le := Nat.le_refl 2
      whole := .inl rfl }
  have escape := Escape.hexadecimal run
  rw [value, UInt8.ofNat_toNat] at escape
  exact .escaped escape

theorem not_rangeAhead_of_ne {b : UInt8} {rest : List UInt8} (differs : b ≠ Ascii.minus) :
    ¬ RangeAhead (b :: rest) := by
  rintro ⟨c, more, same, _⟩
  exact differs (List.cons.inj same).1

theorem head?_hexEscape_ne {c : UInt8} (differs : Ascii.backslash ≠ c) (b : UInt8) (rest : List UInt8) :
    (hexEscape b ++ rest).head? ≠ some c :=
  fun same => differs (Option.some.inj same)

/-- The escapes of some bytes and the closing bracket, behind a first member. -/
theorem classItems_hexEscapes (bs rest : List UInt8) :
    ClassItems false (bs.flatMap hexEscape ++ Ascii.closeBracket :: rest) rest
        (bs.map fun b => (b, b)) ∧
      ¬ RangeAhead (bs.flatMap hexEscape ++ Ascii.closeBracket :: rest) := by
  -- Every member begins with a backslash, so none is the first of a range with a hyphen behind it.
  induction bs with
  | nil => exact ⟨.close, not_rangeAhead_of_ne (by decide)⟩
  | cons b bs ih =>
    rw [List.flatMap_cons, List.append_assoc]
    exact ⟨.single (.inr (head?_hexEscape_ne (by decide) b _)) (classByte_hexEscape b _) ih.2 ih.1,
      not_rangeAhead_of_ne (by decide)⟩

theorem inRanges_singles (bs : List UInt8) (b : UInt8) :
    inRanges (bs.map fun c => (c, c)) b = decide (b ∈ bs) := by
  induction bs with
  | nil => rfl
  | cons c bs ih =>
    have same : (decide (c ≤ b) && decide (b ≤ c)) = (c == b) := by
      simpa using (contains_insert_eq .empty c b).symm
    rw [List.map_cons, inRanges_cons, same, ih, Bool.eq_iff_iff]
    simp only [Bool.or_eq_true, beq_iff_eq, decide_eq_true_eq, List.mem_cons, @eq_comm _ c b]

theorem classText_elements {bytes : ByteSet} (inhabited : ∃ b, bytes.contains b = true)
    (rest : List UInt8) :
    ClassText (bytes.elements.flatMap hexEscape ++ Ascii.closeBracket :: rest) rest bytes := by
  have denotes : ∀ b, bytes.contains b = inRanges (bytes.elements.map fun c => (c, c)) b := by
    intro b
    rw [inRanges_singles, Bool.eq_iff_iff]
    simp
  obtain ⟨b, member⟩ := inhabited
  obtain ⟨first, others, listed⟩ :=
    List.exists_cons_of_ne_nil (List.ne_nil_of_mem (ByteSet.mem_elements.2 member))
  rw [listed] at denotes ⊢
  obtain ⟨items, alone⟩ := classItems_hexEscapes others rest
  rw [List.flatMap_cons, List.append_assoc]
  exact .listed (head?_hexEscape_ne (by decide) first _) (.single (.inl rfl) (classByte_hexEscape first _) alone items)
    denotes ⟨b, member⟩

theorem countDigits_toString {n : Nat} (small : n ≤ maxCount) : CountDigits (utf8 (toString n)) n := by
  obtain ⟨b, rest, digits, _⟩ := exists_head_toString n
  exact ⟨digits ▸ List.cons_ne_nil _ _, isDigit_of_mem_utf8_toString, numeral_utf8_toString n, small⟩

theorem sign_renderCount {min : Nat} {max : Option Nat} (counts : Counts min max) (rest : List UInt8) :
    Sign (renderCount min max ++ rest) rest min max := by
  have least := countDigits_toString counts.least
  cases max with
  | none =>
    have bounds : CountText _ rest min none := .atLeast least
    rw [renderCount, List.cons_append, List.append_assoc]
    exact .count bounds
  | some max =>
    obtain ⟨ordered, small⟩ := counts.most max rfl
    have bounds : CountText _ rest min (some max) := .between least (countDigits_toString small) ordered
    rw [renderCount, List.cons_append, List.append_assoc, List.cons_append, List.append_assoc]
    exact .count bounds

/-! ## Texts of trees -/

/-- Whatever follows a text, it is derived, and the flat form of its tree is the given one. -/
def Writes (kind : Nonterminal) (text : List UInt8) (p : Pattern) : Prop :=
  ∀ (macros : MacroTable) (chain : List String) (rest : List UInt8),
    ∃ q, Derives macros kind chain (text ++ rest) rest q ∧ q.flat = p

namespace Writes

variable {text : List UInt8} {p : Pattern}

theorem empty : Writes .repetition [Ascii.quote, Ascii.quote] .empty :=
  fun _ _ _ => ⟨_, .once (.literal .close), rfl⟩

theorem set {bytes : ByteSet} (inhabited : ∃ b, bytes.contains b = true) :
    Writes .repetition (renderClass bytes) (.set bytes) := by
  intro macros chain rest
  rw [renderClass, List.cons_append, List.append_assoc]
  exact ⟨_, .once (.charClass (classText_elements inhabited rest)), rfl⟩

theorem rep {min : Nat} {max : Option Nat} (body : Writes .repetition text p) (counts : Counts min max)
    (small : (Pattern.rep p min max).stateBound ≤ maxStates) :
    Writes .repetition (text ++ renderCount min max) (.rep p min max) := by
  intro macros chain rest
  obtain ⟨q, derived, rfl⟩ := body macros chain (renderCount min max ++ rest)
  rw [List.append_assoc]
  exact ⟨_, .repeated derived (sign_renderCount counts rest) small, rfl⟩

theorem group (inside : Writes .alternation text p) :
    Writes .repetition (Ascii.openParen :: (text ++ [Ascii.closeParen])) p := by
  intro macros chain rest
  obtain ⟨q, derived, rfl⟩ := inside macros chain (Ascii.closeParen :: rest)
  rw [List.cons_append, List.append_assoc]
  exact ⟨q, .once (.group derived), rfl⟩

theorem item (normal : p.Normal) (operand : Writes .repetition text p) :
    Writes .concatenation text p := by
  intro macros chain rest
  obtain ⟨q, derived, rfl⟩ := operand macros chain rest
  refine ⟨_, .item derived, ?_⟩
  rw [flat, flatParts, flatParts, List.append_nil, normal.seqOf_parts]

theorem branch (normal : p.Normal) (branch : Writes .concatenation text p) :
    Writes .alternation text p := by
  intro macros chain rest
  obtain ⟨q, derived, rfl⟩ := branch macros chain rest
  refine ⟨_, .branch derived, ?_⟩
  rw [flat, flatBranches, flatBranches, List.append_nil, normal.altOf_branches]

end Writes

/-- The text of a tree can stand wherever a tree of its kind can. -/
structure Rendered (p : Pattern) : Prop where
  pattern : Writes .alternation (render p) p
  branch : p.isBranch = true → Writes .concatenation (render p) p
  operand : Writes .repetition (enclose p (render p)) p

/-- An operand begins with a quote, a bracket or a parenthesis, so with no count. -/
theorem not_countAhead_enclose (p : Pattern) (rest : List UInt8) :
    ¬ CountAhead (enclose p (render p) ++ rest) := by
  induction p generalizing rest with
  | empty | set _ | seq _ _ | alt _ _ => exact not_countAhead_of_ne (by decide)
  | rep body min max ih =>
    rw [enclose, render, List.append_assoc]
    exact ih _

/-- Items one after the other are a concatenation of their trees. -/
theorem writes_items {ps : List Pattern} (some_item : ps ≠ [])
    (each : ∀ p ∈ ps, p.Rendered ∧ p.isItem = true) (macros : MacroTable) (chain : List String)
    (rest : List UInt8) :
    ∃ qs, Derives macros .concatenation chain (renderItems ps ++ rest) rest (.seq qs) ∧
      flatParts qs = ps := by
  induction ps with
  | nil => exact absurd rfl some_item
  | cons p ps ih =>
    obtain ⟨⟨rendered, item⟩, others⟩ := List.forall_mem_cons.1 each
    obtain ⟨q, derived, rfl⟩ := rendered.operand macros chain (renderItems ps ++ rest)
    rw [renderItems, List.append_assoc]
    cases ps with
    | nil =>
      refine ⟨[q], .item derived, ?_⟩
      rw [flatParts, flatParts, parts_of_isItem item, List.append_nil]
    | cons p' ps =>
      -- The text goes on with another operand, and braces in front of it would be read as bounds.
      obtain ⟨qs, goesOn, same⟩ := ih (List.cons_ne_nil _ _) others
      refine ⟨q :: qs, .items derived ?_ goesOn, ?_⟩
      · rw [renderItems, List.append_assoc]
        exact not_countAhead_enclose p' _
      · rw [flatParts, parts_of_isItem item, same, List.singleton_append]

theorem writes_branches {ps : List Pattern} (some_branch : ps ≠ [])
    (each : ∀ p ∈ ps, p.Rendered ∧ p.isBranch = true) (macros : MacroTable) (chain : List String)
    (rest : List UInt8) :
    ∃ qs, Derives macros .alternation chain (renderBranches ps ++ rest) rest (.alt qs) ∧
      flatBranches qs = ps := by
  induction ps with
  | nil => exact absurd rfl some_branch
  | cons p ps ih =>
    obtain ⟨⟨rendered, branch⟩, others⟩ := List.forall_mem_cons.1 each
    cases ps with
    | nil =>
      obtain ⟨q, derived, rfl⟩ := rendered.branch branch macros chain rest
      refine ⟨[q], .branch derived, ?_⟩
      rw [flatBranches, flatBranches, branches_of_isBranch branch, List.append_nil]
    | cons p' ps =>
      obtain ⟨qs, goesOn, same⟩ := ih (List.cons_ne_nil _ _) others
      obtain ⟨q, derived, rfl⟩ :=
        rendered.branch branch macros chain (Ascii.bar :: (renderBranches (p' :: ps) ++ rest))
      rw [renderBranches, List.append_assoc, List.cons_append]
      refine ⟨q :: qs, .branches derived goesOn, ?_⟩
      rw [flatBranches, branches_of_isBranch branch, same, List.singleton_append]

theorem Rendered.of_operand {p : Pattern} (normal : p.Normal) (operand : Writes .repetition (render p) p)
    (bare : enclose p (render p) = render p) : p.Rendered :=
  ⟨(operand.item normal).branch normal, fun _ => operand.item normal, bare.symm ▸ operand⟩

/-- The text of a normal tree is derived at every place that it can stand at. -/
theorem rendered_of_normal {p : Pattern} (normal : p.Normal) (fits : p.RepeatsFit) : p.Rendered := by
  -- Each tree is shown for its own place; places that bind tighter come by parentheses, and those
  -- that bind looser by being the only item or branch.
  induction normal with
  | empty => exact .of_operand .empty .empty rfl
  | set inhabited => exact .of_operand (.set inhabited) (.set inhabited) rfl
  | @seq ps several each items ih =>
    have normal : (Pattern.seq ps).Normal := .seq several each items
    have branch : Writes .concatenation (render (.seq ps)) (.seq ps) := by
      intro macros chain rest
      obtain ⟨qs, derived, rfl⟩ :=
        writes_items (ne_nil_of_several several)
          (fun p member => ⟨ih p member (repeatsFit_seq.1 fits p member), items p member⟩)
          macros chain rest
      exact ⟨_, derived, normal.seqOf_parts⟩
    exact ⟨branch.branch normal, fun _ => branch, (branch.branch normal).group⟩
  | @alt ps several each branches ih =>
    have normal : (Pattern.alt ps).Normal := .alt several each branches
    have pattern : Writes .alternation (render (.alt ps)) (.alt ps) := by
      intro macros chain rest
      obtain ⟨qs, derived, rfl⟩ :=
        writes_branches (ne_nil_of_several several)
          (fun p member => ⟨ih p member (repeatsFit_alt.1 fits p member), branches p member⟩)
          macros chain rest
      exact ⟨_, derived, normal.altOf_branches⟩
    exact ⟨pattern, fun branch => (Bool.false_ne_true branch).elim, pattern.group⟩
  | rep inside counts ih =>
    obtain ⟨small, fitsInside⟩ := repeatsFit_rep.1 fits
    exact .of_operand (.rep inside counts) ((ih fitsInside).operand.rep counts small) rfl

/-! ## Reading what was written -/

/-- The text of a normal tree that is small enough is read as that tree. -/
theorem parse_text {tree : Pattern} (normal : tree.Normal) (small : tree.stateBound ≤ maxStates)
    (fits : tree.RepeatsFit) (macros : MacroTable) (owner : Owner) :
    parse macros owner tree.text = .ok tree := by
  obtain ⟨q, derived, rfl⟩ := (rendered_of_normal normal fits).pattern macros [] []
  rw [List.append_nil] at derived
  exact parseFragment_iff.2 ⟨q, (utf8_text q.flat).symm ▸ derived.complete small, rfl⟩

/-- A text that is read without any macro defined refers to none. -/
theorem no_reference_of_parse {owner : Owner} {source : String} {tree : Pattern}
    (accepted : parse .empty owner source = .ok tree) {name : String} {suffix : List UInt8} :
    ⟨.reference name, suffix⟩ ∉ lexemes false (utf8 source) := by
  intro member
  obtain ⟨fragment, expanded⟩ := expands_of_assemble (parseFragment_eq_ok_iff.1 accepted) member
  obtain ⟨_, m, defined, _⟩ := exists_of_expansion expanded
  cases defined

/-- What is read is normal and small, whatever the macros; and every tree that is normal and small has
a text without macro references, which is read as that tree. -/
theorem parse_normal_and_parse_text (macros : MacroTable) (owner : Owner) :
    (∀ source tree, parse macros owner source = .ok tree →
      tree.Normal ∧ tree.stateBound ≤ maxStates ∧ tree.RepeatsFit) ∧
    ∀ tree : Pattern, tree.Normal → tree.stateBound ≤ maxStates → tree.RepeatsFit →
      (∀ placed ∈ lexemes false (utf8 tree.text), ∀ name, placed.lexeme ≠ .reference name) ∧
      parse macros owner tree.text = .ok tree := by
  refine ⟨fun source tree accepted => parse_normal accepted, fun tree normal small fits => ⟨?_, ?_⟩⟩
  · rintro ⟨l, suffix⟩ member name rfl
    exact no_reference_of_parse (parse_text normal small fits .empty owner) member
  · exact parse_text normal small fits macros owner

/-- A repetition of a choice, one branch of which is empty, and a quote behind it. -/
theorem parse_normal_and_parse_text_choice :
    ∃ tree : Pattern, tree = .seq [.rep (.alt [.empty, byte 0x61]) 0 (some 2), byte Ascii.quote] ∧
      tree.text = "(\"\"|[\\x61])\x7b0,2\x7d[\\x22]" ∧
      tree.Normal ∧ tree.stateBound ≤ maxStates ∧ tree.RepeatsFit ∧
      (∀ placed ∈ lexemes false (utf8 tree.text), ∀ name, placed.lexeme ≠ .reference name) ∧
      parse .empty (.named "unit") tree.text = .ok tree := by
  have single : ∀ b, (byte b).Normal := fun b => .set ⟨b, by simp⟩
  have choice : (Pattern.alt [.empty, byte 0x61]).Normal :=
    .alt (by decide) (by simp [Normal.empty, single]) (by simp [isBranch, byte])
  have repeated : (Pattern.rep (.alt [.empty, byte 0x61]) 0 (some 2)).Normal :=
    .rep choice (.of_le (by decide) (by decide))
  have normal : (Pattern.seq [.rep (.alt [.empty, byte 0x61]) 0 (some 2), byte Ascii.quote]).Normal :=
    .seq (by decide) (by simp [repeated, single]) (by simp [isItem, byte])
  have fits :
      (Pattern.seq [.rep (.alt [.empty, byte 0x61]) 0 (some 2), byte Ascii.quote]).RepeatsFit := by
    simp only [byte, repeatsFit_seq, repeatsFit_rep, repeatsFit_alt, List.forall_mem_cons]
    exact ⟨⟨by decide, repeatsFit_empty, repeatsFit_set _, by simp⟩, repeatsFit_set _, by simp⟩
  obtain ⟨reads, writes⟩ := parse_normal_and_parse_text .empty (.named "unit")
  obtain ⟨noReference, accepted⟩ := writes _ normal (by decide) fits
  obtain ⟨again, small, fitsAgain⟩ := reads _ _ accepted
  exact ⟨_, rfl, by decide +kernel, again, small, fitsAgain, noReference, accepted⟩

end ScannerGen.Pattern
