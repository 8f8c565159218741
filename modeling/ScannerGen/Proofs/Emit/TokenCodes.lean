import ScannerGen.Emit.Arrays
import ScannerGen.Emit.Header
import ScannerGen.Proofs.Token.Distinct

/-!
# Token codes in C

The header names the codes of the tokens, of the end of input and of a jam by macros, and the source
keeps the codes in an array of ints.  Settling does not look at the two names and the one code that are
not those of tokens.

* `nodup_headerMacros_iff` — the macros for codes in a header are different unless a token is called like
  the end of input or a jam.
* `tokenIds_fit_iff` — the codes are different ints unless one is the greatest word, and ints hold them
  unless a greater one is declared.
-/

namespace ScannerGen.Code

/-- The name that an item defines as a macro with a value. -/
def Item.valueMacro? : Item → Option String
  | .define name (some _) => some name
  | _ => none

/-- A number of a table as an int of 32 bits, in two's complement. -/
def asInt (n : Nat) : Int := (BitVec.ofNat 32 n).toInt

theorem asInt_eq {n : Nat} (word : n < 2 ^ 32) :
    asInt n = if n < 2 ^ 31 then (n : Int) else n - 2 ^ 32 := by
  rw [asInt, BitVec.toInt_eq_toNat_cond, BitVec.toNat_ofNat, Nat.mod_eq_of_lt word]
  split <;> split <;> omega

theorem asInt_inj {m n : Nat} (wordM : m < 2 ^ 32) (wordN : n < 2 ^ 32) : asInt m = asInt n ↔ m = n := by
  rw [asInt_eq wordM, asInt_eq wordN]
  split <;> split <;> omega

theorem asInt_eq_neg_one_iff {n : Nat} (word : n < 2 ^ 32) : asInt n = -1 ↔ n = 2 ^ 32 - 1 := by
  rw [asInt_eq word]
  split <;> omega

end ScannerGen.Code

namespace ScannerGen.Emit

open Code

/-! ## Names -/

theorem valueMacros_userText (text : Option String) : (userText text).filterMap Item.valueMacro? = [] := by
  cases text <;> rfl

theorem valueMacros_tokenCodes (tokens : TokenTable) :
    (tokenCodes tokens).filterMap Item.valueMacro? =
      "TOK_EOF" :: tokens.tokens.map Token.constant ++ ["TOK_JAM"] := by
  simp [tokenCodes, Item.valueMacro?, Function.comp_def]

theorem valueMacros_reentrantPrototypes (options : Options) :
    (reentrantPrototypes options).filterMap Item.valueMacro? = [] := by
  have accessors : ((extraDeclarators options).flatMap fun d =>
      [Item.prototype (getter d), .prototype (setter d)]).filterMap Item.valueMacro? = [] := by
    rw [List.filterMap_flatMap]
    exact List.flatMap_eq_nil_iff.2 fun _ _ => rfl
  have extra : (if options.extra = [] then [] else [Item.prototype (initExtraSignature options)]).filterMap
      Item.valueMacro? = [] := by
    split <;> rfl
  simp only [reentrantPrototypes, List.filterMap_append, accessors, extra]
  rfl

theorem valueMacros_globalPrototypes (options : Options) :
    (globalPrototypes options).filterMap Item.valueMacro? = [] := by
  simp [globalPrototypes, Item.valueMacro?, List.filterMap_cons, Function.comp_def]

/-- The macros with a value in a header are the codes. -/
theorem headerMacros (base : String) (tokens : TokenTable) (options : Options) :
    (headerItems base tokens options).filterMap Item.valueMacro? =
      "TOK_EOF" :: tokens.tokens.map Token.constant ++ ["TOK_JAM"] := by
  have declared : (if options.reentrant then handleType ++ [.blank] ++ reentrantPrototypes options
      else globalPrototypes options).filterMap Item.valueMacro? = [] := by
    split
    · rw [List.filterMap_append, valueMacros_reentrantPrototypes]
      rfl
    · exact valueMacros_globalPrototypes options
  simp only [headerItems, List.filterMap_append, valueMacros_userText, valueMacros_tokenCodes, declared]
  simp [Item.valueMacro?, List.filterMap_cons]

theorem constant_eq_iff {t : Token} {name : String} : t.constant = "TOK_" ++ name ↔ t.ident = name :=
  String.append_right_inj "TOK_"

/-- The macros for codes in a header, which are those that it defines with a value, are different exactly if no
token is called like the end of input or a jam.  The macro that guards the header has no value and is not
among them, and neither is that of the handle's type. -/
theorem nodup_headerMacros_iff {ds : List Declaration} {tokens : TokenTable}
    (settled : settle ds = .ok tokens) (base : String) (options : Options) :
    ((headerItems base tokens options).filterMap Item.valueMacro?).Nodup ↔
      ∀ t ∈ tokens.tokens, t.ident ≠ "EOF" ∧ t.ident ≠ "JAM" := by
  have distinct : (tokens.tokens.map Token.constant).Nodup := by
    have tagged : tokens.tokens.map Token.constant = (tokens.tokens.map Token.ident).map ("TOK_" ++ ·) :=
      List.map_map.symm
    rw [tagged]
    exact (TokenTable.nodup_idents settled).map fun _ _ => (String.append_right_inj "TOK_").1
  have eof : ∀ t : Token, t.constant = "TOK_EOF" ↔ t.ident = "EOF" := fun t =>
    (by decide : "TOK_" ++ "EOF" = "TOK_EOF") ▸ constant_eq_iff
  have jam : ∀ t : Token, t.constant = "TOK_JAM" ↔ t.ident = "JAM" := fun t =>
    (by decide : "TOK_" ++ "JAM" = "TOK_JAM") ▸ constant_eq_iff
  rw [headerMacros]
  simp [List.nodup_append, distinct, eof, jam, forall_and]

/-- A keyword, with an identifier and an id if there are any. -/
def keyword (ident : Option String) (id : Option Nat) : Declaration :=
  { Declaration.ofCategory .keyword (some "a") .api with ident, id }

theorem nodup_headerMacros_iff_keyword :
    ∃ tokens, settle [keyword none none] = .ok tokens ∧
      ((headerItems "lexer" tokens .default).filterMap Item.valueMacro?).Nodup :=
  have settled : settle [keyword none none] =
      .ok ⟨[⟨0, 0, some "a", .keyword, "KEYWORD", 1, none, false, .api⟩]⟩ := by decide
  ⟨_, settled, (nodup_headerMacros_iff settled "lexer" .default).2 (by decide)⟩

/-- A token may be called like the end of input, and its header then defines one macro twice. -/
theorem endOfInput_redefined :
    ∃ tokens, settle [keyword (some "EOF") none] = .ok tokens ∧
      ¬ ((headerItems "lexer" tokens .default).filterMap Item.valueMacro?).Nodup := by
  refine ⟨⟨[⟨0, 0, some "a", .keyword, "EOF", 1, none, false, .api⟩]⟩, by decide, ?_⟩
  rw [headerMacros]
  decide

/-! ## Codes -/

/-- Different words of 32 bits are different ints, and only the greatest one is minus one. -/
theorem nodup_asInt_iff {ids : List Nat} (distinct : ids.Nodup) (words : ∀ id ∈ ids, id < 2 ^ 32) :
    (-1 :: ids.map asInt).Nodup ↔ 2 ^ 32 - 1 ∉ ids := by
  have ints : (ids.map asInt).Nodup :=
    List.Nodup.map_on
      (fun m memberM n memberN => (asInt_inj (words m memberM) (words n memberN)).1) distinct
  have jam : -1 ∈ ids.map asInt ↔ 2 ^ 32 - 1 ∈ ids := by
    constructor
    · intro member
      obtain ⟨id, among, same⟩ := List.mem_map.1 member
      rwa [← (asInt_eq_neg_one_iff (words id among)).1 same]
    · exact fun member => List.mem_map.2 ⟨_, member, by decide⟩
  rw [List.nodup_cons, jam, and_iff_left ints]

/-- Ints hold the codes exactly if no greater one is declared, and the codes are different ints, also
from that of a jam, exactly if the greatest word is not declared. -/
theorem tokenIds_fit_iff {ds : List Declaration} {tokens : TokenTable}
    (settled : settle ds = .ok tokens) (words : ∀ id ∈ ds.filterMap Declaration.id, id < 2 ^ 32)
    (few : ds.length < 2 ^ 31) :
    ((∀ id ∈ tokenIds tokens, id < NumberType.int.capacity) ↔
      ∀ id ∈ ds.filterMap Declaration.id, id < 2 ^ 31) ∧
    ((-1 :: (tokenIds tokens).map asInt).Nodup ↔ 2 ^ 32 - 1 ∉ ds.filterMap Declaration.id) := by
  have mem_iff : ∀ id, id ∈ tokenIds tokens ↔
      id = 0 ∨ id ∈ ds.filterMap Declaration.id ∨ id ∈ handedOut ds := fun id => by
    rw [tokenIds, List.mem_cons, TokenTable.mem_ids_iff settled]
  have small : ∀ id ∈ handedOut ds, id < 2 ^ 31 := fun id among =>
    Nat.lt_of_le_of_lt (le_length_of_mem_handedOut among) few
  have distinct : (tokenIds tokens).Nodup := TokenTable.nodup_ids settled
  constructor
  · constructor
    · exact fun fit id declared => fit id ((mem_iff id).2 (.inr (.inl declared)))
    · intro fit id member
      rcases (mem_iff id).1 member with rfl | declared | given
      · decide
      · exact fit id declared
      · exact small id given
  · -- Ids that are handed out are too small to be the greatest word.
    rw [nodup_asInt_iff distinct, mem_iff]
    · have given : 2 ^ 32 - 1 ∉ handedOut ds := fun among => absurd (small _ among) (by decide)
      rw [or_iff_right (by decide), or_iff_left given]
    · intro id member
      rcases (mem_iff id).1 member with rfl | declared | given
      · decide
      · exact words id declared
      · exact (small id given).trans (by decide)

theorem tokenIds_fit_iff_keywords :
    ∃ tokens, settle [keyword (some "IF") (some 7), keyword (some "ELSE") none] = .ok tokens ∧
      (∀ id ∈ tokenIds tokens, id < NumberType.int.capacity) ∧
      (-1 :: (tokenIds tokens).map asInt).Nodup :=
  have settled : settle [keyword (some "IF") (some 7), keyword (some "ELSE") none] =
      .ok ⟨[⟨0, 0, some "a", .keyword, "IF", 7, none, false, .api⟩,
        ⟨1, 1, some "a", .keyword, "ELSE", 1, none, false, .api⟩]⟩ := by decide
  have codes := tokenIds_fit_iff settled (by decide) (by decide)
  ⟨_, settled, codes.1.2 (by decide), codes.2.2 (by decide)⟩

/-- The greatest word passes as an id, and is the code of a jam as an int. -/
theorem jam_redeclared :
    ∃ tokens, settle [keyword none (some 4294967295)] = .ok tokens ∧
      (¬ ∀ id ∈ tokenIds tokens, id < NumberType.int.capacity) ∧
      ¬ (-1 :: (tokenIds tokens).map asInt).Nodup :=
  ⟨⟨[⟨0, 0, some "a", .keyword, "KEYWORD", 4294967295, none, false, .api⟩]⟩,
    by decide, by decide, by decide⟩

end ScannerGen.Emit
