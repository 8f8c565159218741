import ScannerGen.Proofs.Code.Definitions
import ScannerGen.Proofs.Hooks.Sessions
import ScannerGen.Proofs.Text.Utf8
import ScannerGen.Proofs.Text.Words
import ScannerGen.Proofs.Token.Categories
import ScannerGen.Proofs.Token.Distinct

/-!
# What a token id file says

A token id file has a line for each token and then a line for each category.  Identifiers and numerals are
words, and what stands between them cannot be part of a word, so the lines can be read in only one way.
Two tables with the same file have the same identifiers and ids, in the same order and by the same
categories.

* `TokenIdFile.fileText` — the text of the file; `TokenIdFile.exists_run_runHooks` says that the hook leaves
  it in the file.
* `TokenIdFile.pair_append_inj`, `TokenIdFile.groupLines_inj`, `TokenIdFile.lines_inj` — what the lines
  are made of can be read from them.
* `TokenIdFile.contents_determine` — the file and the lists by category.
-/

namespace ScannerGen

namespace TokenIdFile

open Code (isWord_of_isIdentifier)

/-! ## Words and marks -/

/-- An identifier that is followed by a blank or a quote. -/
theorem identifier_append_inj {name name' : String} {rest rest' : List Char}
    (identifier : Ascii.isIdentifier name = true) (identifier' : Ascii.isIdentifier name' = true)
    (ends : ∀ c ∈ rest.head?, Code.isWordChar c = false) (ends' : ∀ c ∈ rest'.head?, Code.isWordChar c = false)
    (same : name.toList ++ rest = name'.toList ++ rest') : name = name' ∧ rest = rest' := by
  obtain ⟨chars, others⟩ := word_append_inj (isWord_of_isIdentifier identifier).2
    (isWord_of_isIdentifier identifier').2 ends ends' same
  exact ⟨String.toList_inj.1 chars, others⟩

theorem isIdentifier_name (c : Category) : Ascii.isIdentifier c.name = true := by
  cases c <;> decide

theorem name_injective : Function.Injective Category.name := by
  intro c d same
  cases c <;> cases d <;> first | rfl | exact absurd same (by decide)

/-! ## Lines of categories -/

theorem toList_pairText (pair : String × Nat) :
    (pairText pair).toList = "[\"".toList ++ (pair.1.toList ++ ("\", ".toList ++ ((toString pair.2).toList ++ "]".toList))) := by
  show ("[\"" ++ pair.1 ++ "\", " ++ toString pair.2 ++ "]").toList = _
  simp

/-- A pair says what it is made of, whatever follows. -/
theorem pair_append_inj {pair pair' : String × Nat} {rest rest' : List Char}
    (identifier : Ascii.isIdentifier pair.1 = true) (identifier' : Ascii.isIdentifier pair'.1 = true)
    (same : (pairText pair).toList ++ rest = (pairText pair').toList ++ rest') : pair = pair' ∧ rest = rest' := by
  simp only [toList_pairText, List.append_assoc, List.append_cancel_left_eq] at same
  obtain ⟨name, afterName⟩ := identifier_append_inj identifier identifier' (ends_append (by decide) _)
    (ends_append (by decide) _) same
  obtain ⟨id, afterId⟩ := numeral_append_inj (ends_append (by decide) _) (ends_append (by decide) _)
    (List.append_cancel_left afterName)
  exact ⟨Prod.ext name id, List.append_cancel_left afterId⟩

/-- Further pairs of a list, with commas in front of them. -/
def morePairs (pairs : List (String × Nat)) : List Char :=
  pairs.flatMap fun pair => ", ".toList ++ (pairText pair).toList

theorem toList_intercalate_cons (pair : String × Nat) (pairs : List (String × Nat)) :
    (", ".intercalate ((pair :: pairs).map pairText)).toList = (pairText pair).toList ++ morePairs pairs := by
  rw [String.toList_intercalate]
  induction pairs generalizing pair with
  | nil => simp [morePairs]
  | cons next pairs ih =>
    simp only [List.map_cons] at ih ⊢
    rw [List.intercalate_cons_cons, ih next]
    simp [morePairs]

/-- Where a list of pairs ends is told by the bracket behind it. -/
theorem morePairs_append_inj {pairs pairs' : List (String × Nat)} {rest rest' : List Char}
    (identifiers : ∀ pair ∈ pairs, Ascii.isIdentifier pair.1 = true)
    (identifiers' : ∀ pair ∈ pairs', Ascii.isIdentifier pair.1 = true)
    (same : morePairs pairs ++ ("]\n".toList ++ rest) = morePairs pairs' ++ ("]\n".toList ++ rest')) :
    pairs = pairs' ∧ rest = rest' := by
  -- A bracket is not a comma, so neither list ends before the other one does.
  induction pairs generalizing pairs' with
  | nil =>
    cases pairs' with
    | nil => exact ⟨rfl, List.append_cancel_left same⟩
    | cons pair' pairs' => simp [morePairs] at same
  | cons pair pairs ih =>
    cases pairs' with
    | nil => simp [morePairs] at same
    | cons pair' pairs' =>
      obtain ⟨identifier, others⟩ := List.forall_mem_cons.1 identifiers
      obtain ⟨identifier', others'⟩ := List.forall_mem_cons.1 identifiers'
      simp only [morePairs, List.flatMap_cons, List.append_assoc, List.append_cancel_left_eq] at same
      obtain ⟨rfl, behind⟩ := pair_append_inj identifier identifier' same
      obtain ⟨rfl, after⟩ := ih others others' behind
      exact ⟨rfl, after⟩

theorem pairs_append_inj {pairs pairs' : List (String × Nat)} {rest rest' : List Char}
    (identifiers : ∀ pair ∈ pairs, Ascii.isIdentifier pair.1 = true)
    (identifiers' : ∀ pair ∈ pairs', Ascii.isIdentifier pair.1 = true)
    (same : (", ".intercalate (pairs.map pairText)).toList ++ ("]\n".toList ++ rest) =
      (", ".intercalate (pairs'.map pairText)).toList ++ ("]\n".toList ++ rest')) :
    pairs = pairs' ∧ rest = rest' := by
  cases pairs with
  | nil =>
    cases pairs' with
    | nil => exact ⟨rfl, List.append_cancel_left same⟩
    | cons pair' pairs' => simp [toList_pairText] at same
  | cons pair pairs =>
    cases pairs' with
    | nil => simp [toList_pairText] at same
    | cons pair' pairs' =>
      obtain ⟨identifier, others⟩ := List.forall_mem_cons.1 identifiers
      obtain ⟨identifier', others'⟩ := List.forall_mem_cons.1 identifiers'
      rw [toList_intercalate_cons, toList_intercalate_cons, List.append_assoc, List.append_assoc] at same
      obtain ⟨rfl, more⟩ := pair_append_inj identifier identifier' same
      obtain ⟨rfl, after⟩ := morePairs_append_inj others others' more
      exact ⟨rfl, after⟩

/-! ## All lines -/

/-- The characters of lines. -/
def lineChars (lines : List (List String)) : List Char := lines.flatten.flatMap String.toList

theorem lineChars_categories_cons (group : Category × List (String × Nat)) (ids : CategoryIds) :
    lineChars ((group :: ids).map categoryLine) =
      group.1.name.toList ++ (" : [".toList ++ ((", ".intercalate (group.2.map pairText)).toList ++
        ("]\n".toList ++ lineChars (ids.map categoryLine)))) := by
  simp [lineChars, categoryLine]

theorem lineChars_tokens_cons (t : Token) (tokens : List Token) :
    lineChars ((t :: tokens).map tokenLine) =
      t.ident.toList ++ (" = ".toList ++ ((toString t.id).toList ++ ("\n".toList ++ lineChars (tokens.map tokenLine)))) := by
  simp [lineChars, tokenLine]

/-- All identifiers in lists by category are some. -/
def Named (ids : CategoryIds) : Prop := ∀ group ∈ ids, ∀ pair ∈ group.2, Ascii.isIdentifier pair.1 = true

/-- The lines of categories determine the lists. -/
theorem groupLines_inj {ids ids' : CategoryIds} (named : Named ids) (named' : Named ids')
    (same : lineChars (ids.map categoryLine) = lineChars (ids'.map categoryLine)) : ids = ids' := by
  induction ids generalizing ids' with
  | nil =>
    cases ids' with
    | nil => rfl
    | cons group' ids' => simp [lineChars, categoryLine] at same
  | cons group ids ih =>
    cases ids' with
    | nil => simp [lineChars, categoryLine] at same
    | cons group' ids' =>
      obtain ⟨first, others⟩ := List.forall_mem_cons.1 named
      obtain ⟨first', others'⟩ := List.forall_mem_cons.1 named'
      rw [lineChars_categories_cons, lineChars_categories_cons] at same
      obtain ⟨name, afterName⟩ := identifier_append_inj (isIdentifier_name _) (isIdentifier_name _)
        (ends_append (by decide) _) (ends_append (by decide) _) same
      obtain ⟨pairs, behind⟩ := pairs_append_inj first first' (List.append_cancel_left afterName)
      rw [ih others others' behind, Prod.ext (name_injective name) pairs]

/-- Lines of categories do not begin like that of a token, which has an equals sign behind its first word, where
that of a category has a colon. -/
theorem lineChars_categories_ne {t : Token} (identifier : Ascii.isIdentifier t.ident = true) (tokens : List Token)
    (ids more : CategoryIds) :
    lineChars (more.map categoryLine) ≠
      lineChars ((t :: tokens).map tokenLine) ++ lineChars (ids.map categoryLine) := by
  intro same
  cases more with
  | nil => simp [lineChars, tokenLine] at same
  | cons group more =>
    simp only [lineChars_categories_cons, lineChars_tokens_cons, List.append_assoc] at same
    obtain ⟨_, behind⟩ := identifier_append_inj (isIdentifier_name _) identifier (ends_append (by decide) _)
      (ends_append (by decide) _) same
    simp at behind

/-- The lines of tokens and of categories determine identifiers and ids, and the lists by category. -/
theorem lines_inj {tokens tokens' : List Token} {ids ids' : CategoryIds}
    (identifiers : ∀ t ∈ tokens, Ascii.isIdentifier t.ident = true)
    (identifiers' : ∀ t ∈ tokens', Ascii.isIdentifier t.ident = true) (named : Named ids) (named' : Named ids')
    (same : lineChars (tokens.map tokenLine) ++ lineChars (ids.map categoryLine) =
      lineChars (tokens'.map tokenLine) ++ lineChars (ids'.map categoryLine)) :
    tokens.map Token.entry = tokens'.map Token.entry ∧ ids = ids' := by
  induction tokens generalizing tokens' with
  | nil =>
    cases tokens' with
    | nil => exact ⟨rfl, groupLines_inj named named' same⟩
    | cons t' tokens' =>
      have identifier' := identifiers' t' List.mem_cons_self
      exact absurd same (lineChars_categories_ne identifier' tokens' ids' ids)
  | cons t tokens ih =>
    cases tokens' with
    | nil =>
      have identifier := identifiers t List.mem_cons_self
      exact absurd same.symm (lineChars_categories_ne identifier tokens ids ids')
    | cons t' tokens' =>
      obtain ⟨identifier, others⟩ := List.forall_mem_cons.1 identifiers
      obtain ⟨identifier', others'⟩ := List.forall_mem_cons.1 identifiers'
      simp only [lineChars_tokens_cons, List.append_assoc] at same
      obtain ⟨name, afterName⟩ := identifier_append_inj identifier identifier' (ends_append (by decide) _)
        (ends_append (by decide) _) same
      obtain ⟨id, afterId⟩ := numeral_append_inj (ends_append (by decide) _) (ends_append (by decide) _)
        (List.append_cancel_left afterName)
      obtain ⟨entries, groups⟩ := ih others others' (List.append_cancel_left afterId)
      exact ⟨List.cons_eq_cons.2 ⟨Prod.ext name id, entries⟩, groups⟩

/-! ## The text of the file -/

/-- The lines of the tokens and then those of the categories. -/
def fileText (tokens : TokenTable) : String :=
  String.join (tokens.tokens.map tokenLine ++ tokens.categoryIds.map categoryLine).flatten

theorem toList_fileText (tokens : TokenTable) :
    (fileText tokens).toList =
      lineChars (tokens.tokens.map tokenLine) ++ lineChars (tokens.categoryIds.map categoryLine) := by
  simp [fileText, lineChars, String.toList_join]

theorem utf8_fileText (tokens : TokenTable) :
    utf8 (fileText tokens) = callBytes (.tokens tokens) ++ callBytes (.tokenIds tokens.categoryIds) := by
  rw [utf8, toList_fileText, List.flatMap_append]
  simp only [lineChars, List.flatMap_assoc]
  rfl

/-- The lists of settled tokens hold their identifiers. -/
theorem named_categoryIds {ds : List Declaration} {tokens : TokenTable} (settled : settle ds = .ok tokens) :
    Named tokens.categoryIds := by
  intro group listed pair member
  rw [tokens.groups_categoryIds.entries group listed] at member
  obtain ⟨t, among, rfl⟩ := List.mem_map.1 member
  exact TokenTable.isIdentifier_of_settled settled (List.mem_filter.1 among).1

theorem fileText_eq_iff {ds ds' : List Declaration} {tokens tokens' : TokenTable}
    (settled : settle ds = .ok tokens) (settled' : settle ds' = .ok tokens') :
    fileText tokens = fileText tokens' ↔
      tokens.tokens.map Token.entry = tokens'.tokens.map Token.entry ∧
        tokens.categoryIds = tokens'.categoryIds := by
  rw [← String.toList_inj, toList_fileText, toList_fileText]
  constructor
  · apply lines_inj
    · exact fun t member => TokenTable.isIdentifier_of_settled settled member
    · exact fun t member => TokenTable.isIdentifier_of_settled settled' member
    · exact named_categoryIds settled
    · exact named_categoryIds settled'
  · rintro ⟨entries, groups⟩
    -- The line of a token says its identifier and its id, and nothing else of it.
    have lines : ∀ tokens : List Token, tokens.map tokenLine =
        (tokens.map Token.entry).map fun entry => [entry.1, " = ", toString entry.2, "\n"] := by
      intro tokens
      rw [List.map_map]
      rfl
    rw [lines, lines, entries, groups]

/-! ## What the hook leaves -/

section Left

variable {working : Location} {p : Path} {l : Location} {fs : FileSystem working}

/-- Run on tokens, the hook succeeds, and leaves their text in the file and all else as it was. -/
theorem exists_run_runHooks (found : fs.fileLocation p = .ok l) (tokens : TokenTable) :
    ∃ fs', ((runHooks [hook p] tokens : StateT (Option Writer) (StateM (FileSystem working)) _).run none).run fs =
        ((.ok (), none), fs') ∧
      Holds fs l (utf8 (fileText tokens)) fs' := by
  -- Each call leaves the writer and the files in step with the session, and the session has all the text.
  have before : Follows fs l none none fs := .unopened
  obtain ⟨w₁, fs₁, opened, follows₁⟩ := before.exists_run_opening found
  obtain ⟨w₂, fs₂, toldTokens, follows₂⟩ :=
    follows₁.exists_run_of_isOpen found (⟨nofun, nofun⟩ : HookCall.Informs (.tokens tokens)) rfl
  obtain ⟨w₃, fs₃, toldIds, follows₃⟩ :=
    follows₂.exists_run_of_isOpen found (⟨nofun, nofun⟩ : HookCall.Informs (.tokenIds tokens.categoryIds)) rfl
  obtain ⟨w₄, fs₄, closed, follows₄⟩ := follows₃.exists_run_closing found
  have follows : Follows fs l (some ⟨false, utf8 (fileText tokens), []⟩) w₄ fs₄ := by
    rw [utf8_fileText]
    exact follows₄
  cases follows with
  | @closed under _ _ _ holds length =>
    -- The file was made empty when it was opened, and so nothing is left of what was in it.
    have whole : covered (utf8 (fileText tokens)) under = utf8 (fileText tokens) :=
      covered_eq_left_iff.2 (length ▸ Nat.zero_le _)
    rw [whole] at holds
    refine ⟨fs₄, ?_, holds⟩
    have told :
        (((hook p).answerAll (informing tokens) : StateT _ (StateM (FileSystem working)) _).run w₁).run fs₁ =
          ((.ok (), w₃), fs₃) := by
      simp only [informing, Hook.answerAll, hook]
      rw [run_run_bind toldTokens, run_run_bind toldIds]
      rfl
    rw [runHooks_singleton]
    show (((answer p .opening : StateT _ (StateM (FileSystem working)) _) >>= _).run none).run fs = _
    rw [run_run_bind opened, run_run_bind told]
    show (((answer p .closing : StateT _ (StateM (FileSystem working)) _) >>= _).run w₃).run fs₃ = _
    rw [run_run_bind closed]
    rfl

end Left

/-- The lists by category are those of the tokens, which stand in the order of their declarations, and the
file holds just the text of both.  Two tables leave the same file exactly if they have the same identifiers
and ids in the same order and the same lists by category. -/
theorem contents_determine {ds ds' : List Declaration} {tokens tokens' : TokenTable}
    (settled : settle ds = .ok tokens) (settled' : settle ds' = .ok tokens') {working : Location} {p : Path}
    {l : Location} {fs : FileSystem working} (found : fs.fileLocation p = .ok l) :
    let left (tokens : TokenTable) :=
      ((runHooks [hook p] tokens : StateT (Option Writer) (StateM (FileSystem working)) _).run none).run fs
    tokens.tokens.map Token.ident = ds.map Declaration.resolvedIdent ∧
      CategoryIds.Groups tokens.tokens tokens.categoryIds ∧
      (left tokens).1.1 = .ok () ∧ (left tokens).2.get? l = some (.file (utf8 (fileText tokens))) ∧
      ((left tokens).2.get? l = (left tokens').2.get? l ↔
        tokens.tokens.map Token.entry = tokens'.tokens.map Token.entry ∧
          tokens.categoryIds = tokens'.categoryIds) := by
  intro left
  obtain ⟨after, ran, holds⟩ := exists_run_runHooks found tokens
  obtain ⟨after', ran', holds'⟩ := exists_run_runHooks found tokens'
  refine ⟨TokenTable.map_ident_of_settled settled, tokens.groups_categoryIds, ?_, ?_, ?_⟩
  · simp only [left, ran]
  · simp only [left, ran, holds.file]
  · simp only [left, ran, ran', holds.file, holds'.file, Option.some.injEq, Entry.file.injEq]
    rw [utf8_injective.eq_iff, fileText_eq_iff settled settled']

/-- A declaration with a category and an identifier. -/
def declared (category : Category) (ident : String) : Declaration :=
  { Declaration.ofCategory category (some "a") .api with ident := some ident }

/-- Two operators around a constant are listed together, and the file tells them from one operator before two
constants. -/
theorem contents_determine_interleaved :
    ∃ tokens tokens',
      settle [declared .op "PLUS", declared .const "ZERO", declared .op "MINUS"] = .ok tokens ∧
      settle [declared .op "PLUS", declared .const "ZERO", declared .const "MINUS"] = .ok tokens' ∧
      let left (tokens : TokenTable) :=
        ((runHooks [hook ⟨"ids"⟩] tokens :
          StateT (Option Writer) (StateM (FileSystem ["home"])) _).run none).run ⟨[]⟩
      CategoryIds.Groups tokens.tokens [(.op, [("PLUS", 1), ("MINUS", 3)]), (.const, [("ZERO", 2)])] ∧
      (left tokens).2.get? ["home", "ids"] = some (.file (utf8
        "PLUS = 1\nZERO = 2\nMINUS = 3\nop : [[\"PLUS\", 1], [\"MINUS\", 3]]\nconst : [[\"ZERO\", 2]]\n")) ∧
      (left tokens).2.get? ["home", "ids"] ≠ (left tokens').2.get? ["home", "ids"] := by
  have settled : settle [declared .op "PLUS", declared .const "ZERO", declared .op "MINUS"] =
      .ok ⟨[⟨0, 0, some "a", .op, "PLUS", 1, none, false, .api⟩,
        ⟨1, 1, some "a", .const, "ZERO", 2, none, false, .api⟩,
        ⟨2, 2, some "a", .op, "MINUS", 3, none, false, .api⟩]⟩ := by decide
  have settled' : settle [declared .op "PLUS", declared .const "ZERO", declared .const "MINUS"] =
      .ok ⟨[⟨0, 0, some "a", .op, "PLUS", 1, none, false, .api⟩,
        ⟨1, 1, some "a", .const, "ZERO", 2, none, false, .api⟩,
        ⟨2, 2, some "a", .const, "MINUS", 3, none, false, .api⟩]⟩ := by decide
  have found : (⟨[]⟩ : FileSystem ["home"]).fileLocation ⟨"ids"⟩ = .ok ["home", "ids"] := by decide +kernel
  obtain ⟨_, groups, _, file, same⟩ := contents_determine settled settled' found
  refine ⟨_, _, settled, settled', groups, ?_, ?_⟩
  · rw [file]
    decide +kernel
  · intro equal
    exact absurd (same.1 equal).2 (by decide)

end TokenIdFile

end ScannerGen
