import ScannerGen.Proofs.Code.Definitions
import ScannerGen.Proofs.Generate
import ScannerGen.Proofs.Tables.Dump
import ScannerGen.Proofs.Token.Distinct

/-!
# Arrays of tables

The constant arrays of a source say what the tables and tokens of the scanner say.  They are read with the
reader of C definitions, out of the part of the source that holds them.

* `Definition.HasExtents`, `Definition.UnsignedFits` — arrays are as long as they are declared, and their
  unsigned numbers fit into the declared types.
* `Tables.Of` — the tables belong to the tokens.
* `Emit.tableDefinitions` — what the arrays have to say.
* `Emit.declares_sizes`, `Emit.declares_arrays` — the emitted items are read as that.
* `tables_readBack` — so are those of every scanner that is generated.
-/

namespace ScannerGen

namespace Code

/-! ## Declared lengths and types -/

def Definition.name : Definition → String
  | constant name _ | numbers _ name _ _ | rows _ name _ _ _ | strings name _ _ => name

/-- The value of a macro, if the definition is that of the macro. -/
def Definition.valueOf? (name : String) : Definition → Option Nat
  | constant known value => if known = name then some value else none
  | _ => none

/-- The number that a dimension stands for among definitions. -/
def Extent.value? (ds : List Definition) : Extent → Option Nat
  | number n => some n
  | name known => ds.findSome? (Definition.valueOf? known)

/-- The dimensions of an array are the numbers of its values. -/
def Definition.HasExtents (ds : List Definition) : Definition → Prop
  | constant _ _ => True
  | numbers _ _ extent values => extent.value? ds = some values.length
  | rows _ _ height width values =>
    height.value? ds = some values.length ∧ ∀ row ∈ values, width.value? ds = some row.length
  | strings _ extent values => extent.value? ds = some values.length

/-- The type of an array, if it is unsigned, holds all its numbers. -/
def Definition.UnsignedFits : Definition → Prop
  | numbers type _ _ values => type ≠ .int → ∀ n ∈ values, n < type.capacity
  | rows type _ _ _ values => type ≠ .int → ∀ row ∈ values, ∀ n ∈ row, n < type.capacity
  | _ => True

theorem lt_capacity_ofGreatest {greatest n : Nat} (le : n ≤ greatest) (word : n < 2 ^ 32) :
    n < (NumberType.ofGreatest greatest).capacity := by
  rw [NumberType.ofGreatest]
  split
  · simp only [NumberType.capacity]
    omega
  · split
    · simp only [NumberType.capacity]
      omega
    · exact word

end Code

/-! ## Tables of tokens -/

/-- The tables are consistent, have no more classes than there are bytes, and speak of the tokens and of
all of them. -/
structure Tables.Of (tables : Tables) (tokens : TokenTable) : Prop where
  consistent : tables.Consistent
  classCount_le : tables.classCount ≤ 256
  token_lt : ∀ token, some token ∈ tables.tokenMap → token < tokens.size
  endsLines_size : tables.endsLines.size = tokens.size

namespace Tables.Consistent

variable {tables : Tables} (consistent : tables.Consistent)
include consistent

theorem classCount_pos : 0 < tables.classCount := by
  have listed : tables.classOf[0] ∈ tables.classOf.toList := Vector.mem_toList_iff.2 (Vector.getElem_mem _)
  exact Nat.zero_lt_of_lt (consistent.class_lt _ listed)

theorem stateCount_pos : 0 < tables.stateCount := Nat.zero_lt_of_lt consistent.start_lt

theorem rows_ne_nil : tables.next.toList.map Array.toList ≠ [] := by
  refine List.ne_nil_of_length_pos ?_
  rw [List.length_map, Array.length_toList]
  exact consistent.stateCount_pos

theorem length_row {row : List Nat} (member : row ∈ tables.next.toList.map Array.toList) :
    row.length = tables.classCount := by
  obtain ⟨successors, listed, rfl⟩ := List.mem_map.1 member
  exact consistent.row_size successors (Array.mem_toList_iff.1 listed)

theorem row_ne_nil (row : List Nat) (member : row ∈ tables.next.toList.map Array.toList) : row ≠ [] :=
  List.ne_nil_of_length_pos (consistent.length_row member ▸ consistent.classCount_pos)

end Tables.Consistent

theorem Tables.of_build {tokens : TokenTable} {macros : MacroTable} {minimize : Bool} {built : Built}
    (succeeded : build tokens macros minimize = .ok built) : built.tables.Of tokens := by
  obtain ⟨dfa, endsLines, wellFormed, winners, tables⟩ := exists_dfa_of_build succeeded
  refine ⟨tables ▸ consistent_ofDfa wellFormed endsLines, ?_, fun token member => ?_, ?_⟩
  · rw [tables, classCount_ofDfa]
    exact size_le_256 dfa.column
  · rw [tables, ofDfa] at member
    obtain ⟨state, listed, wins⟩ := Array.mem_map.1 member
    obtain ⟨s, place⟩ := Array.mem_iff_getElem?.1 listed
    refine winners s token ?_
    rw [Dfa.token?, place]
    exact wins
  · obtain ⟨trees, read, rfl⟩ := build_eq_ok_iff.1 succeeded
    rw [ofTrees, ofDfa, Array.size_map, List.size_toArray]
    exact (TokenTable.forall₂_of_mapM_eq_ok read).length_eq.symm

namespace Emit

open Code

/-- The number that stands for a token or for no token. -/
def acceptNumber : Option Nat → Nat
  | some token => token + 1
  | none => 0

/-- What the macros of a source say. -/
def sizeDefinitions (tables : Tables) (tokens : TokenTable) : List Definition :=
  [.constant "YY_NUM_STATES" tables.stateCount,
   .constant "YY_NUM_CLASSES" tables.classCount,
   .constant "YY_NUM_TOKENS" tokens.size,
   .constant "YY_JAM_STATE" tables.reject,
   .constant "YY_START_STATE" tables.start]

/-- What the arrays of a source say: the byte classes, the successors of each state, the tokens of the
states with zero for no token, and the flags, ids and names of the tokens behind those of the end of
input. -/
def arrayDefinitions (tables : Tables) (tokens : TokenTable) (options : Options) : List Definition :=
  [.numbers (.ofGreatest tables.classCount) "yy_ec" (.number 256) tables.classOf.toList,
   .rows (.ofGreatest tables.stateCount) "yy_nxt" (.name "YY_NUM_STATES") (.name "YY_NUM_CLASSES")
     (tables.next.toList.map Array.toList),
   .numbers (.ofGreatest tokens.size) "yy_accept" (.number tables.stateCount)
     (tables.tokenMap.toList.map acceptNumber),
   .numbers .unsignedChar "yy_skip" (.number (tokens.size + 1))
     (0 :: tokens.tokens.map fun t => t.ignored.toNat)] ++
    ((if options.lineno then
      [.numbers .unsignedChar "yy_eol" (.number (tokens.size + 1))
        (0 :: tables.endsLines.toList.map Bool.toNat)] else []) ++
    [.numbers .int "yy_token_id" (.number (tokens.size + 1)) (0 :: tokens.tokens.map Token.id),
     .strings "yy_token_name" (.number (tokens.size + 1)) ("TOK_EOF" :: tokens.tokens.map Token.constant)])

def tableDefinitions (tables : Tables) (tokens : TokenTable) (options : Options) : List Definition :=
  sizeDefinitions tables tokens ++ arrayDefinitions tables tokens options

variable {tables : Tables} {tokens : TokenTable}

theorem actions_eq (consistent : tables.Consistent) :
    actions tables = tables.tokenMap.toList.map acceptNumber := by
  refine List.ext_getElem ?_ fun s inside inside' => ?_
  · simp [actions, consistent.tokenMap_size]
  · have state : s < tables.tokenMap.size := by simpa using inside'
    simp only [actions, List.getElem_map, List.getElem_range, action, Tables.token?,
      Array.getElem?_eq_getElem state, Array.getElem_toList, Option.bind_some]
    cases tables.tokenMap[s] <;> rfl

theorem length_acceptNumbers (consistent : tables.Consistent) :
    (tables.tokenMap.toList.map acceptNumber).length = tables.stateCount := by
  rw [List.length_map, Array.length_toList, consistent.tokenMap_size]

theorem flagValue_eq (flag : Bool) : flagValue flag = flag.toNat := by
  cases flag <;> rfl

theorem lineEnds_eq (sizes : tables.endsLines.size = tokens.size) :
    lineEnds tables tokens = 0 :: tables.endsLines.toList.map Bool.toNat := by
  refine congrArg (0 :: ·) (List.ext_getElem ?_ fun i inside inside' => ?_)
  · simp [sizes]
  · have listed : i < tables.endsLines.size := by simpa using inside'
    simp only [List.getElem_map, List.getElem_range, Tables.endsLine, Array.getElem?_eq_getElem listed,
      Array.getElem_toList, Option.getD_some, flagValue_eq]

theorem skips_eq (tokens : TokenTable) :
    skips tokens = 0 :: tokens.tokens.map fun t => t.ignored.toNat := by
  simp only [skips, flagValue_eq]

theorem plain_tokenNames (identifiers : ∀ t ∈ tokens.tokens, Ascii.isIdentifier t.ident = true) :
    ∀ name ∈ tokenNames tokens, ∀ c ∈ name.toList, Lexer.isPlainChar c = true := by
  refine List.forall_mem_cons.2 ⟨List.all_eq_true.1 (by decide), fun name member => ?_⟩
  obtain ⟨t, listed, rfl⟩ := List.mem_map.1 member
  have inWord := (isWord_of_isIdentifier (identifiers t listed)).2
  have tagged : t.constant.toList = "TOK_".toList ++ t.ident.toList := String.toList_append ..
  rw [tagged]
  exact List.forall_mem_append.2 ⟨List.all_eq_true.1 (by decide), fun c inside =>
    Lexer.isPlainChar_of_isWordChar (inWord c inside)⟩

theorem declares_sizes (tables : Tables) (tokens : TokenTable) {items : List Item} {ds : List Definition}
    (others : Declares (fileText items).toList ds) :
    Declares (fileText (sizes tables tokens ++ items)).toList (sizeDefinitions tables tokens ++ ds) :=
  .item (declares_define (by decide) _) <| .item (declares_define (by decide) _) <|
    .item (declares_define (by decide) _) <| .item (declares_define (by decide) _) <|
      .item (declares_define (by decide) _) <| .blank others

theorem declares_arrays (belong : tables.Of tokens)
    (identifiers : ∀ t ∈ tokens.tokens, Ascii.isIdentifier t.ident = true) (options : Options) :
    Declares (fileText (arrays tables tokens options)).toList
      (arrayDefinitions tables tokens options) := by
  obtain ⟨consistent, _, _, lines⟩ := belong
  have classes : tables.classOf.toList ≠ [] :=
    List.ne_nil_of_length_pos (by rw [Vector.length_toList]; decide)
  have accepts := length_acceptNumbers consistent
  rw [arrays, arrayDefinitions, actions_eq consistent, skips_eq, lineEnds_eq lines, List.append_assoc]
  refine .item (declares_array _ (by decide) Vector.length_toList classes) <| .blank <|
    .item (declares_matrix _ (by decide) (by decide) (by decide) consistent.rows_ne_nil
      consistent.row_ne_nil) <| .blank <|
    .item (declares_array _ (by decide) accepts
      (List.ne_nil_of_length_pos (accepts ▸ consistent.stateCount_pos))) <| .blank <|
    .item (declares_array _ (by decide) ?_ (List.cons_ne_nil _ _)) <| .blank <|
    .itemIf (declares_array _ (by decide) ?_ (List.cons_ne_nil _ _)) <|
    .item (declares_array _ (by decide) ?_ (List.cons_ne_nil _ _)) <| .blank <|
    .item (declares_nameArray (by decide) ?_ (List.cons_ne_nil _ _) (plain_tokenNames identifiers)) <|
    .blank declares_noItems
  · rw [List.length_cons, List.length_map, TokenTable.size]
  · rw [List.length_cons, List.length_map, Array.length_toList, lines]
  · rw [tokenIds, List.length_cons, List.length_map, TokenTable.size]
  · rw [tokenNames, List.length_cons, List.length_map, TokenTable.size]

/-- What holds of each macro and each array holds of all definitions. -/
theorem forall_tableDefinitions {P : Definition → Prop} {options : Options}
    (macros : ∀ name n, P (.constant name n))
    (classes : P (.numbers (.ofGreatest tables.classCount) "yy_ec" (.number 256) tables.classOf.toList))
    (successors : P (.rows (.ofGreatest tables.stateCount) "yy_nxt" (.name "YY_NUM_STATES")
      (.name "YY_NUM_CLASSES") (tables.next.toList.map Array.toList)))
    (accepts : P (.numbers (.ofGreatest tokens.size) "yy_accept" (.number tables.stateCount)
      (tables.tokenMap.toList.map acceptNumber)))
    (flags : ∀ name (flags : List Bool), flags.length = tokens.size →
      P (.numbers .unsignedChar name (.number (tokens.size + 1)) (0 :: flags.map Bool.toNat)))
    (lines : tables.endsLines.size = tokens.size)
    (ids : P (.numbers .int "yy_token_id" (.number (tokens.size + 1)) (0 :: tokens.tokens.map Token.id)))
    (names : P (.strings "yy_token_name" (.number (tokens.size + 1))
      ("TOK_EOF" :: tokens.tokens.map Token.constant))) :
    ∀ d ∈ tableDefinitions tables tokens options, P d := by
  have ignored : (tokens.tokens.map fun t => t.ignored.toNat) =
      (tokens.tokens.map Token.ignored).map Bool.toNat := by
    rw [List.map_map]
    rfl
  -- Both arrays of flags are those of some list of truth values, one for each token.
  intro d member
  simp only [tableDefinitions, sizeDefinitions, arrayDefinitions, List.mem_append, List.mem_cons,
    List.not_mem_nil, or_false] at member
  rcases member with (rfl | rfl | rfl | rfl | rfl) | (rfl | rfl | rfl | rfl) | eol | rfl | rfl
  iterate 5 exact macros _ _
  · exact classes
  · exact successors
  · exact accepts
  · exact ignored ▸ flags _ _ (List.length_map ..)
  · split at eol
    · rw [List.mem_singleton.1 eol]
      exact flags _ _ (by rwa [Array.length_toList])
    · cases eol
  · exact ids
  · exact names

theorem hasExtents_tableDefinitions (belong : tables.Of tokens) (options : Options) :
    ∀ d ∈ tableDefinitions tables tokens options,
      d.HasExtents (tableDefinitions tables tokens options) := by
  obtain ⟨consistent, _, _, lines⟩ := belong
  have height : (tables.next.toList.map Array.toList).length = tables.stateCount := by
    rw [List.length_map, Array.length_toList, Tables.stateCount]
  refine forall_tableDefinitions (fun _ _ => trivial) ?_ ⟨?_, fun row member => ?_⟩ ?_
    (fun _ flags sized => ?_) lines ?_ ?_
  · exact congrArg some Vector.length_toList.symm
  · exact congrArg some height.symm
  · exact congrArg some (consistent.length_row member).symm
  · exact congrArg some (length_acceptNumbers consistent).symm
  · exact congrArg some (by rw [List.length_cons, List.length_map, sized])
  · exact congrArg some (by rw [List.length_cons, List.length_map, TokenTable.size])
  · exact congrArg some (by rw [List.length_cons, List.length_map, TokenTable.size])

theorem unsignedFits_tableDefinitions (belong : tables.Of tokens) (options : Options) :
    ∀ d ∈ tableDefinitions tables tokens options,
      (d.name = "yy_nxt" → tables.stateCount ≤ 2 ^ 32) → (d.name = "yy_accept" → tokens.size < 2 ^ 32) →
        d.UnsignedFits := by
  obtain ⟨consistent, bytes, winners, lines⟩ := belong
  refine forall_tableDefinitions (fun _ _ _ _ => trivial) (fun _ _ _ c member => ?_)
    (fun states _ _ row member s inside => ?_) (fun _ words _ n member => ?_)
    (fun _ flags _ _ _ _ n member => ?_) lines (fun _ _ other => absurd rfl other) (fun _ _ => trivial)
  · -- There are at most as many classes as bytes, and so they fit without a condition.
    have bound := consistent.class_lt c member
    exact lt_capacity_ofGreatest (Nat.le_of_lt bound) (by omega)
  · obtain ⟨successors, listed, rfl⟩ := List.mem_map.1 member
    have bound := consistent.successor_lt successors (Array.mem_toList_iff.1 listed) s
      (Array.mem_toList_iff.1 inside)
    exact lt_capacity_ofGreatest (Nat.le_of_lt bound) (Nat.lt_of_lt_of_le bound (states rfl))
  · obtain ⟨token, listed, rfl⟩ := List.mem_map.1 member
    have bound : acceptNumber token ≤ tokens.size := by
      cases token with
      | none => exact Nat.zero_le _
      | some token => exact winners token (Array.mem_toList_iff.1 listed)
    exact lt_capacity_ofGreatest bound (Nat.lt_of_le_of_lt bound (words rfl))
  · rcases List.mem_cons.1 member with rfl | listed
    · decide
    · obtain ⟨flag, _, rfl⟩ := List.mem_map.1 listed
      cases flag <;> decide

/-! ## Sources -/

/-- What a source holds in front of its tables. -/
def sourceFront (base : String) (options : Options) : List Item :=
  userText options.sourceTop ++ banner base options ++ includes base

/-- What a source holds behind its tables. -/
def sourceBack (tokens : TokenTable) (options : Options) : List Item :=
  (if options.reentrant then reentrantState options else globalState options) ++ scanner tokens options ++
    [nameFunction options, .blank] ++ userText options.sourceEnd

theorem sourceItems_eq (base : String) (tables : Tables) (tokens : TokenTable) (options : Options) :
    sourceItems base tables tokens options =
      sourceFront base options ++ (sizes tables tokens ++ arrays tables tokens options) ++
        sourceBack tokens options := by
  simp only [sourceItems, sourceFront, sourceBack, List.append_assoc]

end Emit

open Code in
/-- The part of a generated source that holds the tables is read as what the tables and tokens say.  Every
array has as many values as it declares, and every number of an unsigned array is one of its type,
unless there are more states or tokens than there are words of 32 bits. -/
theorem tables_readBack {σ : Type} {rules : RuleSet} {base : String} {hooks : List (Hook (StateM σ))}
    {s : σ} {generated : Generated}
    (succeeded : ((generate rules base hooks).run s).1 = .ok generated) :
    ∃ text, generated.artifacts.source =
        fileText (Emit.sourceFront base rules.options) ++ text ++
          fileText (Emit.sourceBack generated.tokens rules.options) ∧
      let ds := Emit.tableDefinitions generated.tables generated.tokens rules.options
      definitions? text = some ds ∧ (∀ d ∈ ds, d.HasExtents ds) ∧
      ∀ d ∈ ds, (d.name = "yy_nxt" → generated.tables.stateCount ≤ 2 ^ 32) →
        (d.name = "yy_accept" → generated.tokens.size < 2 ^ 32) → d.UnsignedFits := by
  obtain ⟨_, settled, built, artifacts⟩ := prepare_eq_ok_iff.1 (prepare_of_generate succeeded)
  have belong := Tables.of_build built
  refine ⟨fileText (Emit.sizes generated.tables generated.tokens ++
      Emit.arrays generated.tables generated.tokens rules.options), ?_, ?_,
    Emit.hasExtents_tableDefinitions belong _, Emit.unsignedFits_tableDefinitions belong _⟩
  · rw [artifacts, emit, Emit.sourceItems_eq, fileText_append, fileText_append]
  · exact (Emit.declares_sizes _ _ (Emit.declares_arrays belong
      (fun t => TokenTable.isIdentifier_of_settled settled) _)).definitions?_eq

open Code in
/-- A lone catch-all, in a scanner that counts lines. -/
theorem tables_readBack_catchAll :
    let options := { Options.default with lineno := true }
    let rules : RuleSet := ⟨.empty, [.ofCategory .unknown none .api], options⟩
    ∃ generated, ((generate rules "lexer" ([] : List (Hook (StateM Unit)))).run ()).1 = .ok generated ∧
      ∃ text ds, generated.artifacts.source =
          fileText (Emit.sourceFront "lexer" rules.options) ++ text ++
            fileText (Emit.sourceBack generated.tokens rules.options) ∧
        definitions? text = some ds ∧
        .numbers .unsignedChar "yy_skip" (.number 2) [0, 0] ∈ ds ∧
        .numbers .unsignedChar "yy_eol" (.number 2) [0, 1] ∈ ds := by
  intro options rules
  let tokens : TokenTable := ⟨[⟨0, 1, none, .unknown, "UNKNOWN", 1, none, false, .api⟩]⟩
  let made := Tables.ofTrees tokens [.set .full] true
  have settled : settle rules.declarations = .ok tokens := by decide
  have built : Tables.build tokens rules.macros.installPrelude rules.options.minimize = .ok made :=
    Tables.build_eq_ok_iff.2 ⟨_, rfl, rfl⟩
  let generated : Generated :=
    ⟨emit "lexer" made.tables tokens rules.options, made.tables, tokens, made.warnings⟩
  have prepared : prepare rules "lexer" = .ok generated :=
    prepare_eq_ok_iff.2 ⟨by decide, settled, built, rfl⟩
  have succeeded : ((generate rules "lexer" ([] : List (Hook (StateM Unit)))).run ()).1 = .ok generated := by
    simp only [generate, prepared]
    rfl
  have lines : made.tables.endsLines = #[true] := by
    show [Pattern.set .full].toArray.map (Pattern.mentions Ascii.newline) = #[true]
    rw [List.map_toArray]
    exact congrArg List.toArray (by decide)
  obtain ⟨text, source, read, _⟩ := tables_readBack succeeded
  refine ⟨generated, succeeded, text, _, source, read, ?_, ?_⟩
  · simp [Emit.tableDefinitions, Emit.arrayDefinitions, TokenTable.size, generated, tokens]
  · simp [Emit.tableDefinitions, Emit.arrayDefinitions, TokenTable.size, generated, tokens, lines, rules, options]

end ScannerGen
