import Mathlib.Data.List.Nodup
import ScannerGen.Proofs.Emit.Entities
import ScannerGen.Proofs.Options.Invariant
import ScannerGen.Proofs.Tables
import ScannerGen.Proofs.Text.Blank
import ScannerGen.Token.Settle

/-!
# Names at file scope

The names that a source declares come from the generator, from the extra fields and from the option that
the function for token ids is called by.  Fields keep clear of the names of the generator.  Nothing keeps
that option clear of either.

* `Emit.names_scannerEntities` — the names without that function.
* `Emit.nodup_names_scannerEntities` — they are different if the options are sound.
* `Emit.nodup_sourceNames_iff` — so are all names unless the function is called like one of them.
-/

namespace ScannerGen.Emit

open Code

/-! ## Names of the generator -/

/-- The names of the generator in front of those of the extra fields. -/
def frontNames (lineno reentrant extended : Bool) : List String :=
  tableNames lineno ++
    if reentrant then
      "yylex_init" :: (if extended then ["yylex_init_extra"] else []) ++
        ["yylex_destroy", "yyget_in", "yyset_in", "yyget_lineno", "yyset_lineno"]
    else stateFields.map fun field => field.declarator.name

/-- The names of the generator behind those of the extra fields. -/
def backNames (reentrant : Bool) : List String :=
  if reentrant then ["yyget_text", "yyget_leng", "yy_load_input", "yylex"]
  else ["yy_load_input", "yylex", "yylex_destroy"]

/-- The names that do not depend on what the user calls fields. -/
def ownNames (options : Options) : List String :=
  frontNames options.lineno options.reentrant (!options.extra.isEmpty) ++ backNames options.reentrant

/-- The names of the accessors of fields. -/
def accessorNames (names : List String) : List String :=
  names.flatMap fun name => ["yyget_" ++ name, "yyset_" ++ name]

/-- The names that extra fields have at file scope, or that their accessors have. -/
def extraNames (options : Options) : List String :=
  if options.reentrant then accessorNames options.fieldNames else options.fieldNames

theorem names_accessorEntities (parts : List Declarator) :
    (accessorEntities parts).map Entity.name = accessorNames (parts.map Declarator.name) := by
  rw [accessorEntities, accessorNames, List.map_flatMap, List.flatMap_map]
  rfl

theorem names_extraDeclarators (options : Options) :
    (extraDeclarators options).map Declarator.name = options.fieldNames :=
  List.map_map

theorem names_initEntities (options : Options) :
    (initEntities options).map Entity.name =
      "yylex_init" :: if !options.extra.isEmpty then ["yylex_init_extra"] else [] := by
  rw [initEntities]
  cases options.extra <;> rfl

theorem names_stateEntities (options : Options) :
    (stateEntities options).map Entity.name =
      (stateFields.map fun field => field.declarator.name) ++ options.fieldNames := by
  rw [stateEntities, List.map_append, List.map_map, List.map_map, ← names_extraDeclarators]
  rfl

theorem names_handleEntities (options : Options) :
    (handleEntities options).map Entity.name =
      ("yylex_init" :: (if !options.extra.isEmpty then ["yylex_init_extra"] else []) ++
        ["yylex_destroy", "yyget_in", "yyset_in", "yyget_lineno", "yyset_lineno"]) ++
      accessorNames options.fieldNames ++ ["yyget_text", "yyget_leng"] := by
  have accessors : accessorNames ([inputPart, linePart].map Declarator.name ++ options.fieldNames) =
      ["yyget_in", "yyset_in", "yyget_lineno", "yyset_lineno"] ++ accessorNames options.fieldNames := rfl
  simp only [handleEntities, List.map_append, names_initEntities, names_accessorEntities,
    names_extraDeclarators, accessors, List.append_assoc]
  rfl

theorem names_scannerEntities (options : Options) :
    (scannerEntities options).map Entity.name =
      frontNames options.lineno options.reentrant (!options.extra.isEmpty) ++ extraNames options ++
        backNames options.reentrant := by
  have tables : ((tableNames options.lineno).map Entity.table).map Entity.name =
      tableNames options.lineno := by
    rw [List.map_map]
    exact List.map_id _
  simp only [scannerEntities, List.map_append, tables, frontNames, extraNames, backNames]
  cases options.reentrant with
  | false =>
    simp only [Bool.false_eq_true, if_false, names_stateEntities, List.append_assoc]
    rfl
  | true =>
    simp only [if_true, names_handleEntities, List.map_nil, List.append_nil, List.append_assoc]
    rfl

/-! ## Different names -/

theorem nodup_ownNames (options : Options) : (ownNames options).Nodup := by
  -- The names depend on the options by three switches only, so there are eight lists to look at.
  have all : ∀ lineno reentrant extended,
      (frontNames lineno reentrant extended ++ backNames reentrant).Nodup := by decide
  exact all _ _ _

theorem begun_of_mem_ownNames {options : Options} {name : String} (own : name ∈ ownNames options) :
    "yy".toList <+: name.toList := by
  have all : ∀ lineno reentrant extended, ∀ name ∈ frontNames lineno reentrant extended ++ backNames reentrant,
      "yy".toList <+: name.toList := by decide
  exact all _ _ _ name own

/-- A name is reserved if the generator has an accessor of that name. -/
theorem reserved_of_accessorNames {options : Options} {name : String}
    (own : "yyget_" ++ name ∈ ownNames options ∨ "yyset_" ++ name ∈ ownNames options) :
    name ∈ reservedNames := by
  have all : ∀ lineno reentrant extended, ∀ own ∈ frontNames lineno reentrant extended ++ backNames reentrant,
      ∀ beginning ∈ ["yyget_", "yyset_"], ∀ rest ∈ dropStart? beginning.toList own.toList,
        String.ofList rest ∈ reservedNames := by decide
  -- What follows the beginning is read off the generator's name, and `name` is that.
  have known : ∀ beginning ∈ ["yyget_", "yyset_"], beginning ++ name ∈ ownNames options →
      name ∈ reservedNames := by
    intro beginning listed own
    have read := dropStart?_eq_some_iff.2 (String.toList_append (s := beginning) (t := name))
    have reserved := all _ _ _ _ own beginning listed _ read
    rwa [String.ofList_toList] at reserved
  exact own.elim (known _ List.mem_cons_self) (known _ (List.mem_cons_of_mem _ List.mem_cons_self))

theorem getter_ne_setter (name other : String) : "yyget_" ++ name ≠ "yyset_" ++ other := by
  intro same
  have chars := congrArg String.toList same
  simp [String.toList_append] at chars

theorem nodup_accessorNames {names : List String} (distinct : names.Nodup) :
    (accessorNames names).Nodup := by
  refine List.nodup_flatMap.2 ⟨fun name _ => ?_, distinct.imp fun {name other} differ => ?_⟩
  · simp
  · simp [Function.onFun, getter_ne_setter, (getter_ne_setter _ _).symm, differ.symm]

theorem nodup_extraNames {options : Options} (sound : options.Sound) : (extraNames options).Nodup := by
  rw [extraNames]
  split
  · exact nodup_accessorNames sound.distinct
  · exact sound.distinct

theorem mem_accessorNames {name : String} {names : List String} :
    name ∈ accessorNames names ↔ ∃ field ∈ names, name = "yyget_" ++ field ∨ name = "yyset_" ++ field := by
  simp [accessorNames]

/-- No field is called like something of the generator, and no accessor is. -/
theorem extraNames_not_own {options : Options} (sound : options.Sound) {name : String}
    (extra : name ∈ extraNames options) : name ∉ ownNames options := by
  intro own
  rw [extraNames] at extra
  -- Accessors begin like the generator's names, so there it is the list of reserved names that helps.
  split at extra
  · obtain ⟨field, listed, called⟩ := mem_accessorNames.1 extra
    obtain ⟨_, allowed⟩ := sound.allowed_name listed
    exact allowed.notReserved (reserved_of_accessorNames (called.imp (· ▸ own) (· ▸ own)))
  · exact sound.not_listed_of_begun List.mem_cons_self (begun_of_mem_ownNames own) extra

theorem perm_names_scannerEntities (options : Options) :
    ((scannerEntities options).map Entity.name).Perm (ownNames options ++ extraNames options) := by
  rw [names_scannerEntities, ownNames, List.append_assoc, List.append_assoc]
  exact List.perm_append_comm.append_left _

theorem nodup_names_scannerEntities {options : Options} (sound : options.Sound) :
    ((scannerEntities options).map Entity.name).Nodup := by
  rw [(perm_names_scannerEntities options).nodup_iff]
  exact (nodup_ownNames options).append (nodup_extraNames sound) fun name own extra =>
    extraNames_not_own sound extra own

/-! ## The function that names token ids -/

/-- The array of token ids is the only thing of the generator whose name ends as that of the function. -/
theorem helper_mem_ownNames_iff (options : Options) :
    options.helperName ++ "_token_id" ∈ ownNames options ↔ options.helperName = "yy" := by
  have ends : ∀ lineno reentrant extended, ∀ own ∈ frontNames lineno reentrant extended ++ backNames reentrant,
      "_token_id".toList <:+ own.toList → own = "yy" ++ "_token_id" := by decide
  have present : ∀ lineno reentrant extended,
      "yy" ++ "_token_id" ∈ frontNames lineno reentrant extended ++ backNames reentrant := by decide
  constructor
  · intro own
    have same := ends _ _ _ _ own (String.toList_append ▸ List.suffix_append ..)
    exact (String.append_left_inj "_token_id").1 same
  · intro same
    rw [same]
    exact present _ _ _

theorem sourceNames_eq (base : String) (tables : Tables) (tokens : TokenTable) (options : Options) :
    (definedIn (sourceItems base tables tokens options)).map Entity.name =
      (scannerEntities options).map Entity.name ++ [options.helperName ++ "_token_id"] := by
  rw [definedIn_sourceItems, List.map_append]
  rfl

/-- A lone catch-all has tables, so there is a source for it. -/
theorem exists_built_catchAll :
    ∃ tokens built, settle [.ofCategory .unknown none .api] = .ok tokens ∧
      Tables.build tokens .empty true = .ok built := by
  have settled : settle [.ofCategory .unknown none .api] =
      .ok ⟨[⟨0, 1, none, .unknown, "UNKNOWN", 1, none, false, .api⟩]⟩ := by decide
  exact ⟨_, _, settled, Tables.build_eq_ok_iff.2 ⟨_, rfl, rfl⟩⟩

/-- The names that a source declares at file scope are different unless the option for the function that
names token ids makes that the array of them, or an extra field or an accessor of one is called like the
function. -/
theorem nodup_sourceNames_iff (calls : List Options.Call) (base : String) (tables : Tables)
    (tokens : TokenTable) :
    let options := Options.default.afterCalls calls
    ((definedIn (sourceItems base tables tokens options)).map Entity.name).Nodup ↔
      options.helperName ≠ "yy" ∧
      (options.reentrant = false → options.helperName ++ "_token_id" ∉ options.fieldNames) ∧
      (options.reentrant = true → ∀ field ∈ options.fieldNames,
        options.helperName ++ "_token_id" ≠ "yyget_" ++ field ∧
        options.helperName ++ "_token_id" ≠ "yyset_" ++ field) := by
  intro options
  have others := nodup_names_scannerEntities (Options.sound_afterCalls calls)
  rw [sourceNames_eq, List.nodup_append_comm, List.singleton_append, List.nodup_cons,
    and_iff_left others, (perm_names_scannerEntities options).mem_iff, List.mem_append, not_or,
    helper_mem_ownNames_iff, extraNames]
  refine and_congr_right fun _ => ?_
  cases options.reentrant <;> simp [mem_accessorNames]

/-- Calls after which the function that names token ids is called like the array of them, like an extra
field, and like an accessor of one. -/
def collidingCalls : List (List Options.Call) :=
  [[⟨.set, "prefix", "yy", .api⟩],
   [⟨.add, "extra", "ruilex_token_id:int", .api⟩],
   [⟨.set, "reentrant", "on", .api⟩, ⟨.set, "prefix", "yyget_x", .api⟩,
    ⟨.add, "extra", "x_token_id:int", .api⟩]]

/-- After each of them the source for a lone catch-all declares a name twice. -/
theorem sourceNames_collide :
    ∃ tokens built, settle [.ofCategory .unknown none .api] = .ok tokens ∧
      Tables.build tokens .empty true = .ok built ∧
      ∀ calls ∈ collidingCalls,
        ¬ ((definedIn (sourceItems "lexer" built.tables tokens
          (Options.default.afterCalls calls))).map Entity.name).Nodup := by
  obtain ⟨tokens, built, settled, succeeded⟩ := exists_built_catchAll
  refine ⟨tokens, built, settled, succeeded, fun calls among nodup => ?_⟩
  have collides : ∀ calls ∈ collidingCalls,
      (Options.default.afterCalls calls).helperName ++ "_token_id" ∈
        ownNames (Options.default.afterCalls calls) ++ extraNames (Options.default.afterCalls calls) := by
    decide
  rw [sourceNames_eq, List.nodup_append_comm, List.singleton_append, List.nodup_cons] at nodup
  exact nodup.1 ((perm_names_scannerEntities _).mem_iff.2 (collides calls among))

end ScannerGen.Emit
