import Mathlib.Tactic.Ring
import ScannerGen.Emit
import ScannerGen.Proofs.Code.Definitions
import ScannerGen.Proofs.Emit.FileScope

/-!
# Headers and sources agree

A header announces what the source defines for other files.  The two are written apart, in different
orders, and a reentrant scanner has an accessor for each extra field where the other has a variable.

* `Emit.sharedEntities` — what a source defines for other files.
* `Emit.perm_headerEntities` — its header announces just that.
* `Emit.header_agrees` — both, once each, for all options that calls can lead to, and with the same words.
-/

namespace ScannerGen

namespace Code

/-- One text stands somewhere in another. -/
def Occurs (piece text : String) : Prop := piece.toList <:+: text.toList

theorem occurs_fileText {items : List Item} {item : Item} {piece : String} (listed : item ∈ items)
    (among : piece ∈ item.pieces) : Occurs piece (fileText items) := by
  have all : (fileText items).toList = ((items.flatMap Item.pieces).map String.toList).flatten := by
    rw [fileText, String.toList_join, List.flatMap_def]
  rw [Occurs, all]
  exact List.infix_of_mem_flatten (List.mem_map_of_mem (List.mem_flatMap_of_mem listed among))

end Code

namespace Emit

open Code

variable (options : Options)

/-! ## What other files see -/

theorem shared_accessorEntities (parts : List Declarator) :
    (accessorEntities parts).filter Entity.isShared = accessorEntities parts := by
  rw [accessorEntities, List.filter_flatMap]
  rfl

theorem shared_initEntities : (initEntities options).filter Entity.isShared = initEntities options := by
  rw [initEntities]
  split <;> rfl

theorem shared_handleEntities :
    (handleEntities options).filter Entity.isShared = handleEntities options := by
  simp only [handleEntities, List.filter_append, shared_initEntities, shared_accessorEntities]
  rfl

/-- The header lists the fields of the state that the source does not keep to itself. -/
theorem publicState_eq :
    publicState = (stateFields.filter fun field => !field.isPrivate).map StateField.declarator := by
  decide

theorem shared_stateEntities :
    (stateEntities options).filter Entity.isShared =
      (publicState ++ extraDeclarators options).map (.object false) := by
  have extra : ((extraDeclarators options).map (Entity.object false)).filter Entity.isShared =
      (extraDeclarators options).map (Entity.object false) := by
    rw [List.filter_map]
    exact congrArg _ (List.filter_eq_self.2 fun _ _ => rfl)
  have own : (stateFields.map fun field => Entity.object field.isPrivate field.declarator).filter
      Entity.isShared = publicState.map (.object false) := by
    rw [publicState_eq]
    decide
  rw [stateEntities, List.filter_append, extra, own, List.map_append]

/-- What the source of a scanner defines for other files, except for the function that names token
ids. -/
def sharedEntities (options : Options) : List Entity := (scannerEntities options).filter Entity.isShared

theorem sharedEntities_eq :
    sharedEntities options =
      if options.reentrant then handleEntities options ++ [.function false (lexSignature options)]
      else stateExterns options := by
  have tables : ((tableNames options.lineno).map Entity.table).filter Entity.isShared = [] := by
    rw [List.filter_map]
    exact List.map_eq_nil_iff.2 (List.filter_eq_nil_iff.2 fun _ _ => nofun)
  rw [sharedEntities, scannerEntities]
  split
  · simp only [List.filter_append, tables, shared_handleEntities, List.nil_append, List.append_nil]
    rfl
  · simp only [List.filter_append, tables, shared_stateEntities, List.nil_append, stateExterns,
      List.append_assoc]
    rfl

/-- The header of a reentrant scanner announces what its source defines, in another order. -/
theorem perm_handlePrototypes :
    (handlePrototypes options).Perm (handleEntities options ++ [.function false (lexSignature options)]) := by
  have parts : accessorEntities ([inputPart, linePart] ++ extraDeclarators options) =
      accessorEntities [inputPart, linePart] ++ accessorEntities (extraDeclarators options) :=
    List.flatMap_append
  have own : accessorEntities [inputPart, linePart] =
      [.function false (getter inputPart), .function false (setter inputPart),
       .function false (getter linePart), .function false (setter linePart)] := rfl
  -- The fields are the same list in both, so only a fixed number of entities changes places.
  refine List.perm_iff_count.2 fun e => ?_
  simp only [handlePrototypes, handleEntities, parts, own, List.count_append, List.count_cons,
    List.count_nil]
  ring

/-- What a header announces, with the function that names token ids in front. -/
theorem perm_announcedIn_headerItems (base : String) (tokens : TokenTable) :
    (announcedIn (headerItems base tokens options)).Perm
      (.function false (nameSignature options) :: sharedEntities options) := by
  rw [announcedIn_headerItems, sharedEntities_eq]
  split
  · exact (perm_handlePrototypes options).cons _
  · exact .refl _

theorem perm_headerEntities (base : String) (tables : Tables) (tokens : TokenTable) :
    (announcedIn (headerItems base tokens options)).Perm
      ((definedIn (sourceItems base tables tokens options)).filter Entity.isShared) := by
  have shared : (definedIn (sourceItems base tables tokens options)).filter Entity.isShared =
      sharedEntities options ++ [.function false (nameSignature options)] := by
    rw [definedIn_sourceItems, List.filter_append]
    rfl
  rw [shared]
  exact (perm_announcedIn_headerItems options base tokens).trans (List.perm_append_singleton _ _).symm

/-! ## Once each -/

theorem getLast?_parameters_accessor {parts : List Declarator} {s : Signature}
    (listed : .function false s ∈ accessorEntities parts) : s.parameters.getLast? = some handle := by
  obtain ⟨d, _, among⟩ := List.mem_flatMap.1 listed
  simp only [List.mem_cons, List.not_mem_nil, or_false, Entity.function.injEq, true_and] at among
  rcases among with rfl | rfl <;> rfl

theorem getLast?_parameters_init {options : Options} {s : Signature}
    (listed : .function false s ∈ initEntities options) : s.parameters.getLast? = some handleResult := by
  have cases : s = initSignature ∨ s = initExtraSignature options := by
    rw [initEntities] at listed
    split at listed <;> simp_all
  rcases cases with rfl | rfl
  · rfl
  · rw [initExtraSignature, List.getLast?_append]
    rfl

/-- The last parameter of a function of a scanner, if it has one, is a handle or is where one is put. -/
theorem getLast?_parameters {options : Options} {s : Signature}
    (listed : .function false s ∈ sharedEntities options) :
    s.parameters.getLast? ∈ [none, some handle, some handleResult] := by
  have common : (commonParameters options).getLast? ∈ [none, some handle, some handleResult] := by
    rw [commonParameters]
    split <;> decide
  rw [sharedEntities_eq] at listed
  split at listed
  · simp only [handleEntities, List.mem_append, List.mem_cons, List.not_mem_nil, or_false,
      Entity.function.injEq, true_and] at listed
    rcases listed with (((init | rfl) | accessor) | rfl | rfl) | rfl
    · rw [getLast?_parameters_init init]
      decide
    · exact common
    · rw [getLast?_parameters_accessor accessor]
      decide
    · decide
    · decide
    · exact common
  · simp only [stateExterns, List.mem_append, List.mem_map, List.mem_cons, List.not_mem_nil, or_false,
      Entity.function.injEq, true_and] at listed
    rcases listed with ⟨_, _, absurdity⟩ | rfl | rfl
    · cases absurdity
    · exact common
    · exact common

theorem nodup_headerEntities {options : Options} (sound : options.Sound) (base : String)
    (tokens : TokenTable) : (announcedIn (headerItems base tokens options)).Nodup := by
  -- Its name may be that of an accessor, so it is told from the others by its parameter.
  have differs : [Declarator.mk "int" "id"].getLast? ∉ [none, some handle, some handleResult] := by
    decide
  have named : .function false (nameSignature options) ∉ sharedEntities options := fun listed =>
    differs (getLast?_parameters listed)
  have others : (sharedEntities options).Nodup :=
    (nodup_names_scannerEntities sound).of_map.filter _
  rw [(perm_announcedIn_headerItems options base tokens).nodup_iff]
  exact List.nodup_cons.2 ⟨named, others⟩

/-! ## The function that only some scanners have -/

theorem initExtra_not_extraNames {options : Options} (sound : options.Sound) :
    "yylex_init_extra" ∉ extraNames options := by
  intro extra
  rw [extraNames] at extra
  split at extra
  · obtain ⟨field, _, same | same⟩ := mem_accessorNames.1 extra <;>
      simpa [String.toList_append] using congrArg String.toList same
  · have begun : "yy".toList <+: "yylex_init_extra".toList := by decide
    exact sound.not_listed_of_begun List.mem_cons_self begun extra

theorem initExtra_not_helper (options : Options) :
    "yylex_init_extra" ≠ options.helperName ++ "_token_id" := by
  intro same
  have ends : "_token_id".toList <:+ "yylex_init_extra".toList := by
    rw [same, String.toList_append]
    exact List.suffix_append ..
  exact absurd ends (by decide)

/-- The function that takes values for the extra fields is defined only where there are any. -/
theorem initExtra_mem_sourceNames {options : Options} (sound : options.Sound)
    {base : String} {tables : Tables} {tokens : TokenTable}
    (named : "yylex_init_extra" ∈
      (definedIn (sourceItems base tables tokens options)).map Entity.name) :
    options.reentrant = true ∧ options.extra ≠ [] := by
  have own : ∀ lineno reentrant extended,
      "yylex_init_extra" ∈ frontNames lineno reentrant extended ++ backNames reentrant →
        reentrant = true ∧ extended = true := by decide
  rw [sourceNames_eq, List.mem_append, List.mem_singleton,
    (perm_names_scannerEntities options).mem_iff, List.mem_append] at named
  rcases named with (kept | extra) | helper
  · obtain ⟨reentrant, extended⟩ := own _ _ _ kept
    exact ⟨reentrant, by simpa using extended⟩
  · exact absurd extra (initExtra_not_extraNames sound)
  · exact absurd helper (initExtra_not_helper options)

/-! ## What is announced for extra fields -/

theorem mem_headerEntities {options : Options} {base : String} {tokens : TokenTable} {e : Entity} :
    e ∈ announcedIn (headerItems base tokens options) ↔ e = .function false (nameSignature options) ∨
      e ∈ if options.reentrant then handlePrototypes options else stateExterns options := by
  rw [announcedIn_headerItems, List.mem_cons]

theorem initExtra_announced {options : Options} (base : String) (tokens : TokenTable)
    (reentrant : options.reentrant = true) (extended : options.extra ≠ []) :
    .function false (initExtraSignature options) ∈ announcedIn (headerItems base tokens options) := by
  refine mem_headerEntities.2 (.inr ?_)
  rw [if_pos reentrant, handlePrototypes, initEntities, if_neg extended]
  simp

theorem accessors_announced {options : Options} (base : String) (tokens : TokenTable)
    (reentrant : options.reentrant = true) {d : Declarator} (declared : d ∈ extraDeclarators options) :
    .function false (getter d) ∈ announcedIn (headerItems base tokens options) ∧
      .function false (setter d) ∈ announcedIn (headerItems base tokens options) := by
  have inside : ∀ e ∈ [Entity.function false (getter d), .function false (setter d)],
      e ∈ announcedIn (headerItems base tokens options) := by
    intro e among
    refine mem_headerEntities.2 (.inr ?_)
    rw [if_pos reentrant, handlePrototypes]
    exact List.mem_append_left _ (List.mem_append_right _ (List.mem_flatMap.2 ⟨d, declared, among⟩))
  exact ⟨inside _ List.mem_cons_self, inside _ (List.mem_cons_of_mem _ List.mem_cons_self)⟩

theorem variable_announced {options : Options} (base : String) (tokens : TokenTable)
    (global : ¬ options.reentrant = true) {d : Declarator} (declared : d ∈ extraDeclarators options) :
    .object false d ∈ announcedIn (headerItems base tokens options) := by
  refine mem_headerEntities.2 (.inr ?_)
  rw [if_neg global, stateExterns]
  exact List.mem_append_left _ (List.mem_map_of_mem (List.mem_append_right _ declared))

/-! ## The words of both -/

theorem prototype_mem_of_announced {items : List Item} {s : Signature}
    (announced : .function false s ∈ announcedIn items) : .prototype s ∈ items := by
  obtain ⟨item, listed, given⟩ := List.mem_filterMap.1 announced
  cases item <;> cases given
  exact listed

theorem extern_mem_of_announced {items : List Item} {d : Declarator}
    (announced : .object false d ∈ announcedIn items) : .externVariable d ∈ items := by
  obtain ⟨item, listed, given⟩ := List.mem_filterMap.1 announced
  cases item <;> cases given
  exact listed

theorem exists_function_of_defined {items : List Item} {s : Signature}
    (defined : .function false s ∈ definedIn items) : ∃ body, .function false s body ∈ items := by
  obtain ⟨item, listed, given⟩ := List.mem_filterMap.1 defined
  cases item <;> cases given
  exact ⟨_, listed⟩

theorem exists_global_of_defined {items : List Item} {d : Declarator}
    (defined : .object false d ∈ definedIn items) : ∃ value, .global false d value ∈ items := by
  obtain ⟨item, listed, given⟩ := List.mem_filterMap.1 defined
  cases item <;> cases given
  exact ⟨_, listed⟩

/-- A prototype is the head of its function with a semicolon. -/
theorem occurs_function {announced defined : List Item} {s : Signature}
    (shared : .function false s ∈ announcedIn announced) (own : .function false s ∈ definedIn defined) :
    Occurs (s.text ++ ";\n") (fileText announced) ∧ Occurs (s.text ++ "\n") (fileText defined) := by
  obtain ⟨body, listed⟩ := exists_function_of_defined own
  have head : Item.storage false ++ s.text ++ "\n" = s.text ++ "\n" :=
    congrArg (· ++ "\n") String.empty_append
  refine ⟨occurs_fileText (prototype_mem_of_announced shared) (List.mem_singleton_self _), ?_⟩
  rw [← head]
  exact occurs_fileText listed List.mem_cons_self

/-- A variable is announced by its declaration. -/
theorem occurs_object {announced defined : List Item} {d : Declarator}
    (shared : .object false d ∈ announcedIn announced) (own : .object false d ∈ definedIn defined) :
    Occurs ("extern " ++ d.text ++ ";\n") (fileText announced) ∧ Occurs d.text (fileText defined) := by
  obtain ⟨value, listed⟩ := exists_global_of_defined own
  refine ⟨occurs_fileText (extern_mem_of_announced shared) (List.mem_singleton_self _), ?_⟩
  cases value with
  | none =>
    have piece : d.text.toList <:+: (Item.storage false ++ d.text ++ ";\n").toList :=
      ⟨[], ";\n".toList, by simp [Item.storage, String.toList_append]⟩
    exact piece.trans (occurs_fileText listed (List.mem_singleton_self _))
  | some value =>
    have piece : d.text.toList <:+: (Item.storage false ++ d.text ++ " = " ++ value ++ ";\n").toList :=
      ⟨[], (" = " ++ value ++ ";\n").toList, by simp [Item.storage, String.toList_append]⟩
    exact piece.trans (occurs_fileText listed (List.mem_singleton_self _))

/-- What a header announces is what the source defines for other files, each once and with the same types
and parameters.  Among it is the function that names token ids, a function that makes a handle with values
for the extra fields exactly if the scanner is reentrant and has such fields, and for each of these fields a
getter and a setter or a variable.  Both texts use the same words for it. -/
theorem header_agrees (calls : List Options.Call) (base : String) (tables : Tables) (tokens : TokenTable) :
    let options := Options.default.afterCalls calls
    let header := announcedIn (headerItems base tokens options)
    let artifacts := emit base tables tokens options
    header.Perm ((definedIn (sourceItems base tables tokens options)).filter Entity.isShared) ∧
    header.Nodup ∧
    .function false ⟨"const char*", options.helperName ++ "_token_id", [⟨"int", "id"⟩]⟩ ∈ header ∧
    ((∃ s, .function false s ∈ header ∧ s.name = "yylex_init_extra") ↔
      options.reentrant = true ∧ options.extra ≠ []) ∧
    (∀ field ∈ options.extra,
      if options.reentrant then
        .function false ⟨field.type, "yyget_" ++ field.name, [⟨"yyscan_t", "yyscanner"⟩]⟩ ∈ header ∧
        .function false
          ⟨"void", "yyset_" ++ field.name, [⟨field.type, "yyvalue"⟩, ⟨"yyscan_t", "yyscanner"⟩]⟩ ∈ header
      else .object false ⟨field.type, field.name⟩ ∈ header) ∧
    (∀ s, .function false s ∈ header →
      Occurs (s.text ++ ";\n") artifacts.header ∧ Occurs (s.text ++ "\n") artifacts.source) ∧
    ∀ d, .object false d ∈ header →
      Occurs ("extern " ++ d.text ++ ";\n") artifacts.header ∧ Occurs d.text artifacts.source := by
  intro options header artifacts
  have sound := Options.sound_afterCalls calls
  have agree : header.Perm _ := perm_headerEntities options base tables tokens
  have own : ∀ e ∈ header, e ∈ definedIn (sourceItems base tables tokens options) := fun e announced =>
    (List.mem_filter.1 (agree.mem_iff.1 announced)).1
  refine ⟨agree, nodup_headerEntities sound base tokens, mem_headerEntities.2 (.inl rfl), ⟨?_, ?_⟩, ?_, ?_, ?_⟩
  · rintro ⟨s, announced, named⟩
    exact initExtra_mem_sourceNames sound (List.mem_map.2 ⟨_, own _ announced, named⟩)
  · rintro ⟨reentrant, extended⟩
    exact ⟨_, initExtra_announced base tokens reentrant extended, rfl⟩
  · intro field among
    have declared : (⟨field.type, field.name⟩ : Declarator) ∈ extraDeclarators options :=
      List.mem_map_of_mem among
    split
    · next reentrant => exact accessors_announced base tokens reentrant declared
    · next global => exact variable_announced base tokens global declared
  · exact fun s announced => occurs_function announced (own _ announced)
  · exact fun d announced => occurs_object announced (own _ announced)

/-- A reentrant scanner with a counter. -/
def counterCalls : List Options.Call :=
  [⟨.set, "reentrant", "on", .api⟩, ⟨.add, "extra", "n:int*", .api⟩]

theorem header_agrees_counter :
    ∃ tokens built, settle [.ofCategory .unknown none .api] = .ok tokens ∧
      Tables.build tokens .empty true = .ok built ∧
      let options := Options.default.afterCalls counterCalls
      let header := announcedIn (headerItems "lexer" tokens options)
      let artifacts := emit "lexer" built.tables tokens options
      (∃ s, .function false s ∈ header ∧ s.name = "yylex_init_extra") ∧
        .function false ⟨"int*", "yyget_n", [⟨"yyscan_t", "yyscanner"⟩]⟩ ∈ header ∧
        Occurs "int* yyget_n( yyscan_t yyscanner );\n" artifacts.header ∧
        Occurs "int* yyget_n( yyscan_t yyscanner )\n" artifacts.source := by
  obtain ⟨tokens, built, settled, succeeded⟩ := exists_built_catchAll
  refine ⟨tokens, built, settled, succeeded, ?_⟩
  intro options header artifacts
  have reentrant : options.reentrant = true := by decide
  have extra : options.extra = [⟨"n", "int*"⟩] := by decide
  obtain ⟨_, _, _, init, fields, functions, _⟩ := header_agrees counterCalls "lexer" built.tables tokens
  have accessors := fields ⟨"n", "int*"⟩ (extra ▸ List.mem_singleton_self _)
  rw [if_pos reentrant] at accessors
  have words := functions _ accessors.1
  have extended : options.extra ≠ [] := extra ▸ List.cons_ne_nil _ _
  exact ⟨init.2 ⟨reentrant, extended⟩, accessors.1, words.1, words.2⟩

end Emit

end ScannerGen
