import ScannerGen.Emit.Source

/-!
# What generated files declare

A C file declares arrays, variables and functions at file scope.  Source and header keep them in their
items, so what a file declares is asked of its items.

* `Item.defined?`, `Item.announced?` — what an item defines, and what it declares for other files.
* `Emit.definedIn_sourceItems`, `Emit.announcedIn_headerItems` — what a source defines and what its
  header announces.
-/

namespace ScannerGen.Code

/-- What can be declared at file scope. -/
inductive Entity where
  /-- A constant array, which only its file sees. -/
  | table (name : String)
  | object (isStatic : Bool) (declarator : Declarator)
  | function (isStatic : Bool) (signature : Signature)
  deriving DecidableEq, Repr, Inhabited

namespace Entity

def name : Entity → String
  | table name => name
  | object _ declarator => declarator.name
  | function _ signature => signature.name

/-- Whether other files see it. -/
def isShared : Entity → Bool
  | table _ => false
  | object isStatic _ | function isStatic _ => !isStatic

end Entity

namespace Item

def defined? : Item → Option Entity
  | array _ name _ | matrix _ name _ _ _ | nameArray name _ => some (.table name)
  | global isStatic declarator _ => some (.object isStatic declarator)
  | function isStatic signature _ => some (.function isStatic signature)
  | _ => none

def announced? : Item → Option Entity
  | externVariable declarator => some (.object false declarator)
  | prototype signature => some (.function false signature)
  | _ => none

end Item

end ScannerGen.Code

namespace ScannerGen.Emit

open Code

/-- What the items of a file define at file scope. -/
def definedIn (items : List Item) : List Entity := items.filterMap Item.defined?

/-- What the items of a file declare for other files. -/
def announcedIn (items : List Item) : List Entity := items.filterMap Item.announced?

@[simp] theorem definedIn_append (front back : List Item) :
    definedIn (front ++ back) = definedIn front ++ definedIn back :=
  List.filterMap_append

@[simp] theorem announcedIn_append (front back : List Item) :
    announcedIn (front ++ back) = announcedIn front ++ announcedIn back :=
  List.filterMap_append

/-! ## Parts of a scanner -/

/-- The arrays of a scanner, with that of line ends if it counts lines. -/
def tableNames (lineno : Bool) : List String :=
  ["yy_ec", "yy_nxt", "yy_accept", "yy_skip"] ++ (if lineno then ["yy_eol"] else []) ++
    ["yy_token_id", "yy_token_name"]

/-- A getter and a setter for each of some parts of the state. -/
def accessorEntities (parts : List Declarator) : List Entity :=
  parts.flatMap fun d => [.function false (getter d), .function false (setter d)]

def initEntities (options : Options) : List Entity :=
  .function false initSignature ::
    if options.extra = [] then [] else [.function false (initExtraSignature options)]

/-- What makes, ends and reaches the state of a reentrant scanner. -/
def handleEntities (options : Options) : List Entity :=
  initEntities options ++ [.function false (destroySignature options)] ++
    accessorEntities ([inputPart, linePart] ++ extraDeclarators options) ++
    [.function false (getter textPart), .function false (getter lengthPart)]

/-- The state of a scanner with global state. -/
def stateEntities (options : Options) : List Entity :=
  stateFields.map (fun field => .object field.isPrivate field.declarator) ++
    (extraDeclarators options).map (.object false)

def loadSignature (options : Options) : Signature :=
  ⟨"int", "yy_load_input", if options.reentrant then [⟨"struct yyguts_t*", "yyg"⟩] else []⟩

/-- All that a source defines, except for the function that names token ids. -/
def scannerEntities (options : Options) : List Entity :=
  (tableNames options.lineno).map .table ++
    (if options.reentrant then handleEntities options else stateEntities options) ++
    [.function true (loadSignature options), .function false (lexSignature options)] ++
    (if options.reentrant then [] else [.function false (destroySignature options)])

variable (tables : Tables) (tokens : TokenTable) (options : Options)

/-! ## Sources -/

theorem definedIn_userText (text : Option String) : definedIn (userText text) = [] := by
  cases text <;> rfl

theorem definedIn_banner (base : String) : definedIn (banner base options) = [] := by
  simp [definedIn, banner, flagComment, Item.defined?, List.filterMap_cons, Function.comp_def]

theorem definedIn_arrays :
    definedIn (arrays tables tokens options) = (tableNames options.lineno).map .table := by
  cases lineno : options.lineno <;> simp [arrays, tableNames, lineno] <;> rfl

theorem definedIn_globalState : definedIn (globalState options) = stateEntities options := by
  simp [definedIn, globalState, stateEntities, Item.defined?, Function.comp_def]

theorem definedIn_accessors (parts : List Declarator) (memberOf : Declarator → String) :
    definedIn (parts.flatMap fun d => accessors d (memberOf d)) = accessorEntities parts := by
  rw [definedIn, accessorEntities, List.filterMap_flatMap]
  rfl

theorem definedIn_reentrantState : definedIn (reentrantState options) = handleEntities options := by
  have parts : definedIn ((extraDeclarators options).flatMap fun d => accessors d (memberName d.name)) =
      accessorEntities (extraDeclarators options) := definedIn_accessors _ _
  have init : definedIn (if options.extra = [] then [] else [initExtraFunction options, .blank]) =
      if options.extra = [] then [] else [.function false (initExtraSignature options)] := by
    split <;> rfl
  simp only [reentrantState, definedIn_append, parts, init]
  simp [handleEntities, initEntities, accessorEntities]
  rfl

theorem definedIn_scanner :
    definedIn (scanner tokens options) =
      [.function true (loadSignature options), .function false (lexSignature options)] ++
        if options.reentrant then [] else [.function false (destroySignature options)] := by
  cases reentrant : options.reentrant with
  | false => simp [scanner, reentrant]; rfl
  | true =>
    have opened : definedIn (openState options) = [] := by
      simp [definedIn, openState, Item.defined?, Function.comp_def]
    have closed : definedIn (closeState options) = [] := by
      simp [definedIn, closeState, Item.defined?, Function.comp_def]
    simp only [scanner, reentrant, if_true, definedIn_append, opened, closed, List.append_nil]
    rfl

theorem definedIn_sourceItems (base : String) :
    definedIn (sourceItems base tables tokens options) =
      scannerEntities options ++ [.function false (nameSignature options)] := by
  have state : definedIn (if options.reentrant then reentrantState options else globalState options) =
      if options.reentrant then handleEntities options else stateEntities options := by
    split
    · exact definedIn_reentrantState options
    · exact definedIn_globalState options
  have includes : definedIn (includes base) = [] := rfl
  have sizes : definedIn (sizes tables tokens) = [] := rfl
  have name : definedIn [nameFunction options, .blank] = [.function false (nameSignature options)] := rfl
  simp only [sourceItems, definedIn_append, definedIn_userText, definedIn_banner, includes, sizes,
    definedIn_arrays, state, definedIn_scanner, name, scannerEntities, List.nil_append,
    List.append_nil, List.append_assoc]

/-! ## Headers -/

theorem announcedIn_userText (text : Option String) : announcedIn (userText text) = [] := by
  cases text <;> rfl

theorem announcedIn_tokenCodes : announcedIn (tokenCodes tokens) = [] := by
  simp [announcedIn, tokenCodes, Item.announced?, List.filterMap_cons, Function.comp_def]

/-- What the header of a reentrant scanner announces besides the function that names token ids. -/
def handlePrototypes (options : Options) : List Entity :=
  initEntities options ++
    [.function false (destroySignature options), .function false (setter inputPart),
     .function false (getter inputPart), .function false (getter textPart),
     .function false (getter lengthPart), .function false (getter linePart),
     .function false (setter linePart)] ++
    accessorEntities (extraDeclarators options) ++ [.function false (lexSignature options)]

/-- What the header of a scanner with global state announces besides that function. -/
def stateExterns (options : Options) : List Entity :=
  (publicState ++ extraDeclarators options).map (.object false) ++
    [.function false (lexSignature options), .function false (destroySignature options)]

theorem announcedIn_reentrantPrototypes :
    announcedIn (reentrantPrototypes options) = handlePrototypes options := by
  have parts : announcedIn ((extraDeclarators options).flatMap fun d =>
      [.prototype (getter d), .prototype (setter d)]) = accessorEntities (extraDeclarators options) := by
    rw [announcedIn, accessorEntities, List.filterMap_flatMap]
    rfl
  have init : announcedIn (if options.extra = [] then [] else [.prototype (initExtraSignature options)]) =
      if options.extra = [] then [] else [.function false (initExtraSignature options)] := by
    split <;> rfl
  simp only [reentrantPrototypes, announcedIn_append, parts, init, handlePrototypes, initEntities]
  rfl

theorem announcedIn_globalPrototypes :
    announcedIn (globalPrototypes options) = stateExterns options := by
  simp [announcedIn, globalPrototypes, stateExterns, Item.announced?, Function.comp_def]

theorem announcedIn_headerItems (base : String) :
    announcedIn (headerItems base tokens options) =
      .function false (nameSignature options) ::
        if options.reentrant then handlePrototypes options else stateExterns options := by
  have declared : announcedIn (if options.reentrant then
        handleType ++ [.blank] ++ reentrantPrototypes options else globalPrototypes options) =
      if options.reentrant then handlePrototypes options else stateExterns options := by
    split
    · rw [announcedIn_append, announcedIn_reentrantPrototypes]
      rfl
    · exact announcedIn_globalPrototypes options
  simp only [headerItems, announcedIn_append, announcedIn_userText, announcedIn_tokenCodes, declared]
  simp [announcedIn, Item.announced?, List.filterMap_cons]

end ScannerGen.Emit
