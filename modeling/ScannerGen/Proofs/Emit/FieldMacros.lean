import ScannerGen.Proofs.Code.Definitions
import ScannerGen.Proofs.Emit.FileScope

/-!
# Macros for the state

While the body of a reentrant scanner is compiled, the name of each part of its state is a macro for the
member that holds it.  The member has the name with a suffix, and C looks for macros in what a macro
stands for.

* `Code.identifiers` — the identifiers in a text of C.
* `Emit.sourceItems_eq_body` — the body of a reentrant scanner within its source.
* `Emit.fieldMacros_iff` — each name has a member and a macro, and the macros stand for accesses to members
  unless one field is called like the member for another.
-/

namespace ScannerGen

namespace Code

/-! ## Identifiers -/

/-- The longest runs of letters, digits and underscores, without those that begin with a digit. -/
def identifiers (text : String) : List String :=
  ((text.toList.splitOnP fun c => !isWordChar c).map String.ofList).filter Ascii.isIdentifier

theorem identifiers_access {object member : String} (isObject : IsCIdentifier object)
    (isMember : IsCIdentifier member) : identifiers (object ++ "->" ++ member) = [object, member] := by
  have unsplit : ∀ word, IsCIdentifier word →
      word.toList.splitOnP (fun c => !isWordChar c) = [word.toList] := by
    intro word isIdentifier
    refine List.splitOnP_eq_singleton fun c among => ?_
    rw [(isWord_of_isIdentifier (isCIdentifier_iff.1 isIdentifier)).2 c among]
    rfl
  have chars : (object ++ "->" ++ member).toList = object.toList ++ '-' :: ([] ++ '>' :: member.toList) := by
    simp [String.toList_append]
  have nothing : Ascii.isIdentifier "" = false := by decide
  rw [identifiers, chars, List.splitOnP_append_cons _ _ (by decide),
    List.splitOnP_append_cons _ _ (by decide), unsplit object isObject, unsplit member isMember,
    List.splitOnP_nil]
  simp only [List.map_append, List.map_cons, List.map_nil, String.ofList_toList, String.ofList_nil,
    List.filter_append, List.filter_cons, List.filter_nil, isCIdentifier_iff.1 isObject,
    isCIdentifier_iff.1 isMember, nothing]
  rfl

theorem isCIdentifier_suffixed {name : String} (identifier : IsCIdentifier name) :
    IsCIdentifier (name ++ "_r") := by
  obtain ⟨c, cs, chars, first, others⟩ := identifier
  refine ⟨c, cs ++ ['_', 'r'], by rw [String.toList_append, chars]; rfl, first, ?_⟩
  have underscore : IsLetter '_' := .inr (.inr rfl)
  have letter : IsLetter 'r' := .inl (by decide)
  exact List.forall_mem_append.2 ⟨others,
    List.forall_mem_cons.2 ⟨.inl underscore, List.forall_mem_singleton.2 (.inl letter)⟩⟩

/-! ## Macros and structures -/

namespace Item

/-- The macro that the item defines or undefines. -/
def macroName? : Item → Option String
  | define name _ | undefine name => some name
  | _ => none

def members? : Item → Option (List Declarator)
  | struct _ members => some members
  | _ => none

/-- Whether the item is about a macro or a structure. -/
def isLayout (item : Item) : Bool := item.macroName?.isSome || item.members?.isSome

end Item

/-- The items that are about a macro. -/
def directivesFor (name : String) (items : List Item) : List Item :=
  items.filter fun item => item.macroName? == some name

/-- The members of the structures of a file. -/
def structuresIn (items : List Item) : List (List Declarator) := items.filterMap Item.members?

/-- The items about macros and structures. -/
def layout (items : List Item) : List Item := items.filter Item.isLayout

@[simp] theorem layout_append (front back : List Item) :
    layout (front ++ back) = layout front ++ layout back :=
  List.filter_append ..

theorem directivesFor_layout (name : String) (items : List Item) :
    directivesFor name (layout items) = directivesFor name items := by
  rw [directivesFor, layout, List.filter_filter]
  refine List.filter_congr fun item _ => ?_
  cases item <;> simp [Item.isLayout, Item.macroName?]

theorem structuresIn_layout (items : List Item) : structuresIn (layout items) = structuresIn items := by
  rw [structuresIn, layout, List.filterMap_filter]
  refine List.filterMap_congr fun item _ => ?_
  cases item <;> rfl

end Code

namespace Emit

open Code

variable (base : String) (tables : Tables) (tokens : TokenTable) (options : Options)

/-! ## The body within its source -/

/-- The functions that the names of the state are macros for. -/
def scannerBody : List Item := [loadFunction options, .blank, lexFunction tokens options, .blank]

/-- What a reentrant source holds in front of its body. -/
def beforeBody : List Item :=
  userText options.sourceTop ++ banner base options ++ includes base ++ sizes tables tokens ++
    arrays tables tokens options ++ reentrantState options ++ openState options

/-- What a reentrant source holds behind its body. -/
def behindBody : List Item := closeState options ++ [nameFunction options, .blank] ++ userText options.sourceEnd

theorem sourceItems_eq_body {options : Options} (reentrant : options.reentrant = true) :
    sourceItems base tables tokens options =
      beforeBody base tables tokens options ++ scannerBody tokens options ++ behindBody options := by
  simp only [sourceItems, scanner, reentrant, if_true, beforeBody, scannerBody, behindBody, List.append_assoc]

theorem layout_userText (text : Option String) : layout (userText text) = [] := by
  cases text <;> rfl

theorem layout_banner : layout (banner base options) = [] := by
  simp [layout, banner, flagComment, Item.isLayout, Item.macroName?, Item.members?]

theorem layout_arrays : layout (arrays tables tokens options) = [] := by
  cases lineno : options.lineno <;> simp [arrays, lineno] <;> rfl

theorem layout_reentrantState :
    layout (reentrantState options) = [.struct "yyguts_t" ((stateDeclarators options).map member)] := by
  have parts : layout ((extraDeclarators options).flatMap fun d => accessors d (memberName d.name)) = [] := by
    rw [layout, List.filter_flatMap]
    exact List.flatMap_eq_nil_iff.2 fun _ _ => rfl
  have init : layout (if options.extra = [] then [] else [initExtraFunction options, .blank]) = [] := by
    split <;> rfl
  simp only [reentrantState, layout_append, parts, init]
  rfl

theorem layout_openState :
    layout (openState options) = (stateDeclarators options).map fun d =>
      .define d.name (some ("yyg->" ++ (d.name ++ "_r"))) := by
  have all : ∀ ds : List Declarator,
      layout (ds.map fun d => .define d.name (some s!"yyg->{memberName d.name}")) =
        ds.map fun d => .define d.name (some ("yyg->" ++ (d.name ++ "_r"))) := fun ds =>
    List.filter_eq_self.2 (List.forall_mem_map.2 fun _ _ => rfl)
  rw [openState, layout_append, all]
  exact List.append_nil _

theorem layout_closeState :
    layout (closeState options) = (stateDeclarators options).map fun d => .undefine d.name := by
  have all : ∀ ds : List Declarator,
      layout (ds.map fun d => .undefine d.name) = ds.map fun d => .undefine d.name := fun ds =>
    List.filter_eq_self.2 (List.forall_mem_map.2 fun _ _ => rfl)
  rw [closeState, layout_append, all]
  exact List.append_nil _

theorem layout_beforeBody :
    layout (beforeBody base tables tokens options) =
      layout (sizes tables tokens) ++ .struct "yyguts_t" ((stateDeclarators options).map member) ::
        (stateDeclarators options).map fun d => .define d.name (some ("yyg->" ++ (d.name ++ "_r"))) := by
  have includes : layout (includes base) = [] := rfl
  simp only [beforeBody, layout_append, layout_userText, layout_banner, includes, layout_arrays,
    layout_reentrantState, layout_openState, List.nil_append, List.append_assoc, List.singleton_append]

theorem layout_scannerBody : layout (scannerBody tokens options) = [] := rfl

theorem layout_behindBody :
    layout (behindBody options) = (stateDeclarators options).map fun d => .undefine d.name := by
  have name : layout [nameFunction options, .blank] = [] := rfl
  simp only [behindBody, layout_append, layout_closeState, name, layout_userText, List.append_nil]

/-! ## The names of the state -/

def stateNames : List String := (stateDeclarators options).map Declarator.name

variable {options}

theorem stateNames_eq : stateNames options =
    stateFields.map (fun field => field.declarator.name) ++ options.fieldNames := by
  rw [stateNames, stateDeclarators, List.map_append, List.map_map, names_extraDeclarators]
  rfl

theorem isCIdentifier_of_mem_stateNames (sound : options.Sound) {name : String}
    (listed : name ∈ stateNames options) : IsCIdentifier name := by
  have own : ∀ name ∈ stateFields.map fun field => field.declarator.name,
      Ascii.isIdentifier name = true := by decide
  rw [stateNames_eq] at listed
  rcases List.mem_append.1 listed with kept | extra
  · exact isCIdentifier_iff.2 (own name kept)
  · obtain ⟨_, allowed⟩ := sound.allowed_name extra
    exact allowed.identifier

theorem begun_of_mem_stateFields {name : String}
    (kept : name ∈ stateFields.map fun field => field.declarator.name) : "yy".toList <+: name.toList := by
  have all : ∀ name ∈ stateFields.map fun field => field.declarator.name,
      "yy".toList <+: name.toList := by decide
  exact all name kept

theorem nodup_stateNames (sound : options.Sound) : (stateNames options).Nodup := by
  have own : (stateFields.map fun field => field.declarator.name).Nodup := by decide
  rw [stateNames_eq]
  exact own.append sound.distinct fun name kept extra =>
    sound.not_listed_of_begun List.mem_cons_self (begun_of_mem_stateFields kept) extra

/-- The member for a part of the state is called like another part only if both are extra fields. -/
theorem suffixed_not_mem_stateNames_iff (sound : options.Sound) :
    (∀ name ∈ stateNames options, name ++ "_r" ∉ stateNames options) ↔
      ∀ field ∈ options.fieldNames, field ++ "_r" ∉ options.fieldNames := by
  have ends : ∀ name ∈ stateFields.map fun field => field.declarator.name,
      ¬ "_r".toList <:+ name.toList := by decide
  rw [stateNames_eq]
  constructor
  · exact fun apart field extra suffixed =>
      apart field (List.mem_append_right _ extra) (List.mem_append_right _ suffixed)
  · intro apart name listed suffixed
    -- No name of the generator ends with the suffix, and no field begins as these names do.
    rcases List.mem_append.1 suffixed with kept | extra
    · exact ends _ kept (String.toList_append ▸ List.suffix_append ..)
    · rcases List.mem_append.1 listed with own | field
      · refine sound.not_listed_of_begun List.mem_cons_self ?_ extra
        rw [String.toList_append]
        exact (begun_of_mem_stateFields own).trans (List.prefix_append ..)
      · exact apart name field extra

/-! ## One macro each -/

theorem filter_key_eq_singleton {α : Type} [DecidableEq α] {key : α → String} {l : List α}
    (distinct : (l.map key).Nodup) {a : α} (among : a ∈ l) :
    l.filter (fun b => key b == key a) = [a] := by
  have same : ∀ b ∈ l, (key b == key a) = (b == a) := fun b inside => by
    rw [Bool.eq_iff_iff, beq_iff_eq, beq_iff_eq]
    exact ⟨List.inj_on_of_nodup_map distinct inside among, congrArg key⟩
  calc
    l.filter (fun b => key b == key a) = l.filter (· == a) := List.filter_congr same
    _ = List.replicate (l.count a) a := List.filter_beq ..
    _ = [a] := by rw [List.count_eq_one_of_mem distinct.of_map among, List.replicate_one]

theorem not_begun_of_mem_stateNames (sound : options.Sound) {name : String}
    (listed : name ∈ stateNames options) : ¬ "YY".toList <+: name.toList := by
  have own : ∀ name ∈ stateFields.map fun field => field.declarator.name,
      ¬ "YY".toList <+: name.toList := by decide
  rw [stateNames_eq] at listed
  rcases List.mem_append.1 listed with kept | extra
  · exact own name kept
  · exact fun begun => sound.not_listed_of_begun (List.mem_cons_of_mem _ List.mem_cons_self) begun extra

/-- The macros for the sizes of the tables are none for the state. -/
theorem directivesFor_sizes (sound : options.Sound) {name : String} (listed : name ∈ stateNames options) :
    directivesFor name (sizes tables tokens) = [] := by
  have begun : ∀ item ∈ sizes tables tokens, item.macroName? = some name →
      "YY".toList <+: name.toList := by
    intro item inside about
    simp only [sizes, List.mem_cons, List.not_mem_nil, or_false] at inside
    rcases inside with rfl | rfl | rfl | rfl | rfl | rfl <;> cases about <;> decide
  refine List.filter_eq_nil_iff.2 fun item inside about => ?_
  exact not_begun_of_mem_stateNames sound listed (begun item inside (beq_iff_eq.1 about))

theorem directivesFor_macros (sound : options.Sound) {d : Declarator}
    (declared : d ∈ stateDeclarators options) (directive : Declarator → Item)
    (about : ∀ e, (directive e).macroName? = some e.name) :
    directivesFor d.name ((stateDeclarators options).map directive) = [directive d] := by
  have same : (fun e => (directive e).macroName? == some d.name) = fun e => e.name == d.name := by
    funext e
    rw [about]
    rfl
  rw [directivesFor, List.filter_map, Function.comp_def, same,
    filter_key_eq_singleton (nodup_stateNames sound) declared]
  rfl

theorem directivesFor_beforeBody (sound : options.Sound) {d : Declarator}
    (declared : d ∈ stateDeclarators options) :
    directivesFor d.name (beforeBody base tables tokens options) =
      [.define d.name (some ("yyg->" ++ (d.name ++ "_r")))] := by
  -- The sizes of the tables are macros in front of the body too, with names of another kind.
  have sizeMacros : directivesFor d.name (layout (sizes tables tokens)) = [] := by
    rw [directivesFor_layout]
    exact directivesFor_sizes tables tokens sound (List.mem_map_of_mem declared)
  have macros := directivesFor_macros sound declared
    (fun e => .define e.name (some ("yyg->" ++ (e.name ++ "_r")))) fun _ => rfl
  rw [← directivesFor_layout, layout_beforeBody, directivesFor, List.filter_append]
  exact (congrArg (· ++ _) sizeMacros).trans macros

theorem directivesFor_behindBody (sound : options.Sound) {d : Declarator}
    (declared : d ∈ stateDeclarators options) :
    directivesFor d.name (behindBody options) = [.undefine d.name] := by
  rw [← directivesFor_layout, layout_behindBody]
  exact directivesFor_macros sound declared (fun e => .undefine e.name) fun _ => rfl

theorem structuresIn_sourceItems (reentrant : options.reentrant = true) :
    structuresIn (sourceItems base tables tokens options) =
      [(stateDeclarators options).map fun d => ⟨d.type, d.name ++ "_r"⟩] := by
  have macros : ∀ directive : Declarator → Item, (∀ d, (directive d).members? = none) →
      ((stateDeclarators options).map directive).filterMap Item.members? = [] := by
    intro directive other
    rw [List.filterMap_map]
    exact List.filterMap_eq_nil_iff.2 fun d _ => other d
  have sizes : (layout (sizes tables tokens)).filterMap Item.members? = [] := rfl
  have opened := macros (fun d => .define d.name (some ("yyg->" ++ (d.name ++ "_r")))) fun _ => rfl
  have closed := macros (fun d => .undefine d.name) fun _ => rfl
  rw [sourceItems_eq_body base tables tokens reentrant, ← structuresIn_layout, layout_append,
    layout_append, layout_beforeBody, layout_scannerBody, layout_behindBody, structuresIn]
  simp only [List.filterMap_append, List.filterMap_cons, sizes, opened, closed, Item.members?,
    List.append_nil, List.nil_append]
  rfl

theorem member_eq_singleton (sound : options.Sound) {d : Declarator}
    (declared : d ∈ stateDeclarators options) :
    ((stateDeclarators options).map fun d => Declarator.mk d.type (d.name ++ "_r")).filter
      (fun m => m.name == d.name ++ "_r") = [⟨d.type, d.name ++ "_r"⟩] := by
  have same : (fun e : Declarator => e.name ++ "_r" == d.name ++ "_r") = fun e => e.name == d.name := by
    funext e
    rw [Bool.eq_iff_iff, beq_iff_eq, beq_iff_eq, String.append_left_inj]
  rw [List.filter_map, Function.comp_def, same, filter_key_eq_singleton (nodup_stateNames sound) declared]
  rfl

/-! ## What macros stand for -/

theorem identifiers_replacement (sound : options.Sound) {name : String}
    (listed : name ∈ stateNames options) :
    identifiers ("yyg->" ++ (name ++ "_r")) = ["yyg", name ++ "_r"] := by
  have pieces : "yyg->" ++ (name ++ "_r") = "yyg" ++ "->" ++ (name ++ "_r") :=
    congrArg (· ++ (name ++ "_r")) (by decide)
  rw [pieces]
  exact identifiers_access (isCIdentifier_iff.2 (by decide))
    (isCIdentifier_suffixed (isCIdentifier_of_mem_stateNames sound listed))

theorem handle_not_mem_stateNames (sound : options.Sound) : "yyg" ∉ stateNames options := by
  have own : "yyg" ∉ stateFields.map fun field => field.declarator.name := by decide
  rw [stateNames_eq, List.mem_append, not_or]
  exact ⟨own, sound.not_listed_of_begun List.mem_cons_self (by decide)⟩

/-- The macros stand for no macros exactly if no extra field is called like the member for another. -/
theorem replacements_final_iff (sound : options.Sound) :
    (∀ name ∈ stateNames options, ∀ word ∈ identifiers ("yyg->" ++ (name ++ "_r")),
        word ∉ stateNames options) ↔
      ∀ field ∈ options.fieldNames, field ++ "_r" ∉ options.fieldNames := by
  have words : (∀ name ∈ stateNames options, ∀ word ∈ identifiers ("yyg->" ++ (name ++ "_r")),
        word ∉ stateNames options) ↔
      ∀ name ∈ stateNames options, name ++ "_r" ∉ stateNames options := by
    refine forall₂_congr fun name listed => ?_
    rw [identifiers_replacement sound listed, List.forall_mem_cons, List.forall_mem_singleton,
      and_iff_right (handle_not_mem_stateNames sound)]
  exact words.trans (suffixed_not_mem_stateNames_iff sound)

/-- In a reentrant source, each name of the state has one member that is called like it with a suffix, and
there are two directives for it: one in front of the body makes it a macro for an access to that member,
and one behind the body ends that.  The macros stand for no other macros unless an extra field is called
like the member for another one. -/
theorem fieldMacros_iff {calls : List Options.Call}
    (reentrant : (Options.default.afterCalls calls).reentrant = true) (base : String) (tables : Tables)
    (tokens : TokenTable) :
    let options := Options.default.afterCalls calls
    ∃ front back members,
      sourceItems base tables tokens options = front ++ scannerBody tokens options ++ back ∧
      structuresIn (sourceItems base tables tokens options) = [members] ∧
      (∀ d ∈ stateDeclarators options,
        members.filter (fun m => m.name == d.name ++ "_r") = [⟨d.type, d.name ++ "_r"⟩] ∧
        directivesFor d.name front = [.define d.name (some ("yyg->" ++ (d.name ++ "_r")))] ∧
        directivesFor d.name (scannerBody tokens options) = [] ∧
        directivesFor d.name back = [.undefine d.name]) ∧
      ((∀ name ∈ stateNames options, ∀ word ∈ identifiers ("yyg->" ++ (name ++ "_r")),
          word ∉ stateNames options) ↔
        ∀ field ∈ options.fieldNames, field ++ "_r" ∉ options.fieldNames) := by
  intro options
  have sound := Options.sound_afterCalls calls
  refine ⟨_, _, _, sourceItems_eq_body base tables tokens reentrant,
    structuresIn_sourceItems base tables tokens reentrant, fun d declared => ?_, ?_⟩
  · exact ⟨member_eq_singleton sound declared, directivesFor_beforeBody base tables tokens sound declared,
      rfl, directivesFor_behindBody sound declared⟩
  · exact replacements_final_iff sound

/-- A reentrant scanner with a field, and with a second one that is called like the member for it. -/
def oneFieldCalls : List Options.Call :=
  [⟨.set, "reentrant", "on", .api⟩, ⟨.add, "extra", "n:int", .api⟩]

def suffixedCalls : List Options.Call := oneFieldCalls ++ [⟨.add, "extra", "n_r:long", .api⟩]

theorem fieldMacros_iff_oneField :
    ∃ tokens built, settle [.ofCategory .unknown none .api] = .ok tokens ∧
      Tables.build tokens .empty true = .ok built ∧
      let options := Options.default.afterCalls oneFieldCalls
      options.reentrant = true ∧
      ∃ front back,
        sourceItems "lexer" built.tables tokens options = front ++ scannerBody tokens options ++ back ∧
        directivesFor "n" front = [.define "n" (some "yyg->n_r")] ∧
        directivesFor "n" back = [.undefine "n"] ∧
        ∀ name ∈ stateNames options, ∀ word ∈ identifiers ("yyg->" ++ (name ++ "_r")),
          word ∉ stateNames options := by
  obtain ⟨tokens, built, settled, succeeded⟩ := exists_built_catchAll
  refine ⟨tokens, built, settled, succeeded, ?_⟩
  intro options
  have reentrant : options.reentrant = true := by decide
  have fields : options.extra = [⟨"n", "int"⟩] := by decide
  obtain ⟨front, back, _, split, _, each, finals⟩ := fieldMacros_iff reentrant "lexer" built.tables tokens
  have declared : (⟨"int", "n"⟩ : Declarator) ∈ stateDeclarators options :=
    List.mem_append_right _ (List.mem_map.2 ⟨_, fields ▸ List.mem_singleton_self _, rfl⟩)
  obtain ⟨_, defined, _, undefined⟩ := each _ declared
  refine ⟨reentrant, front, back, split, defined, undefined, finals.2 ?_⟩
  decide

/-- All these calls succeed, and the macro for the first field then stands for the second macro. -/
theorem member_isMacro :
    ∃ tokens built, settle [.ofCategory .unknown none .api] = .ok tokens ∧
      Tables.build tokens .empty true = .ok built ∧
      let options := Options.default.afterCalls suffixedCalls
      options.reentrant = true ∧ options.extra = [⟨"n", "int"⟩, ⟨"n_r", "long"⟩] ∧
      (∀ item ∈ [.define "n" (some "yyg->n_r"), .define "n_r" (some "yyg->n_r_r")],
        item ∈ sourceItems "lexer" built.tables tokens options) ∧
      "n_r" ∈ identifiers "yyg->n_r" := by
  obtain ⟨tokens, built, settled, succeeded⟩ := exists_built_catchAll
  refine ⟨tokens, built, settled, succeeded, by decide, by decide, fun item among => ?_, by decide⟩
  have opened : ∀ item ∈ [Item.define "n" (some "yyg->n_r"), .define "n_r" (some "yyg->n_r_r")],
      item ∈ openState (Options.default.afterCalls suffixedCalls) := by decide
  rw [sourceItems_eq_body _ _ _ (by decide), beforeBody]
  exact List.mem_append_left _ (List.mem_append_left _ (List.mem_append_right _ (opened item among)))

end Emit

end ScannerGen
