import ScannerGen.Proofs.Pattern.Expansion

/-!
# References between macros

The macros that a pattern can reach form a graph, with an edge from each macro to those that its
fragment refers to.

* `RefersTo`, `MacroTable.Uses`, `MacroTable.Reaches` — references of texts, of macros, and along both.
* `not_mem_of_uses` — from a fragment that is accepted no macro is reached that is being expanded.
* `Circle` — what a report of a circle has to show; `circle_of_parseFragment` is the induction over
  the macros being expanded.
* `parse_expands` — expansion ends, what is accepted reaches no unknown name and no circle, and every
  reported circle is there.
-/

namespace ScannerGen

/-! ## References -/

/-- A text refers to a name: a reference to it is among the lexemes of the text, so that it stands
before the first fault in spelling. -/
def Pattern.RefersTo (source name : String) : Prop :=
  ∃ suffix, ⟨.reference name, suffix⟩ ∈ Pattern.lexemes false (utf8 source)

namespace MacroTable

/-- The fragment of a macro refers to a name. -/
def Uses (macros : MacroTable) (user name : String) : Prop :=
  ∃ m, macros.find? user = some m ∧ Pattern.RefersTo m.fragment name

/-- A text refers to a name, or to a macro from which the name is reached through fragments. -/
def Reaches (macros : MacroTable) (source name : String) : Prop :=
  ∃ first, Pattern.RefersTo source first ∧ Relation.ReflTransGen macros.Uses first name

end MacroTable

namespace Pattern

variable {macros : MacroTable} {chain : List String} {owner : Owner} {source : String}

/-! ## Accepted texts -/

/-- A reference in an accepted text names a macro that is not being expanded, and whose fragment is
accepted inside its own expansion. -/
theorem exists_of_refersTo {tree : Pattern} {name : String}
    (accepted : parseFragment macros chain owner source = .ok tree) (refers : RefersTo source name) :
    name ∉ chain ∧ ∃ m fragment, macros.find? name = some m ∧
      parseFragment macros (chain ++ [name]) (.fragment m.name m.origin) m.fragment =
        .ok fragment := by
  obtain ⟨suffix, member⟩ := refers
  obtain ⟨fragment, expanded⟩ := expands_of_assemble (parseFragment_eq_ok_iff.1 accepted) member
  obtain ⟨fresh, m, defined, inside⟩ := exists_of_expansion expanded
  exact ⟨fresh, m, fragment, defined, inside⟩

/-- No macro that is being expanded is reached from a fragment that is accepted. -/
theorem not_mem_of_uses {tree : Pattern} {user name : String} {m : Macro}
    (leads : Relation.TransGen macros.Uses user name) (defined : macros.find? user = some m)
    (accepted : parseFragment macros chain owner m.fragment = .ok tree) : name ∉ chain := by
  induction leads using Relation.TransGen.head_induction_on generalizing chain owner tree m with
  | single uses =>
    obtain ⟨m', defined', refers⟩ := uses
    obtain rfl := Option.some.inj (defined.symm.trans defined')
    exact (exists_of_refersTo accepted refers).1
  | head uses _ ih =>
    obtain ⟨m', defined', refers⟩ := uses
    obtain rfl := Option.some.inj (defined.symm.trans defined')
    obtain ⟨_, next, _, definedNext, inside⟩ := exists_of_refersTo accepted refers
    -- The macro on the way is being expanded too when its fragment is read.
    exact fun member => ih definedNext inside (List.mem_append_left _ member)

/-- Whatever an accepted pattern reaches is defined, with a fragment that is accepted inside its own
expansion. -/
theorem exists_of_reaches {tree : Pattern} {name : String}
    (accepted : parse macros owner source = .ok tree) (reached : macros.Reaches source name) :
    ∃ m fragment, macros.find? name = some m ∧
      parseFragment macros [name] (.fragment m.name m.origin) m.fragment = .ok fragment := by
  obtain ⟨first, refers, leads⟩ := reached
  induction leads with
  | refl => exact (exists_of_refersTo accepted refers).2
  | @tail user name _ uses ih =>
    obtain ⟨m, fragment, defined, inside⟩ := ih
    obtain ⟨m', defined', refers'⟩ := uses
    obtain rfl := Option.some.inj (defined.symm.trans defined')
    obtain ⟨_, next, fragment', definedNext, insideNext⟩ := exists_of_refersTo inside refers'
    exact ⟨next, fragment', definedNext,
      parseFragment_of_subset (List.subset_append_right [user] [name]) insideNext⟩

/-! ## Reported circles -/

/-- A circle is reported where a macro is referred to inside its own expansion. -/
theorem circle_cases {name : String} {names : List String}
    (refused : expansion macros chain owner name = .error (.cyclic names)) :
    name ∈ chain ∧ names = chain ++ [name] ∨
      name ∉ chain ∧ ∃ m, macros.find? name = some m ∧
        parseFragment macros (chain ++ [name]) (.fragment m.name m.origin) m.fragment =
          .error (.cyclic names) := by
  rw [expansion] at refused
  split at refused
  · next inside =>
    cases refused
    exact .inl ⟨List.contains_iff_mem.1 inside, rfl⟩
  · next fresh =>
    refine .inr ⟨mt List.contains_iff_mem.2 fresh, ?_⟩
    split at refused
    · cases refused
    · next m defined => exact ⟨m, defined, refused⟩

/-- Names that lead in a circle: a text refers to the first, the fragment of each one to the next, no
name but the last stands twice, and the last is one of those before it. -/
structure Circle (macros : MacroTable) (source : String) (names : List String) : Prop where
  several : 2 ≤ names.length
  entered : ∃ first ∈ names.head?, RefersTo source first
  linked : names.IsChain macros.Uses
  distinct : names.dropLast.Nodup
  closed : ∃ last ∈ names.getLast?, last ∈ names.dropLast

/-- A reported circle begins with the macros being expanded, and goes on with names that lead from the
text to one that occurred before. -/
theorem circle_of_parseFragment {names : List String} (distinct : chain.Nodup)
    (refused : parseFragment macros chain owner source = .error (.cyclic names)) :
    names.dropLast.Nodup ∧ (∃ last ∈ names.getLast?, last ∈ names.dropLast) ∧
      ∃ first others, names = chain ++ first :: others ∧ RefersTo source first ∧
        (first :: others).IsChain macros.Uses := by
  induction chain using chain_induct macros generalizing owner source with
  | extend chain ih =>
    rw [parseFragment_eq] at refused
    split at refused
    · cases refused
    · rcases error_of_assemble refused with ⟨located, notCircle⟩ | ⟨name, suffix, member, failed⟩
      · cases notCircle
      · have refers : RefersTo source name := ⟨suffix, member⟩
        rcases circle_cases failed with ⟨inside, rfl⟩ | ⟨fresh, m, defined, within⟩
        · rw [List.dropLast_concat, List.getLast?_concat]
          exact ⟨distinct, ⟨name, rfl, inside⟩, name, [], rfl, refers, .singleton name⟩
        · -- The report comes out of the fragment of `name`, so its names go on behind this one.
          have distinct' : (chain ++ [name]).Nodup := by
            rw [List.nodup_append_comm]
            exact List.nodup_cons.2 ⟨fresh, distinct⟩
          obtain ⟨nodup, closed, first, others, same, onward, linked⟩ :=
            ih name m fresh defined distinct' within
          refine ⟨nodup, closed, name, first :: others, ?_, refers, ?_⟩
          · rw [same, List.append_assoc]
            rfl
          · exact List.isChain_cons_cons.2 ⟨⟨m, defined, onward⟩, linked⟩

theorem circle_of_parse {names : List String}
    (refused : parse macros owner source = .error (.cyclic names)) : Circle macros source names := by
  obtain ⟨distinct, ⟨last, final, before⟩, first, others, rfl, refers, linked⟩ :=
    circle_of_parseFragment .nil refused
  refine ⟨?_, ⟨first, rfl, refers⟩, linked, distinct, last, final, before⟩
  -- A name that occurred before the last makes two.
  have some_before := List.length_pos_of_mem before
  rw [List.length_dropLast] at some_before
  omega

/-! ## Expansion -/

/-- A text has at most one lexeme for each of its bytes. -/
theorem length_lexemes_le (after : Bool) (text : List UInt8) :
    (lexemes after text).length ≤ text.length := by
  fun_induction lexemes after text with
  | case1 => exact Nat.le_refl 0
  | case2 => simp
  | case3 after b rest l more read ih =>
    have := lexeme_shorter read
    rw [List.length_cons]
    omega

/-- Expanding macros ends, whatever they refer to: every text has no more lexemes than bytes, and no
more texts are open at once than there are macros, and the pattern itself.  A pattern that is accepted
reaches only macros that are defined, and none of them from itself; one that is refused for a circle
leads into it. -/
theorem parse_expands (macros : MacroTable) (owner : Owner) (source : String) :
    ((∀ after text, (lexemes after text).length ≤ text.length) ∧
      parseNested macros (macros.size + 1) [] owner source =
        (parse macros owner source).mapError some) ∧
    (∀ tree, parse macros owner source = .ok tree → ∀ name, macros.Reaches source name →
      (∃ m, macros.find? name = some m) ∧ ¬ Relation.TransGen macros.Uses name name) ∧
    ∀ names, parse macros owner source = .error (.cyclic names) → Circle macros source names := by
  refine ⟨⟨length_lexemes_le, parseNested_eq_parse macros owner source⟩, ?_,
    fun names => circle_of_parse⟩
  intro tree accepted name reached
  obtain ⟨m, fragment, defined, inside⟩ := exists_of_reaches accepted reached
  exact ⟨⟨m, defined⟩, fun circle => not_mem_of_uses circle defined inside List.mem_cons_self⟩

/-- Two macros that refer to each other, and two that do not. -/
def circularMacros : MacroTable :=
  ⟨[⟨"A", "x\x7bB\x7d", .api⟩, ⟨"B", "y\x7bA\x7d", .api⟩, ⟨"D", "0|1", .api⟩,
    ⟨"E", "e\x7bD\x7d", .api⟩]⟩

/-- The circle is only met by patterns that reach it. -/
theorem parse_expands_circular :
    parse circularMacros (.named "unit") "\x7bA\x7d" = .error (.cyclic ["A", "B", "A"]) ∧
      Circle circularMacros "\x7bA\x7d" ["A", "B", "A"] ∧
      parse circularMacros (.named "unit") "\x7bE\x7d" =
        .ok (.seq [byte 0x65, .alt [byte 0x30, byte 0x31]]) ∧
      circularMacros.Reaches "\x7bE\x7d" "D" ∧
      ¬ Relation.TransGen circularMacros.Uses "D" "D" := by
  have refused : parse circularMacros (.named "unit") "\x7bA\x7d" =
      .error (.cyclic ["A", "B", "A"]) := by cbv
  have accepted : parse circularMacros (.named "unit") "\x7bE\x7d" =
      .ok (.seq [byte 0x65, .alt [byte 0x30, byte 0x31]]) := by cbv
  have inPattern : lexemes false (utf8 "\x7bE\x7d") = [⟨.reference "E", utf8 "\x7bE\x7d"⟩] := by cbv
  have inFragment : lexemes false (utf8 "e\x7bD\x7d") =
      [⟨.operand (byte 0x65), utf8 "e\x7bD\x7d"⟩, ⟨.reference "D", utf8 "\x7bD\x7d"⟩] := by cbv
  have reached : circularMacros.Reaches "\x7bE\x7d" "D" := by
    refine ⟨"E", ⟨utf8 "\x7bE\x7d", ?_⟩,
      .single ⟨⟨"E", "e\x7bD\x7d", .api⟩, rfl, utf8 "\x7bD\x7d", ?_⟩⟩
    · rw [inPattern]
      exact List.mem_cons_self
    · rw [inFragment]
      exact List.mem_cons_of_mem _ List.mem_cons_self
  exact ⟨refused, (parse_expands _ _ _).2.2 _ refused, accepted, reached,
    ((parse_expands _ _ _).2.1 _ accepted _ reached).2⟩

end Pattern

end ScannerGen
