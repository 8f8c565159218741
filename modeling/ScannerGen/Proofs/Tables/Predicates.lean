import ScannerGen.Proofs.Scan.LongestMatch

/-!
# What a look at a tree tells

Whether a pattern matches the empty string, and which bytes its matches can contain, is read off the
tree without running anything.  For normal trees both answers are exact.

* `Normal.exists_mem_language` — every normal tree matches some string, so that nothing in a tree can
  keep the rest of it from being matched.
* `Normal.mentions_iff` — a byte is mentioned exactly if some match contains it.
* `predicates_exact` — the same for what is read as a pattern, and for the line flags of built tables.
-/

namespace ScannerGen

namespace Pattern

/-! ## Strings of products -/

variable {b : UInt8} {ls : List (Language UInt8)}

theorem exists_mem_prod (each : ∀ l ∈ ls, ∃ w, w ∈ l) : ∃ w, w ∈ ls.prod := by
  induction ls with
  | nil => exact ⟨[], by simp⟩
  | cons l ls ih =>
    obtain ⟨head, tail⟩ := List.forall_mem_cons.1 each
    obtain ⟨v, inHead⟩ := head
    obtain ⟨w, inTail⟩ := ih tail
    rw [List.prod_cons]
    exact ⟨v ++ w, Language.append_mem_mul inHead inTail⟩

/-- A byte of a string of one factor is one of a string of the product, if all other factors have
strings. -/
theorem exists_mem_prod_of_mem (each : ∀ l ∈ ls, ∃ w, w ∈ l) {l : Language UInt8} {v : List UInt8}
    (factor : l ∈ ls) (matched : v ∈ l) (inside : b ∈ v) : ∃ w ∈ ls.prod, b ∈ w := by
  induction ls with
  | nil => cases factor
  | cons m ls ih =>
    obtain ⟨head, tail⟩ := List.forall_mem_cons.1 each
    rw [List.prod_cons]
    cases factor with
    | head =>
      obtain ⟨w, inTail⟩ := exists_mem_prod tail
      exact ⟨v ++ w, Language.append_mem_mul matched inTail, List.mem_append_left w inside⟩
    | tail _ factor =>
      obtain ⟨u, inHead⟩ := head
      obtain ⟨w, inTail, later⟩ := ih tail factor
      exact ⟨u ++ w, Language.append_mem_mul inHead inTail, List.mem_append_right u later⟩

/-! ## Strings of normal trees -/

/-- Every normal tree matches some string: its sets have members, its choices have branches, and its
repetitions may have as many copies as they must. -/
theorem Normal.exists_mem_language {p : Pattern} (normal : p.Normal) : ∃ w, w ∈ p.language := by
  induction normal with
  | empty => exact ⟨[], by simp⟩
  | set inhabited =>
    obtain ⟨b, member⟩ := inhabited
    exact ⟨[b], b, member, rfl⟩
  | seq _ _ _ ih =>
    rw [language_seq]
    apply exists_mem_prod
    simpa using ih
  | @alt ps several _ _ ih =>
    obtain ⟨p, member⟩ := List.exists_mem_of_ne_nil ps (ne_nil_of_several several)
    obtain ⟨w, matched⟩ := ih p member
    exact ⟨w, mem_language_alt.2 ⟨p, member, matched⟩⟩
  | @rep body min max _ counts ih =>
    obtain ⟨w, copies⟩ := exists_mem_prod (List.forall_mem_replicate.2 (.inr ih))
    rw [List.prod_replicate] at copies
    exact ⟨w, min, Nat.le_refl min, fun n given => (counts.most n given).1, copies⟩

/-- Every byte that a normal tree mentions is in some match. -/
theorem Normal.exists_mem_of_mentions {p : Pattern} (normal : p.Normal)
    (mentioned : p.mentions b = true) : ∃ w ∈ p.language, b ∈ w := by
  induction normal with
  | empty => simp [mentions] at mentioned
  | set _ => exact ⟨[b], ⟨b, mentioned, rfl⟩, List.mem_cons_self⟩
  | seq _ each _ ih =>
    obtain ⟨p, member, inPart⟩ := anyMentions_iff.1 mentioned
    obtain ⟨v, matched, inside⟩ := ih p member inPart
    rw [language_seq]
    apply exists_mem_prod_of_mem _ (List.mem_map_of_mem member) matched inside
    simpa using fun q other => (each q other).exists_mem_language
  | alt _ _ _ ih =>
    obtain ⟨p, member, inBranch⟩ := anyMentions_iff.1 mentioned
    obtain ⟨w, matched, inside⟩ := ih p member inBranch
    exact ⟨w, mem_language_alt.2 ⟨p, member, matched⟩, inside⟩
  | @rep body min max normal counts ih =>
    simp only [mentions, Bool.and_eq_true, bne_iff_ne] at mentioned
    obtain ⟨some_copy, inBody⟩ := mentioned
    obtain ⟨v, matched, inside⟩ := ih inBody
    -- One copy has the byte, and there are as many as there have to be.
    have copy : body.language ∈ List.replicate (Max.max 1 min) body.language :=
      List.mem_replicate.2 ⟨by omega, rfl⟩
    obtain ⟨w, copies, found⟩ := exists_mem_prod_of_mem
      (List.forall_mem_replicate.2 (.inr normal.exists_mem_language)) copy matched inside
    rw [List.prod_replicate] at copies
    refine ⟨w, ⟨Max.max 1 min, Nat.le_max_right 1 min, fun n given => ?_, copies⟩, found⟩
    obtain ⟨ordered, _⟩ := counts.most n given
    have positive : n ≠ 0 := by
      rintro rfl
      exact some_copy given
    omega

theorem Normal.mentions_iff {p : Pattern} (normal : p.Normal) :
    p.mentions b = true ↔ ∃ w ∈ p.language, b ∈ w :=
  ⟨normal.exists_mem_of_mentions, fun ⟨_, matched, inside⟩ => mentions_of_mem matched inside⟩

end Pattern

/-! ## Patterns and tables -/

/-- What is read as a pattern is nullable exactly if it matches the empty string, and mentions exactly
the bytes of its matches.  So a token of built tables is flagged exactly if it matches a string with a
newline in it. -/
theorem predicates_exact (macros : MacroTable) :
    (∀ owner source tree, Pattern.parse macros owner source = .ok tree →
      (tree.nullable = true ↔ [] ∈ tree.language) ∧
      ∀ b, tree.mentions b = true ↔ ∃ w ∈ tree.language, b ∈ w) ∧
    ∀ tokens minimize built, Tables.build tokens macros minimize = .ok built → ∀ token,
      built.tables.endsLines[token]? = some true ↔
        ∃ w, tokens.Matches macros token w ∧ Ascii.newline ∈ w := by
  constructor
  · intro owner source tree accepted
    have normal := (Pattern.parse_normal accepted).1
    exact ⟨Pattern.nullable_iff normal.countsOrdered, fun b => normal.mentions_iff⟩
  · intro tokens minimize built succeeded token
    obtain ⟨trees, read, rfl⟩ := Tables.build_eq_ok_iff.1 succeeded
    have flags : (Tables.ofTrees tokens trees minimize).tables.endsLines =
        trees.toArray.map (Pattern.mentions Ascii.newline) := rfl
    rw [flags]
    simp only [Array.getElem?_map, List.getElem?_toArray, Option.map_eq_some_iff,
      TokenTable.matches_iff_getElem? read]
    constructor
    · rintro ⟨tree, found, mentioned⟩
      have normal := normal_of_trees read tree (List.mem_of_getElem? found)
      obtain ⟨w, matched, inside⟩ := normal.mentions_iff.1 mentioned
      exact ⟨w, ⟨tree, found, matched⟩, inside⟩
    · rintro ⟨w, ⟨tree, found, matched⟩, inside⟩
      exact ⟨tree, found, Pattern.mentions_of_mem matched inside⟩

/-- Newlines that are repeated no times are in no match, but the catch-all matches one. -/
theorem predicates_exact_omitted :
    Pattern.parse .empty (.named "unit") "\n\x7b0\x7d" =
        .ok (.rep (.byte Ascii.newline) 0 (some 0)) ∧
      [] ∈ Pattern.language (.rep (.byte Ascii.newline) 0 (some 0)) ∧
      (¬ ∃ w ∈ Pattern.language (.rep (.byte Ascii.newline) 0 (some 0)), Ascii.newline ∈ w) ∧
      (∃ built, Tables.build letterTable .empty true = .ok built) ∧
      ∃ w, letterTable.Matches .empty 1 w ∧ Ascii.newline ∈ w := by
  have count : Pattern.CountDigits [0x30] 0 := ⟨by decide, List.forall_mem_singleton.2 rfl, rfl, by decide⟩
  have accepted : Pattern.parse .empty (.named "unit") "\n\x7b0\x7d" =
      .ok (.rep (.byte Ascii.newline) 0 (some 0)) :=
    Pattern.parseFragment_iff.2 ⟨_, .complete (.branch (.item (.repeated
      (.once (.byte (by decide))) (.count (.exactly count)) (by decide)))) (by decide), rfl⟩
  obtain ⟨nullable, mentions⟩ := (predicates_exact .empty).1 _ _ _ accepted
  have flag : (Tables.ofTrees letterTable [.byte Ascii.letterA, .set .full] true).tables.endsLines[1]? =
      some true := by
    simp [Tables.ofTrees, Tables.ofDfa, Pattern.mentions]
  exact ⟨accepted, nullable.1 (by decide), mt (mentions Ascii.newline).2 (by decide),
    ⟨_, build_letterTable⟩, ((predicates_exact .empty).2 _ _ _ build_letterTable 1).1 flag⟩

end ScannerGen
