import Mathlib.Data.List.Forall2
import ScannerGen.Proofs.Pattern.Language
import ScannerGen.Tables.Build
import ScannerGen.Token.Settle

/-!
# Settled tokens

Settling gives each token a rank of its own, since only one declaration may go without a pattern.

* `TokenTable.settle_eq_ok_iff` — what it takes to be settled, and what comes of it.
* `TokenTable.rank_injective` — no two settled tokens have one rank.
* `TokenTable.Matches`, `TokenTable.Wins` — what it is for a token to match a string, and to match
  it with the least rank, said by the trees of the patterns.
* `TokenTable.matches_iff_getElem?` — the trees of a table are those of its tokens, in order.
-/

namespace ScannerGen

/-! ## Ranks -/

/-- Without a fault there is at most one catch-all. -/
theorem pairwise_of_firstFault?_eq_none {index : Nat} {catchAll : Option TokenRef}
    {ds : List Declaration} (faultless : firstFault? index catchAll ds = none) :
    ds.Pairwise (fun d e => d.pattern.isSome ∨ e.pattern.isSome) ∧
      (catchAll.isSome → ∀ d ∈ ds, d.pattern.isSome) := by
  induction ds generalizing index catchAll with
  | nil => exact ⟨.nil, fun _ _ absent => absurd absent List.not_mem_nil⟩
  | cons d ds ih =>
    rw [firstFault?] at faultless
    split at faultless
    · cases faultless
    · next sound =>
      obtain ⟨pairwise, only⟩ := ih faultless
      cases written : d.pattern with
      | some text =>
        rw [written, Option.isNone_some, if_neg Bool.false_ne_true] at only
        have first : d.pattern.isSome := by rw [written, Option.isSome_some]
        refine ⟨List.pairwise_cons.2 ⟨fun _ _ => .inl first, pairwise⟩, fun seen => ?_⟩
        exact List.forall_mem_cons.2 ⟨first, only seen⟩
      | none =>
        rw [written, Option.isNone_none, if_pos rfl] at only
        refine ⟨List.pairwise_cons.2 ⟨fun e member => .inr (only rfl e member), pairwise⟩, ?_⟩
        -- A second catch-all is a fault of its own.
        intro seen
        obtain ⟨earlier, rfl⟩ := Option.isSome_iff_exists.1 seen
        simp only [Declaration.fault?, written] at sound
        split at sound
        · cases sound
        · split at sound <;> cases sound

theorem length_assignIds (ds : List Declaration) (free : List Nat) :
    (assignIds ds free).length = ds.length := by
  induction ds generalizing free with
  | nil => rfl
  | cons d ds ih =>
    unfold assignIds
    split <;> rw [List.length_cons, ih, List.length_cons]

namespace TokenTable

variable {tokens : TokenTable} {ds : List Declaration}

theorem settle_eq_ok_iff : settle ds = .ok tokens ↔ ds ≠ [] ∧ firstFault? 0 none ds = none ∧
    identifierFault? ds = none ∧ idFault? ds = none ∧
    tokens = ⟨(ds.zip (settledIds ds)).mapIdx fun index (d, id) => d.settle index ds.length id⟩ := by
  rw [settle]
  split
  · next empty => simp [empty]
  · next some =>
    split
    · next faulty => simp [faulty]
    · next sound =>
      split
      · next faulty => simp [faulty]
      · next distinct =>
        split
        · next faulty => simp [faulty]
        · next free =>
          rw [Except.ok.injEq, eq_comm]
          exact ⟨fun same => ⟨some, sound, distinct, free, same⟩, fun parts => parts.2.2.2.2⟩

/-- What settling leaves of the declarations. -/
theorem settled_spec (settled : settle ds = .ok tokens) :
    ds.Pairwise (fun d e => d.pattern.isSome ∨ e.pattern.isSome) ∧
      ∀ i, tokens.get? i = (ds.zip (settledIds ds))[i]?.map fun (d, id) =>
        d.settle i ds.length id := by
  obtain ⟨_, faultless, _, _, rfl⟩ := settle_eq_ok_iff.1 settled
  refine ⟨(pairwise_of_firstFault?_eq_none faultless).1, fun i => ?_⟩
  rw [get?, List.getElem?_mapIdx]

theorem rank_of_settled (settled : settle ds = .ok tokens) {i : Nat} (inside : i < ds.length) :
    tokens.rank i = if ds[i].pattern.isNone then ds.length else i := by
  have paired : i < (ds.zip (settledIds ds)).length := by
    rw [List.length_zip, settledIds, length_assignIds, Nat.min_self]
    exact inside
  rw [rank, (settled_spec settled).2 i, List.getElem?_eq_getElem paired, List.getElem_zip]
  rfl

theorem lt_length_of_settled (settled : settle ds = .ok tokens) {i : Nat} {t : Token}
    (found : tokens.get? i = some t) : i < ds.length := by
  rw [(settled_spec settled).2 i, Option.map_eq_some_iff] at found
  obtain ⟨pair, place, _⟩ := found
  have bound := (List.getElem?_eq_some_iff.1 place).1
  rw [List.length_zip] at bound
  omega

/-- No two settled tokens have one rank. -/
theorem rank_injective (settled : settle ds = .ok tokens) {i j : Nat} {t u : Token}
    (foundI : tokens.get? i = some t) (foundJ : tokens.get? j = some u)
    (same : tokens.rank i = tokens.rank j) : i = j := by
  have boundI := lt_length_of_settled settled foundI
  have boundJ := lt_length_of_settled settled foundJ
  have single := List.pairwise_iff_getElem.1 (settled_spec settled).1
  rw [rank_of_settled settled boundI, rank_of_settled settled boundJ] at same
  cases patternI : ds[i].pattern with
  | some text =>
    cases patternJ : ds[j].pattern with
    | some text => simpa [patternI, patternJ] using same
    | none =>
      rw [patternI, patternJ, Option.isNone_some, Option.isNone_none, if_pos rfl] at same
      exact absurd same (Nat.ne_of_lt boundI)
  | none =>
    cases patternJ : ds[j].pattern with
    | some text =>
      rw [patternI, patternJ, Option.isNone_some, Option.isNone_none, if_pos rfl] at same
      exact absurd same.symm (Nat.ne_of_lt boundJ)
    | none =>
      -- Two tokens without a pattern: settled tables have no such pair.
      rcases Nat.lt_trichotomy i j with less | equal | greater
      · simpa [patternI, patternJ] using single i j boundI boundJ less
      · exact equal
      · simpa [patternI, patternJ] using single j i boundJ boundI greater

/-! ## Matching -/

/-- A token matches a string if the tree of its pattern does. -/
def Matches (tokens : TokenTable) (macros : MacroTable) (token : Nat) (w : List UInt8) : Prop :=
  ∃ t, tokens.get? token = some t ∧ ∃ tree, t.tree macros = .ok tree ∧ w ∈ tree.language

/-- A token wins a string if it matches, and all others that match rank behind it. -/
def Wins (tokens : TokenTable) (macros : MacroTable) (token : Nat) (w : List UInt8) : Prop :=
  tokens.Matches macros token w ∧
    ∀ other, tokens.Matches macros other w → other ≠ token → tokens.rank token < tokens.rank other

variable {macros : MacroTable} {trees : List Pattern}

theorem forall₂_of_mapM_eq_ok {α β ε : Type} {f : α → Except ε β} {xs : List α} {ys : List β}
    (succeeded : xs.mapM f = .ok ys) : List.Forall₂ (fun x y => f x = .ok y) xs ys := by
  induction xs generalizing ys with
  | nil =>
    rw [List.mapM_nil] at succeeded
    cases succeeded
    exact .nil
  | cons x xs ih =>
    rw [List.mapM_cons] at succeeded
    cases first : f x with
    | error e =>
      rw [first] at succeeded
      cases succeeded
    | ok y =>
      cases others : xs.mapM f with
      | error e =>
        rw [first, others] at succeeded
        cases succeeded
      | ok ys' =>
        rw [first, others] at succeeded
        cases succeeded
        exact .cons first (ih others)

theorem getElem?_trees (read : tokens.trees macros = .ok trees) (i : Nat) (tree : Pattern) :
    trees[i]? = some tree ↔ ∃ t, tokens.get? i = some t ∧ t.tree macros = .ok tree := by
  obtain ⟨length, agree⟩ := List.forall₂_iff_get.1 (forall₂_of_mapM_eq_ok read)
  constructor
  · intro found
    obtain ⟨bound, same⟩ := List.getElem?_eq_some_iff.1 found
    have inside : i < tokens.tokens.length := by
      rw [length]
      exact bound
    refine ⟨tokens.tokens[i], List.getElem?_eq_getElem inside, ?_⟩
    rw [← same]
    exact agree i inside bound
  · rintro ⟨t, found, parsed⟩
    obtain ⟨inside, rfl⟩ := List.getElem?_eq_some_iff.1 found
    have bound : i < trees.length := by
      rw [← length]
      exact inside
    have result : tokens.tokens[i].tree macros = .ok trees[i] := agree i inside bound
    rw [parsed] at result
    rw [List.getElem?_eq_getElem bound, Except.ok.inj result]

theorem matches_iff_getElem? (read : tokens.trees macros = .ok trees) {token : Nat}
    {w : List UInt8} :
    tokens.Matches macros token w ↔ ∃ tree, trees[token]? = some tree ∧ w ∈ tree.language := by
  constructor
  · rintro ⟨t, found, tree, parsed, matched⟩
    exact ⟨tree, (getElem?_trees read token tree).2 ⟨t, found, parsed⟩, matched⟩
  · rintro ⟨tree, found, matched⟩
    obtain ⟨t, listed, parsed⟩ := (getElem?_trees read token tree).1 found
    exact ⟨t, listed, tree, parsed, matched⟩

end TokenTable

end ScannerGen
