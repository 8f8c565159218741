import Mathlib
import ScannerGen.Proofs.Automaton.Order
import ScannerGen.Proofs.Scan.LongestMatch

/-!
# The findings about tokens

The findings that are reported beside the tables are exact: they can be read off the languages of
the patterns, though the generator looks at the states of an automaton only.

* `TokenTable.Covered` — a token all of whose matches go to tokens of a lower rank.
* `TokenTable.ShadowedBy` — who is named as the one that takes the matches of such a token.
* `Tables.mem_winners_iff`, `Tables.shadowedBy_shadow?` — what the states tell about a token.
* `Tables.warnings_of_build` — the findings, in order.
-/

namespace ScannerGen

namespace TokenTable

/-- Every match of a token that is not empty is a match of a token of a lower rank. -/
def Covered (tokens : TokenTable) (macros : MacroTable) (token : Nat) : Prop :=
  ∀ w ≠ [], tokens.Matches macros token w →
    ∃ other, tokens.Matches macros other w ∧ tokens.rank other < tokens.rank token

/-- The first match of a token that is not empty: the shortest one, and of those the least, byte
by byte. -/
structure FirstMatch (tokens : TokenTable) (macros : MacroTable) (token : Nat) (w : List UInt8) :
    Prop where
  nonempty : w ≠ []
  matched : tokens.Matches macros token w
  least : ∀ v ≠ [], tokens.Matches macros token v → ¬ List.Shortlex (· < ·) v w

/-- Who takes the matches of a token: the winner of its first match, if it has one. -/
inductive ShadowedBy (tokens : TokenTable) (macros : MacroTable) (token : Nat) :
    Option TokenRef → Prop
  | unmatched (never : ∀ w ≠ [], ¬ tokens.Matches macros token w) :
      ShadowedBy tokens macros token none
  | winner {w : List UInt8} {other : Nat} {t : Token} (first : tokens.FirstMatch macros token w)
      (wins : tokens.Wins macros other w) (found : tokens.get? other = some t) :
      ShadowedBy tokens macros token (some t.ref)

variable {tokens : TokenTable} {macros : MacroTable} {ds : List Declaration} {trees : List Pattern}

/-- The place of a settled token is its index. -/
theorem index_of_get? (settled : settle ds = .ok tokens) {i : Nat} {t : Token}
    (found : tokens.get? i = some t) : t.index = i := by
  rw [(settled_spec settled).2 i, Option.map_eq_some_iff] at found
  obtain ⟨_, _, rfl⟩ := found
  rfl

/-- A settled token stands at its own place. -/
theorem get?_index (settled : settle ds = .ok tokens) {t : Token} (member : t ∈ tokens.tokens) :
    tokens.get? t.index = some t := by
  obtain ⟨i, found⟩ := List.mem_iff_getElem?.1 member
  rw [index_of_get? settled found]
  exact found

/-- Since ranks differ, a token wins unless a token of a lower rank matches. -/
theorem wins_iff (settled : settle ds = .ok tokens) {token : Nat} {w : List UInt8} :
    tokens.Wins macros token w ↔ tokens.Matches macros token w ∧
      ¬ ∃ other, tokens.Matches macros other w ∧ tokens.rank other < tokens.rank token := by
  refine and_congr_right fun matched => ?_
  obtain ⟨t, found, _⟩ := matched
  constructor
  · rintro least ⟨other, matches', less⟩
    by_cases same : other = token
    · exact absurd less (by rw [same]; exact Nat.lt_irrefl _)
    · exact Nat.lt_asymm less (least other matches' same)
  · intro unbeaten other matches' differ
    obtain ⟨u, foundOther, _⟩ := id matches'
    have notLess : ¬ tokens.rank other < tokens.rank token := fun less => unbeaten ⟨other, matches', less⟩
    have ranks : tokens.rank token ≠ tokens.rank other := fun same =>
      differ (rank_injective settled found foundOther same).symm
    omega

theorem covered_iff (settled : settle ds = .ok tokens) {token : Nat} :
    tokens.Covered macros token ↔ ¬ ∃ w ≠ [], tokens.Wins macros token w := by
  simp only [Covered, wins_iff settled]
  push Not
  rfl

end TokenTable

namespace Tables

variable {tokens : TokenTable} {macros : MacroTable} {ds : List Declaration} {trees : List Pattern}

/-! ## Findings about the empty string -/

theorem filterMap_zip_of_forall₂ {α β γ : Type} {p : α → Prop} [DecidablePred p] {q : β → Bool}
    {f : α → γ} {xs : List α} {ys : List β} (agree : List.Forall₂ (fun x y => q y = true ↔ p x) xs ys) :
    ((xs.zip ys).filterMap fun (x, y) => if q y then some (f x) else none) = (xs.filter p).map f := by
  induction agree with
  | nil => rfl
  | @cons x y xs ys first _ ih =>
    rw [List.zip_cons_cons, List.filterMap_cons, List.filter_cons, ih]
    by_cases passes : p x
    · simp [passes, first.2 passes]
    · simp [passes, first]

theorem nullable_iff_matches (settled : settle ds = .ok tokens) {t : Token} {tree : Pattern}
    (ordered : tree.countsOrdered = true) (member : t ∈ tokens.tokens)
    (parsed : t.tree macros = .ok tree) :
    tree.nullable = true ↔ tokens.Matches macros t.index [] := by
  rw [Pattern.nullable_iff ordered, TokenTable.Matches, TokenTable.get?_index settled member]
  constructor
  · intro matched
    exact ⟨t, rfl, tree, parsed, matched⟩
  · rintro ⟨t', same, tree', parsed', matched⟩
    rw [← Option.some.inj same, parsed] at parsed'
    rwa [Except.ok.inj parsed']

/-- The tokens that are told about empty matches are those with such a match. -/
theorem emptyWarnings_eq (settled : settle ds = .ok tokens) (read : tokens.trees macros = .ok trees)
    [DecidablePred fun t : Token => tokens.Matches macros t.index []] :
    emptyWarnings tokens trees =
      (tokens.tokens.filter fun t => tokens.Matches macros t.index []).map fun t =>
        .matchesEmpty t.ref := by
  have ordered := countsOrdered_of_trees read
  obtain ⟨length, parsed⟩ := List.forall₂_iff_get.1 (TokenTable.forall₂_of_mapM_eq_ok read)
  have agree : List.Forall₂ (fun (t : Token) (tree : Pattern) =>
      tree.nullable = true ↔ tokens.Matches macros t.index []) tokens.tokens trees := by
    refine List.forall₂_iff_get.2 ⟨length, fun i inside bound => ?_⟩
    exact nullable_iff_matches settled (ordered _ (List.get_mem _ _)) (List.get_mem _ _)
      (parsed i inside bound)
  exact filterMap_zip_of_forall₂ (f := fun t : Token => Warning.matchesEmpty t.ref) agree

/-! ## Findings about states -/

/-- The candidates of the state after a string are the tokens that match it. -/
theorem mem_candidates_run (read : tokens.trees macros = .ok trees) (w : List UInt8) (token : Nat) :
    token ∈ ((Nfa.ofPatterns trees).determinize tokens.rank).candidates.getD
        (((Nfa.ofPatterns trees).determinize tokens.rank).dfa.run w) [] ↔
      tokens.Matches macros token w := by
  have ordered := countsOrdered_of_trees read
  rw [Nfa.candidates_determinize _ (Nfa.values_run _ (Nfa.size_ofPatterns_pos ordered) w),
    Nfa.mem_candidates, mem_accepting_iff_matches read ordered]

/-- A token wins a state exactly if it wins a string. -/
theorem mem_winners_iff (settled : settle ds = .ok tokens) (read : tokens.trees macros = .ok trees)
    {token : Nat} :
    token ∈ ((Nfa.ofPatterns trees).determinize tokens.rank).dfa.states.toList.filterMap
        Dfa.State.token ↔
      ∃ w ≠ [], tokens.Wins macros token w := by
  have ordered := countsOrdered_of_trees read
  have decides := decides_determinize settled read ordered
  have nonempty := Nfa.size_ofPatterns_pos ordered
  constructor
  · intro member
    obtain ⟨state, listed, won⟩ := List.mem_filterMap.1 member
    obtain ⟨d, place⟩ := Array.mem_iff_getElem?.1 (Array.mem_toList_iff.1 listed)
    have wins : ((Nfa.ofPatterns trees).determinize tokens.rank).dfa.token? d = some token := by
      rw [Dfa.token?, place, Option.bind_some, won]
    -- Neither the reject state nor the start state has a winner.
    have accessible : d ≠ Dfa.rejectId := by
      rintro rfl
      cases wins.symm.trans decides.wellFormed.reject_token
    obtain ⟨w, reached, _⟩ :=
      Nfa.exists_access tokens.rank nonempty (Array.getElem?_eq_some_iff.1 place).1 accessible
    have read' : w ≠ [] := by
      rintro rfl
      obtain rfl : Dfa.startId = d := reached
      rw [Nfa.token?_determinize tokens.rank nonempty (Nfa.explored_spec nonempty).2.2.2,
        if_pos rfl] at wins
      cases wins
    exact ⟨w, read', (decides.winner w read' token).1 (by rw [reached, wins])⟩
  · rintro ⟨w, read', wins⟩
    have found := (decides.winner w read' token).2 wins
    obtain ⟨state, place, won⟩ := Option.bind_eq_some_iff.1 found
    exact List.mem_filterMap.2 ⟨state, Array.mem_toList_iff.2 (Array.mem_of_getElem? place), won⟩

/-- A state that has a token among its candidates, the start apart, is reached by a match of the
token, and what comes before this match leads to states of lower numbers. -/
theorem exists_match_of_candidate (read : tokens.trees macros = .ok trees) {token d : Nat}
    (inside : d < ((Nfa.ofPatterns trees).determinize tokens.rank).dfa.size)
    (notStart : d ≠ Dfa.startId)
    (candidate : token ∈ ((Nfa.ofPatterns trees).determinize tokens.rank).candidates.getD d []) :
    ∃ w ≠ [], ((Nfa.ofPatterns trees).determinize tokens.rank).dfa.run w = d ∧
      tokens.Matches macros token w ∧
      ∀ v, List.Shortlex (· < ·) v w →
        ((Nfa.ofPatterns trees).determinize tokens.rank).dfa.run v < d := by
  have nonempty := Nfa.size_ofPatterns_pos (countsOrdered_of_trees read)
  have accessible : d ≠ Dfa.rejectId := by
    -- The reject state stands for the empty set.
    rintro rfl
    rw [Nfa.candidates_determinize _ (Nfa.explored_spec nonempty).2.2.1, Nfa.mem_candidates] at candidate
    cases candidate
  obtain ⟨w, reached, earlier⟩ := Nfa.exists_access tokens.rank nonempty inside accessible
  have matched := (mem_candidates_run read w token).1 (by rwa [reached])
  refine ⟨w, ?_, reached, matched, earlier⟩
  rintro rfl
  exact notStart reached.symm

/-- The first match of a token leads to the first state, the start apart, that has the token among
its candidates: earlier strings lead to states of lower numbers. -/
theorem exists_firstMatch (read : tokens.trees macros = .ok trees) {token d : Nat}
    (inside : d < ((Nfa.ofPatterns trees).determinize tokens.rank).dfa.size)
    (notStart : d ≠ Dfa.startId)
    (candidate : token ∈ ((Nfa.ofPatterns trees).determinize tokens.rank).candidates.getD d [])
    (first : ∀ e < d, e ≠ Dfa.startId →
      token ∉ ((Nfa.ofPatterns trees).determinize tokens.rank).candidates.getD e []) :
    ∃ w, ((Nfa.ofPatterns trees).determinize tokens.rank).dfa.run w = d ∧
      tokens.FirstMatch macros token w := by
  have ordered := countsOrdered_of_trees read
  have nonempty := Nfa.size_ofPatterns_pos ordered
  have apart := Nfa.startApart_ofPatterns ordered
  obtain ⟨w, notEmpty, reached, matched, earlier⟩ :=
    exists_match_of_candidate read inside notStart candidate
  refine ⟨w, reached, notEmpty, matched, fun v read' matched' less => ?_⟩
  exact first _ (earlier v less) (Nfa.run_ne_startId tokens.rank nonempty apart read')
    ((mem_candidates_run read v token).2 matched')

/-- The token that is named beside a token takes its matches. -/
theorem shadowedBy_shadow? (settled : settle ds = .ok tokens)
    (read : tokens.trees macros = .ok trees) (token : Nat) :
    tokens.ShadowedBy macros token
      ((shadow? ((Nfa.ofPatterns trees).determinize tokens.rank) token).bind fun other =>
        (tokens.get? other).map Token.ref) := by
  have ordered := countsOrdered_of_trees read
  have decides := decides_determinize settled read ordered
  have nonempty := Nfa.size_ofPatterns_pos ordered
  have apart := Nfa.startApart_ofPatterns ordered
  rw [shadow?]
  cases found : (List.range ((Nfa.ofPatterns trees).determinize tokens.rank).dfa.size).find? (fun s =>
      s != ((Nfa.ofPatterns trees).determinize tokens.rank).dfa.start &&
        (((Nfa.ofPatterns trees).determinize tokens.rank).candidates.getD s []).contains token) with
  | none =>
    refine .unmatched fun w read' matched => ?_
    have absent := List.find?_eq_none.1 found _ (List.mem_range.2 (decides.wellFormed.run_lt w))
    have candidate := List.contains_iff_mem.2 ((mem_candidates_run read w token).2 matched)
    have notStart := bne_iff_ne.2 (Nfa.run_ne_startId tokens.rank nonempty apart read')
    exact absent (Bool.and_eq_true_iff.2 ⟨notStart, candidate⟩)
  | some d =>
    obtain ⟨passed, inside, before⟩ := List.find?_range_eq_some.1 found
    obtain ⟨notStart, candidate⟩ := Bool.and_eq_true_iff.1 passed
    have earlier : ∀ e < d, e ≠ Dfa.startId →
        token ∉ ((Nfa.ofPatterns trees).determinize tokens.rank).candidates.getD e [] := by
      intro e less differ listed
      have chosen := Bool.and_eq_true_iff.2 ⟨bne_iff_ne.2 differ, List.contains_iff_mem.2 listed⟩
      exact Bool.eq_false_iff.1 (Bool.not_eq_eq_eq_not.1 (before e less)) chosen
    obtain ⟨w, reached, first⟩ := exists_firstMatch read (List.mem_range.1 inside)
      (bne_iff_ne.1 notStart) (List.contains_iff_mem.1 candidate) earlier
    -- The token matches there, so some token wins.
    cases won : ((Nfa.ofPatterns trees).determinize tokens.rank).dfa.token? d with
    | none =>
      rw [← reached] at won
      exact absurd first.matched ((decides.unmatched w first.nonempty).1 won token)
    | some other =>
      have wins := (decides.winner w first.nonempty other).1 (by rw [reached, won])
      obtain ⟨t, listed, _⟩ := wins.1
      rw [Option.bind_some, won, Option.bind_some, listed, Option.map_some]
      exact .winner first wins listed

/-! ## All findings -/

/-- The tokens that are told that they cannot be matched are those that are covered. -/
theorem unreachableWarnings_eq (settled : settle ds = .ok tokens)
    (read : tokens.trees macros = .ok trees)
    [DecidablePred fun t : Token => tokens.Covered macros t.index] :
    unreachableWarnings tokens ((Nfa.ofPatterns trees).determinize tokens.rank) =
      (tokens.tokens.filter fun t => tokens.Covered macros t.index).map fun t =>
        .unreachable t.ref
          ((shadow? ((Nfa.ofPatterns trees).determinize tokens.rank) t.index).bind fun other =>
            (tokens.get? other).map Token.ref) := by
  rw [unreachableWarnings, ← List.filterMap_eq_map, List.filterMap_filter]
  refine List.filterMap_congr fun t _ => ?_
  have winners : t.index ∈ _ ↔ _ := mem_winners_iff settled read
  by_cases covered : tokens.Covered macros t.index
  · have absent := mt winners.1 ((TokenTable.covered_iff settled).1 covered)
    rw [if_neg (mt List.contains_iff_mem.1 absent), if_pos (decide_eq_true covered)]
    rfl
  · have won := winners.2 (not_not.1 (mt (TokenTable.covered_iff settled).2 covered))
    rw [if_pos (List.contains_iff_mem.2 won), if_neg (by simpa using covered)]

open Classical in
/-- The findings about settled tokens are exact, in the order of the declarations, and whether the
tables are minimized makes no difference: first the tokens that match the empty string, then those
whose other matches all go to tokens of lower ranks, each with the winner of its first match. -/
theorem warnings_of_build {minimize : Bool} {built : Tables.Built}
    (settled : settle ds = .ok tokens) (succeeded : Tables.build tokens macros minimize = .ok built) :
    (∃ unreachable,
      built.warnings =
        (tokens.tokens.filter fun t => tokens.Matches macros t.index []).map
          (fun t => .matchesEmpty t.ref) ++ unreachable ∧
      List.Forall₂
        (fun t warning => ∃ shadow, warning = .unreachable t.ref shadow ∧
          tokens.ShadowedBy macros t.index shadow)
        (tokens.tokens.filter fun t => tokens.Covered macros t.index) unreachable) ∧
    ∀ other, ∃ built', Tables.build tokens macros other = .ok built' ∧
      built'.warnings = built.warnings := by
  obtain ⟨trees, read, rfl⟩ := build_eq_ok_iff.1 succeeded
  refine ⟨⟨unreachableWarnings tokens ((Nfa.ofPatterns trees).determinize tokens.rank), ?_, ?_⟩,
    fun other => ⟨_, build_eq_ok_iff.2 ⟨trees, read, rfl⟩, rfl⟩⟩
  · rw [ofTrees, emptyWarnings_eq settled read]
  · rw [unreachableWarnings_eq settled read, List.forall₂_map_right_iff, List.forall₂_same]
    exact fun t _ => ⟨_, rfl, shadowedBy_shadow? settled read t.index⟩

/-- Two tokens for one letter. -/
def repeatedLetter : TokenTable :=
  ⟨[⟨0, 0, some "a", .keyword, "KEYWORD", 1, none, false, .api⟩,
    ⟨1, 1, some "a", .const, "CONST", 2, none, false, .api⟩]⟩

theorem trees_repeatedLetter :
    repeatedLetter.trees .empty = .ok [.byte Ascii.letterA, .byte Ascii.letterA] := by
  cbv

theorem matches_repeatedLetter {token : Nat} {w : List UInt8} :
    repeatedLetter.Matches .empty token w ↔ token < 2 ∧ w = [Ascii.letterA] := by
  rw [TokenTable.matches_iff_getElem? trees_repeatedLetter]
  match token with
  | 0 => simp [Pattern.mem_language_byte]
  | 1 => simp [Pattern.mem_language_byte]
  | n + 2 => simp

/-- The second of two tokens for one letter is never matched, and the first one is named. -/
theorem warnings_of_build_repeated :
    ∃ built, settle [.ofCategory .keyword (some "a") .api, .ofCategory .const (some "a") .api] =
        .ok repeatedLetter ∧
      Tables.build repeatedLetter .empty true = .ok built ∧
      built.warnings = [.unreachable ⟨1, "CONST", .api⟩ (some ⟨0, "KEYWORD", .api⟩)] := by
  have settled : settle [.ofCategory .keyword (some "a") .api, .ofCategory .const (some "a") .api] =
      .ok repeatedLetter := by
    decide
  have succeeded := build_eq_ok_iff.2 ⟨_, trees_repeatedLetter, @rfl _ (ofTrees repeatedLetter _ true)⟩
  obtain ⟨⟨unreachable, listed, found⟩, _⟩ := warnings_of_build settled succeeded
  refine ⟨_, settled, succeeded, ?_⟩
  have notEmpty : ∀ token, ¬ repeatedLetter.Matches .empty token [] := fun token matched =>
    List.cons_ne_nil _ _ (matches_repeatedLetter.1 matched).2.symm
  have first : repeatedLetter.Wins .empty 0 [Ascii.letterA] := by
    refine ⟨matches_repeatedLetter.2 ⟨Nat.two_pos, rfl⟩, fun other matches' differ => ?_⟩
    obtain rfl : other = 1 := by have := (matches_repeatedLetter.1 matches').1; omega
    decide
  have free : ¬ repeatedLetter.Covered .empty 0 := fun covered =>
    (TokenTable.covered_iff settled).1 covered ⟨_, List.cons_ne_nil _ _, first⟩
  have covered : repeatedLetter.Covered .empty 1 := by
    intro w _ matched
    obtain ⟨_, rfl⟩ := matches_repeatedLetter.1 matched
    exact ⟨0, first.1, by decide⟩
  rw [List.filter_eq_nil_iff.2 fun t _ => by simpa using notEmpty t.index, List.map_nil,
    List.nil_append] at listed
  have both : repeatedLetter.tokens = [_, _] := rfl
  rw [both, List.filter_cons_of_neg (by simpa using free),
    List.filter_cons_of_pos (by simpa using covered), List.filter_nil] at found
  obtain ⟨_, _, ⟨shadow, finding, shadowed⟩, last, rfl⟩ := List.forall₂_cons_left_iff.1 found
  cases last
  rw [listed, finding]
  cases shadowed with
  | unmatched never =>
    exact absurd (matches_repeatedLetter.2 ⟨Nat.one_lt_two, rfl⟩) (never _ (List.cons_ne_nil _ _))
  | @winner w other t firstMatch wins named =>
    obtain ⟨_, rfl⟩ := matches_repeatedLetter.1 firstMatch.matched
    have same : other = 0 := by
      by_contra differ
      exact Nat.lt_asymm (first.2 other wins.1 differ) (wins.2 0 first.1 (Ne.symm differ))
    rw [same] at named
    cases named
    rfl

end Tables

end ScannerGen
