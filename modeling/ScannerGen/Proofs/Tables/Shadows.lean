import ScannerGen.Proofs.Tables.Warnings

/-!
# Tokens that take the matches of others

A token that cannot be matched is reported beside the winner of one state, and the report says that
this winner always wins.  The matches of the token may be spread over several states though, each
with a winner of its own.

* `TokenTable.AlwaysWins` — one token wins every match of another.
* `Nfa.Determinized.WinsStates` — the same, said about the states that hold the other token.
* `Tables.alwaysWins_iff_winsStates` — strings and states say the same.
* `Tables.alwaysWins_iff_of_reported` — what a report says, and when it is right.
-/

namespace ScannerGen

/-- A token wins every match of another one that is not empty. -/
def TokenTable.AlwaysWins (tokens : TokenTable) (macros : MacroTable) (winner token : Nat) : Prop :=
  ∀ w ≠ [], tokens.Matches macros token w → tokens.Wins macros winner w

/-- A token wins every state, the start apart, that has another one among its candidates. -/
def Nfa.Determinized.WinsStates (automaton : Nfa.Determinized) (winner token : Nat) : Prop :=
  ∀ d < automaton.dfa.size, d ≠ Dfa.startId → token ∈ automaton.candidates.getD d [] →
    automaton.dfa.token? d = some winner

variable {tokens : TokenTable} {macros : MacroTable} {ds : List Declaration} {trees : List Pattern}

/-- At most one token wins a string. -/
theorem TokenTable.wins_unique {token other : Nat} {w : List UInt8}
    (wins : tokens.Wins macros token w) (wins' : tokens.Wins macros other w) : token = other := by
  by_contra differ
  have less := wins.2 other wins'.1 (Ne.symm differ)
  have greater := wins'.2 token wins.1 differ
  omega

/-- Whoever wins one match is the only one that can win all of them. -/
theorem TokenTable.AlwaysWins.of_exists {winner token : Nat} {w : List UInt8} (read : w ≠ [])
    (matched : tokens.Matches macros token w) (wins : tokens.Wins macros winner w)
    (taken : ∃ other, tokens.AlwaysWins macros other token) :
    tokens.AlwaysWins macros winner token := by
  obtain ⟨other, always⟩ := taken
  rw [TokenTable.wins_unique wins (always w read matched)]
  exact always

namespace Tables

/-- What one token takes from another can be read off all the states that hold the other. -/
theorem alwaysWins_iff_winsStates (settled : settle ds = .ok tokens)
    (read : tokens.trees macros = .ok trees) {winner token : Nat} :
    tokens.AlwaysWins macros winner token ↔
      ((Nfa.ofPatterns trees).determinize tokens.rank).WinsStates winner token := by
  have ordered := countsOrdered_of_trees read
  have decides := decides_determinize settled read ordered
  constructor
  · intro always d inside notStart candidate
    obtain ⟨w, read', reached, matched, _⟩ :=
      exists_match_of_candidate read inside notStart candidate
    rw [← reached]
    exact (decides.winner w read' winner).2 (always w read' matched)
  · intro everywhere w read' matched
    have notStart := Nfa.run_ne_startId tokens.rank (Nfa.size_ofPatterns_pos ordered)
      (Nfa.startApart_ofPatterns ordered) read'
    have candidate := (mem_candidates_run read w token).2 matched
    exact (decides.winner w read' winner).1
      (everywhere _ (decides.wellFormed.run_lt w) notStart candidate)

/-! ## Reports -/

/-- A token has one first match at most. -/
theorem firstMatch_unique {token : Nat} {v w : List UInt8} (first : tokens.FirstMatch macros token v)
    (first' : tokens.FirstMatch macros token w) : v = w := by
  have notLess := first.least w first'.nonempty first'.matched
  have notGreater := first'.least v first.nonempty first.matched
  exact Std.Trichotomous.trichotomous v w notGreater notLess

/-- The least of the bytes that a token matches is its first match. -/
theorem firstMatch_singleton {token : Nat} {b : UInt8} (matched : tokens.Matches macros token [b])
    (least : ∀ c, tokens.Matches macros token [c] → ¬ c < b) :
    tokens.FirstMatch macros token [b] := by
  refine ⟨List.cons_ne_nil _ _, matched, fun v read matched' less => ?_⟩
  match v with
  | [] => exact read rfl
  | [c] => exact least c matched' ((List.shortlex_singleton_iff c b).1 less)
  | c :: d :: v =>
    have longer := List.shortlex_def.1 less
    simp at longer

/-- The token that is named is the winner of the first match. -/
theorem eq_of_shadowedBy (settled : settle ds = .ok tokens) {token : Nat} {shadow : Option TokenRef}
    {w : List UInt8} {u : Token} (shadowed : tokens.ShadowedBy macros token shadow)
    (first : tokens.FirstMatch macros token w) (wins : tokens.Wins macros u.index w)
    (member : u ∈ tokens.tokens) : shadow = some u.ref := by
  cases shadowed with
  | unmatched never => exact absurd first.matched (never w first.nonempty)
  | winner first' wins' found =>
    rw [← firstMatch_unique first first'] at wins'
    rw [← TokenTable.wins_unique wins wins', TokenTable.get?_index settled member] at found
    rw [Option.some.inj found]

/-- The reports that name a winner are about the covered tokens that have a match, and name the
winner of the first one. -/
theorem reported_iff {minimize : Bool} {built : Tables.Built} {token winner : TokenRef}
    (settled : settle ds = .ok tokens) (succeeded : Tables.build tokens macros minimize = .ok built) :
    .unreachable token (some winner) ∈ built.warnings ↔
      ∃ t ∈ tokens.tokens, ∃ u ∈ tokens.tokens, t.ref = token ∧ u.ref = winner ∧
        tokens.Covered macros t.index ∧
          ∃ w, tokens.FirstMatch macros t.index w ∧ tokens.Wins macros u.index w := by
  classical
  obtain ⟨trees, read, rfl⟩ := build_eq_ok_iff.1 succeeded
  rw [ofTrees, List.mem_append, emptyWarnings_eq settled read, unreachableWarnings_eq settled read]
  simp only [List.mem_map, List.mem_filter, decide_eq_true_eq, reduceCtorEq, and_false, exists_false,
    false_or, Warning.unreachable.injEq]
  constructor
  · rintro ⟨t, ⟨member, covered⟩, same, named⟩
    have shadowed := shadowedBy_shadow? settled read t.index
    rw [named] at shadowed
    cases shadowed with
    | @winner w _ u first wins found =>
      rw [← TokenTable.index_of_get? settled found] at wins
      exact ⟨t, member, u, List.mem_of_getElem? found, same, rfl, covered, w, first, wins⟩
  · rintro ⟨t, member, u, listed, same, rfl, covered, w, first, wins⟩
    refine ⟨t, ⟨member, covered⟩, same, ?_⟩
    exact eq_of_shadowedBy settled (shadowedBy_shadow? settled read t.index) first wins listed

/-- A report that a token is never matched and another one always wins is right about the first
half: all matches go to tokens of lower ranks, and the first match goes to the one that is named.
That one wins all of them exactly if any single token does.  In terms of the automaton: exactly if it
wins every state that holds the token, and not only the first of them. -/
theorem alwaysWins_iff_of_reported {minimize : Bool} {built : Tables.Built} {token winner : TokenRef}
    (settled : settle ds = .ok tokens) (succeeded : Tables.build tokens macros minimize = .ok built)
    (reported : .unreachable token (some winner) ∈ built.warnings) :
    tokens.Covered macros token.index ∧
    (∃ w, tokens.FirstMatch macros token.index w ∧ tokens.Wins macros winner.index w) ∧
    (tokens.AlwaysWins macros winner.index token.index ↔
      ∃ other, tokens.AlwaysWins macros other token.index) ∧
    ∃ trees, tokens.trees macros = .ok trees ∧
      (tokens.AlwaysWins macros winner.index token.index ↔
        ((Nfa.ofPatterns trees).determinize tokens.rank).WinsStates winner.index token.index) := by
  obtain ⟨trees, read, _⟩ := build_eq_ok_iff.1 succeeded
  obtain ⟨t, _, u, _, rfl, rfl, covered, w, first, wins⟩ :=
    (reported_iff settled succeeded).1 reported
  refine ⟨covered, ⟨w, first, wins⟩, ⟨fun always => ⟨_, always⟩, ?_⟩,
    trees, read, alwaysWins_iff_winsStates settled read⟩
  exact TokenTable.AlwaysWins.of_exists first.nonempty first.matched wins

/-- The second of two tokens for one letter loses its only match to the first, which is named. -/
theorem alwaysWins_iff_of_reported_repeated :
    ∃ built, settle [.ofCategory .keyword (some "a") .api, .ofCategory .const (some "a") .api] =
        .ok repeatedLetter ∧
      Tables.build repeatedLetter .empty true = .ok built ∧
      .unreachable ⟨1, "CONST", .api⟩ (some ⟨0, "KEYWORD", .api⟩) ∈ built.warnings ∧
      repeatedLetter.AlwaysWins .empty 0 1 := by
  have settled : settle [.ofCategory .keyword (some "a") .api, .ofCategory .const (some "a") .api] =
      .ok repeatedLetter := by
    decide
  have succeeded := build_eq_ok_iff.2 ⟨_, trees_repeatedLetter, @rfl _ (ofTrees repeatedLetter _ true)⟩
  have wins : repeatedLetter.Wins .empty 0 [Ascii.letterA] := by
    refine ⟨matches_repeatedLetter.2 ⟨Nat.two_pos, rfl⟩, fun other matched differ => ?_⟩
    obtain rfl : other = 1 := by have := (matches_repeatedLetter.1 matched).1; omega
    decide
  have first : repeatedLetter.FirstMatch .empty 1 [Ascii.letterA] := by
    refine firstMatch_singleton (matches_repeatedLetter.2 ⟨Nat.one_lt_two, rfl⟩) fun c matched => ?_
    rw [List.singleton_inj.1 (matches_repeatedLetter.1 matched).2]
    decide
  have covered : repeatedLetter.Covered .empty 1 := by
    intro w _ matched
    rw [(matches_repeatedLetter.1 matched).2]
    exact ⟨0, wins.1, by decide⟩
  have reported := (reported_iff settled succeeded).2
    ⟨_, .tail _ (.head _), _, .head _, rfl, rfl, covered, _, first, wins⟩
  obtain ⟨_, _, single, _⟩ := alwaysWins_iff_of_reported settled succeeded reported
  refine ⟨_, settled, succeeded, reported, single.2 ⟨0, fun v _ matched => ?_⟩⟩
  rw [(matches_repeatedLetter.1 matched).2]
  exact wins

/-- A token for each of two letters, and one for both of them. -/
def eitherLetter : TokenTable :=
  ⟨[⟨0, 0, some "a", .keyword, "KEYWORD", 1, none, false, .api⟩,
    ⟨1, 1, some "b", .const, "CONST", 2, none, false, .api⟩,
    ⟨2, 2, some "a|b", .ident, "IDENT", 3, none, false, .api⟩]⟩

theorem trees_eitherLetter :
    eitherLetter.trees .empty =
      .ok [.byte Ascii.letterA, .byte Ascii.letterB, .alt [.byte Ascii.letterA, .byte Ascii.letterB]] := by
  cbv

theorem matches_eitherLetter {token : Nat} {w : List UInt8} :
    eitherLetter.Matches .empty token w ↔
      (token = 0 ∨ token = 2) ∧ w = [Ascii.letterA] ∨
        (token = 1 ∨ token = 2) ∧ w = [Ascii.letterB] := by
  rw [TokenTable.matches_iff_getElem? trees_eitherLetter]
  match token with
  | 0 => simp [Pattern.mem_language_byte]
  | 1 => simp [Pattern.mem_language_byte]
  | 2 => simp [Pattern.mem_language_byte, Language.mem_add]
  | n + 3 => simp

/-- The token for both letters is reported beside the one for the first letter, which does not match
the second one. -/
theorem reportedWinner_loses :
    ∃ built, settle [.ofCategory .keyword (some "a") .api, .ofCategory .const (some "b") .api,
        .ofCategory .ident (some "a|b") .api] = .ok eitherLetter ∧
      Tables.build eitherLetter .empty true = .ok built ∧
      .unreachable ⟨2, "IDENT", .api⟩ (some ⟨0, "KEYWORD", .api⟩) ∈ built.warnings ∧
      eitherLetter.Matches .empty 2 [Ascii.letterB] ∧
      ¬ eitherLetter.Wins .empty 0 [Ascii.letterB] := by
  have settled : settle [.ofCategory .keyword (some "a") .api, .ofCategory .const (some "b") .api,
      .ofCategory .ident (some "a|b") .api] = .ok eitherLetter := by
    rfl
  have succeeded := build_eq_ok_iff.2 ⟨_, trees_eitherLetter, @rfl _ (ofTrees eitherLetter _ true)⟩
  have wins : eitherLetter.Wins .empty 0 [Ascii.letterA] := by
    refine ⟨matches_eitherLetter.2 (by decide), fun other matched differ => ?_⟩
    rcases matches_eitherLetter.1 matched with ⟨rfl | rfl, _⟩ | ⟨_, other⟩
    · exact absurd rfl differ
    · decide
    · exact absurd other (by decide)
  have first : eitherLetter.FirstMatch .empty 2 [Ascii.letterA] := by
    refine firstMatch_singleton (matches_eitherLetter.2 (by decide)) fun c matched => ?_
    rcases matches_eitherLetter.1 matched with ⟨_, read⟩ | ⟨_, read⟩
    · rw [List.singleton_inj.1 read]
      decide
    · rw [List.singleton_inj.1 read]
      decide
  have covered : eitherLetter.Covered .empty 2 := by
    intro w _ matched
    rcases matches_eitherLetter.1 matched with ⟨_, rfl⟩ | ⟨_, rfl⟩
    · exact ⟨0, wins.1, by decide⟩
    · exact ⟨1, matches_eitherLetter.2 (by decide), by decide⟩
  have reported := (reported_iff settled succeeded).2
    ⟨_, .tail _ (.tail _ (.head _)), _, .head _, rfl, rfl, covered, _, first, wins⟩
  refine ⟨_, settled, succeeded, reported, matches_eitherLetter.2 (by decide), fun wins => ?_⟩
  exact absurd (matches_eitherLetter.1 wins.1) (by decide)

end Tables

end ScannerGen
