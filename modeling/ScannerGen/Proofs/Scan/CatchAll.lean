import ScannerGen.Proofs.Scan.Lexemes

/-!
# Scanning with a catch-all

A token without a pattern matches any single byte and ranks behind all other tokens.  With such a
token a scan never gets stuck, and it falls back on the token only where nothing else matches.

* `TokenTable.matches_catchAll_iff`, `TokenTable.rank_lt_of_catchAll` — what the catch-all matches,
  and how it ranks.
* `TokenTable.Longest.catchAll_iff` — where the longest match is that of the catch-all.
* `scan_of_catchAll` — every input is scanned.
-/

namespace ScannerGen

namespace TokenTable

variable {tokens : TokenTable} {macros : MacroTable} {ds : List Declaration} {k : Nat} {t : Token}

/-! ## The catch-all among the tokens -/

/-- The catch-all matches the strings of one byte. -/
theorem matches_catchAll_iff (listed : tokens.get? k = some t) (catchAll : t.isCatchAll)
    {w : List UInt8} : tokens.Matches macros k w ↔ ∃ b, w = [b] := by
  have tree : t.tree macros = .ok (.set .full) := by
    rw [Token.tree, Option.isNone_iff_eq_none.1 catchAll]
  constructor
  · rintro ⟨u, found, p, parsed, matched⟩
    obtain rfl : t = u := Option.some.inj (listed.symm.trans found)
    obtain rfl : Pattern.set .full = p := Except.ok.inj (tree.symm.trans parsed)
    obtain ⟨b, _, single⟩ := matched
    exact ⟨b, single⟩
  · rintro ⟨b, rfl⟩
    exact ⟨t, listed, _, tree, b, ByteSet.contains_full b, rfl⟩

theorem isCatchAll_iff_of_settled (settled : settle ds = .ok tokens) (listed : tokens.get? k = some t) :
    ∃ inside : k < ds.length, t.isCatchAll = ds[k].pattern.isNone := by
  rw [(settled_spec settled).2 k, Option.map_eq_some_iff] at listed
  obtain ⟨pair, place, rfl⟩ := listed
  obtain ⟨bound, same⟩ := List.getElem?_eq_some_iff.1 place
  have inside : k < ds.length := by
    rw [List.length_zip] at bound
    omega
  refine ⟨inside, ?_⟩
  rw [← same, List.getElem_zip]
  rfl

/-- Wherever the catch-all is declared, it ranks behind every other token. -/
theorem rank_lt_of_catchAll (settled : settle ds = .ok tokens) (listed : tokens.get? k = some t)
    (catchAll : t.isCatchAll) {other : Nat} {u : Token} (found : tokens.get? other = some u)
    (differ : other ≠ k) : tokens.rank other < tokens.rank k := by
  obtain ⟨inside, unwritten⟩ := isCatchAll_iff_of_settled settled listed
  have last : tokens.rank k = ds.length := by
    rw [rank_of_settled settled inside, if_pos (unwritten.symm.trans catchAll)]
  have bound := lt_length_of_settled settled found
  have most : tokens.rank other ≤ ds.length := by
    rw [rank_of_settled settled bound]
    split <;> omega
  -- No rank is higher, and no other token has the same one.
  have apart : tokens.rank other ≠ tokens.rank k := fun same =>
    differ (rank_injective settled found listed same)
  omega

/-! ## Longest matches -/

variable {input : List UInt8} {token length : Nat}

theorem Longest.length_eq_one (longest : tokens.Longest macros input k length)
    (listed : tokens.get? k = some t) (catchAll : t.isCatchAll) : length = 1 := by
  obtain ⟨b, single⟩ := (matches_catchAll_iff listed catchAll).1 longest.wins.1
  have same := congrArg List.length single
  rwa [List.length_take_of_le longest.bound, List.length_singleton] at same

/-- A longest match is that of the catch-all exactly where no other token matches. -/
theorem Longest.catchAll_iff (settled : settle ds = .ok tokens) (listed : tokens.get? k = some t)
    (catchAll : t.isCatchAll) (longest : tokens.Longest macros input token length) :
    token = k ↔ ∀ n, 0 < n → n ≤ input.length → ∀ other, other ≠ k →
      ¬ tokens.Matches macros other (input.take n) := by
  constructor
  · rintro rfl n positive bound other differ matched
    have single : length = 1 := longest.length_eq_one listed catchAll
    rcases Nat.lt_or_ge length n with longer | shorter
    · exact longest.greatest n longer bound other matched
    · -- A match of one byte by another token, which ranks before the catch-all.
      obtain rfl : n = length := by omega
      have behind := longest.wins.2 other matched differ
      obtain ⟨u, found, _⟩ := matched
      have before := rank_lt_of_catchAll settled listed catchAll found differ
      omega
  · intro unmatched
    by_contra differ
    exact unmatched length longest.positive longest.bound token differ longest.wins.1

end TokenTable

/-! ## Scans -/

/-- With a catch-all among the tokens every input is scanned, and the lexemes tile it.  They stand at
the positions that the greedy process reaches.  A lexeme of the catch-all is one byte long, and a
position has such a lexeme exactly if no other token matches a prefix there that is not empty. -/
theorem scan_of_catchAll {tokens : TokenTable} {macros : MacroTable} {ds : List Declaration}
    {minimize : Bool} {built : Tables.Built} {k : Nat} {t : Token}
    (settled : settle ds = .ok tokens) (succeeded : Tables.build tokens macros minimize = .ok built)
    (listed : tokens.get? k = some t) (catchAll : t.isCatchAll) (input : List UInt8) :
    ∃ lexemes, built.tables.scan input = .ok lexemes ∧ Tiles 0 lexemes input.length ∧
      (∀ pos, (∃ l ∈ lexemes, l.start = pos) ↔
        built.tables.Reached input pos ∧ pos < input.length) ∧
      ∀ l ∈ lexemes, (l.token = k → l.length = 1) ∧
        (l.token = k ↔ ∀ n, 0 < n → n ≤ (input.drop l.start).length → ∀ other, other ≠ k →
          ¬ tokens.Matches macros other ((input.drop l.start).take n)) := by
  obtain ⟨trees, dfa, _, decides, tables⟩ := exists_decides_of_build settled succeeded
  cases scanned : built.tables.scan input with
  | error jam =>
    -- Where a scan gets stuck there is a byte, which the catch-all matches.
    obtain ⟨_, bound, noMatch⟩ := Tables.stuck_of_scanFrom_eq_error .refl scanned
    rw [tables, decides.longestMatch_eq_none_iff] at noMatch
    obtain ⟨b, rest, left⟩ := List.exists_cons_of_ne_nil (mt List.drop_eq_nil_iff.1
      (Nat.not_le_of_lt bound))
    rw [left] at noMatch
    refine absurd ?_ (noMatch 1 Nat.one_pos (Nat.succ_le_succ (Nat.zero_le _)) k)
    exact (TokenTable.matches_catchAll_iff listed catchAll).2 ⟨b, rfl⟩
  | ok lexemes =>
    obtain ⟨tiles, longest⟩ := Tables.tiles_of_scanFrom_eq_ok (Nat.zero_le _) scanned
    refine ⟨lexemes, rfl, tiles, Tables.exists_start_iff_reached (Nat.zero_le _) scanned,
      fun l member => ?_⟩
    have found := longest l member
    rw [tables, decides.longestMatch_eq_some_iff] at found
    exact ⟨fun same => (same ▸ found).length_eq_one listed catchAll,
      found.catchAll_iff settled listed catchAll⟩

/-- A catch-all that is declared first, and a letter. -/
def catchAllFirst : TokenTable :=
  ⟨[⟨0, 2, none, .unknown, "UNKNOWN", 1, none, false, .api⟩,
    ⟨1, 1, some "a", .keyword, "KEYWORD", 2, none, false, .api⟩]⟩

/-- The letter is not left to the catch-all, although that one is declared first. -/
theorem scan_of_catchAll_first :
    ∃ built lexemes, settle [.ofCategory .unknown none .api, .ofCategory .keyword (some "a") .api] =
        .ok catchAllFirst ∧
      Tables.build catchAllFirst .empty true = .ok built ∧
      built.tables.scan [0x62, Ascii.letterA] = .ok lexemes ∧ Tiles 0 lexemes 2 ∧
      ∀ l ∈ lexemes, l.start = 1 → l.token ≠ 0 := by
  have settled : settle [.ofCategory .unknown none .api, .ofCategory .keyword (some "a") .api] =
      .ok catchAllFirst := by
    decide
  have read : catchAllFirst.trees .empty = .ok [.set .full, .byte Ascii.letterA] := by
    simp only [TokenTable.trees, catchAllFirst, List.mapM_cons, List.mapM_nil, Token.tree, parse_letter]
    rfl
  have succeeded := Tables.build_eq_ok_iff.2 ⟨_, read, @rfl _ (Tables.ofTrees catchAllFirst _ true)⟩
  obtain ⟨lexemes, scanned, tiles, _, fallsBack⟩ :=
    scan_of_catchAll (k := 0) settled succeeded rfl rfl [0x62, Ascii.letterA]
  refine ⟨_, lexemes, settled, succeeded, scanned, tiles, fun l member start taken => ?_⟩
  have unmatched := (fallsBack l member).2.1 taken
  rw [start] at unmatched
  refine unmatched 1 Nat.one_pos (Nat.le_refl 1) 1 Nat.one_ne_zero ?_
  exact (TokenTable.matches_iff_getElem? read).2 ⟨_, rfl, Ascii.letterA, by decide, rfl⟩

end ScannerGen
