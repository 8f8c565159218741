import ScannerGen.Proofs.Automaton.Minimal
import ScannerGen.Proofs.Automaton.Recognition
import ScannerGen.Proofs.Automaton.Subset
import ScannerGen.Proofs.Pattern.NormalForm
import ScannerGen.Proofs.Tables
import ScannerGen.Proofs.Token

/-!
# The longest match

The tables that are built for settled tokens find at the front of an input what the patterns say:
the longest prefix that some token matches, and the token that wins it.

* `TokenTable.Longest` — the longest match by definition.
* `Dfa.Decides` — an automaton whose winners are those of the tokens; minimized or not, the
  automaton that is built is such a one.
-/

namespace ScannerGen

/-- A token and a length are the longest match at the front of an input: the token wins the prefix
of that length, which is not empty, and no token matches a longer one. -/
structure TokenTable.Longest (tokens : TokenTable) (macros : MacroTable) (input : List UInt8)
    (token length : Nat) : Prop where
  positive : 0 < length
  bound : length ≤ input.length
  wins : tokens.Wins macros token (input.take length)
  greatest : ∀ n, length < n → n ≤ input.length → ∀ other,
    ¬ tokens.Matches macros other (input.take n)

variable {tokens : TokenTable} {macros : MacroTable} {ds : List Declaration} {trees : List Pattern}

/-! ## Automata that decide tokens -/

/-- After each string that is not empty, the automaton names the token that wins the string. -/
structure Dfa.Decides (dfa : Dfa) (tokens : TokenTable) (macros : MacroTable) : Prop where
  wellFormed : dfa.WellFormed
  winner : ∀ w ≠ [], ∀ token, dfa.token? (dfa.run w) = some token ↔ tokens.Wins macros token w
  unmatched : ∀ w ≠ [], dfa.token? (dfa.run w) = none ↔ ∀ token, ¬ tokens.Matches macros token w

theorem mem_accepting_iff_matches (read : tokens.trees macros = .ok trees)
    (ordered : ∀ p ∈ trees, p.countsOrdered = true) {w : List UInt8} {token : Nat} :
    token ∈ (Nfa.ofPatterns trees).accepting ((Nfa.ofPatterns trees).run w) ↔
      tokens.Matches macros token w := by
  rw [TokenTable.matches_iff_getElem? read, Nfa.mem_accepting, ← Nfa.path_accepts_iff ordered]
  simp only [Nfa.mem_run (Nfa.size_ofPatterns_pos ordered)]

/-- The best token of the set after a string is the one that wins the string. -/
theorem best_iff_wins (settled : settle ds = .ok tokens) (read : tokens.trees macros = .ok trees)
    (ordered : ∀ p ∈ trees, p.countsOrdered = true) {w : List UInt8} {token : Nat} :
    (Nfa.ofPatterns trees).Best tokens.rank ((Nfa.ofPatterns trees).run w) token ↔
      tokens.Wins macros token w := by
  simp only [Nfa.Best, TokenTable.Wins, mem_accepting_iff_matches read ordered, Nfa.ranksBefore_iff]
  refine and_congr_right fun matched => forall₂_congr fun other matches' => ?_
  obtain ⟨t, found, _⟩ := matched
  obtain ⟨u, foundOther, _⟩ := matches'
  -- The automaton breaks ties by the number of the token, but settled tokens have no ties.
  constructor
  · rintro (less | ⟨same, _⟩) differ
    · exact less
    · exact absurd (TokenTable.rank_injective settled found foundOther same).symm differ
  · intro least
    by_cases equal : other = token
    · exact .inr ⟨by rw [equal], Nat.le_of_eq equal.symm⟩
    · exact .inl (least equal)

theorem decides_determinize (settled : settle ds = .ok tokens)
    (read : tokens.trees macros = .ok trees) (ordered : ∀ p ∈ trees, p.countsOrdered = true) :
    ((Nfa.ofPatterns trees).determinize tokens.rank).dfa.Decides tokens macros := by
  have nonempty := Nfa.size_ofPatterns_pos ordered
  have apart := Nfa.startApart_ofPatterns ordered
  refine ⟨Nfa.wellFormed_determinize tokens.rank nonempty, fun w read' token => ?_,
    fun w read' => ?_⟩
  · rw [Nfa.token?_run tokens.rank nonempty apart read', Nfa.head?_candidates]
    exact best_iff_wins settled read ordered
  · rw [Nfa.token?_run tokens.rank nonempty apart read', Nfa.head?_candidates_eq_none,
      List.eq_nil_iff_forall_not_mem]
    exact forall_congr' fun token => not_congr (mem_accepting_iff_matches read ordered)

theorem Dfa.Decides.minimize {dfa : Dfa} (decides : dfa.Decides tokens macros) :
    dfa.minimize.Decides tokens macros := by
  refine ⟨wellFormed_minimize decides.wellFormed, fun w read token => ?_, fun w read => ?_⟩
  · rw [token?_run_minimize decides.wellFormed]
    exact decides.winner w read token
  · rw [token?_run_minimize decides.wellFormed]
    exact decides.unmatched w read

/-! ## Tables -/

theorem take_ne_nil {input : List UInt8} {n : Nat} (positive : 0 < n) (bound : n ≤ input.length) :
    input.take n ≠ [] := by
  intro empty
  have length := congrArg List.length empty
  rw [List.length_take_of_le bound, List.length_nil] at length
  omega

namespace Dfa.Decides

variable {dfa : Dfa} {endsLines : Array Bool} {input : List UInt8}

theorem longestMatch_eq_none_iff (decides : dfa.Decides tokens macros) :
    (Tables.ofDfa dfa endsLines).longestMatch input = none ↔
      ∀ n, 0 < n → n ≤ input.length → ∀ token, ¬ tokens.Matches macros token (input.take n) := by
  rw [Tables.longestMatch_eq_none_iff decides.wellFormed]
  refine forall₃_congr fun n positive bound => ?_
  exact decides.unmatched _ (take_ne_nil positive bound)

theorem longestMatch_eq_some_iff (decides : dfa.Decides tokens macros) {token length : Nat} :
    (Tables.ofDfa dfa endsLines).longestMatch input = some (token, length) ↔
      tokens.Longest macros input token length := by
  rw [Tables.longestMatch_eq_some_iff decides.wellFormed]
  constructor
  · rintro ⟨positive, bound, accepted, later⟩
    refine ⟨positive, bound, ?_, fun n less inside => ?_⟩
    · exact (decides.winner _ (take_ne_nil positive bound) token).1 accepted
    · exact (decides.unmatched _ (take_ne_nil (Nat.zero_lt_of_lt less) inside)).1 (later n less inside)
  · rintro ⟨positive, bound, wins, greatest⟩
    refine ⟨positive, bound, ?_, fun n less inside => ?_⟩
    · exact (decides.winner _ (take_ne_nil positive bound) token).2 wins
    · exact (decides.unmatched _ (take_ne_nil (Nat.zero_lt_of_lt less) inside)).2
        (greatest n less inside)

end Dfa.Decides

/-! ## Built tables -/

/-- The trees of the patterns, and that of the catch-all, are normal. -/
theorem normal_of_trees (read : tokens.trees macros = .ok trees) : ∀ p ∈ trees, p.Normal := by
  intro p member
  obtain ⟨i, found⟩ := List.mem_iff_getElem?.1 member
  obtain ⟨t, _, parsed⟩ := (TokenTable.getElem?_trees read i p).1 found
  cases written : t.pattern with
  | some text =>
    simp only [Token.tree, written] at parsed
    exact (Pattern.parse_normal parsed).1
  | none =>
    simp only [Token.tree, written] at parsed
    cases parsed
    exact .set ⟨0, ByteSet.contains_full 0⟩

theorem countsOrdered_of_trees (read : tokens.trees macros = .ok trees) :
    ∀ p ∈ trees, p.countsOrdered = true :=
  fun p member => (normal_of_trees read p member).countsOrdered

/-- Built tables are those of an automaton that decides the tokens. -/
theorem exists_decides_of_build {minimize : Bool} {built : Tables.Built}
    (settled : settle ds = .ok tokens) (succeeded : Tables.build tokens macros minimize = .ok built) :
    ∃ trees dfa, tokens.trees macros = .ok trees ∧ dfa.Decides tokens macros ∧
      built.tables = Tables.ofDfa dfa (trees.toArray.map (Pattern.mentions Ascii.newline)) :=
  Tables.exists_ofDfa_of_build succeeded
    (fun _ read => decides_determinize settled read (countsOrdered_of_trees read))
    fun _ decides => decides.minimize

/-- The tables that are built for settled tokens find at every position of every input the longest
match by definition, and whether they are minimized makes no difference. -/
theorem longestMatch_of_build {minimize : Bool} {built : Tables.Built}
    (settled : settle ds = .ok tokens) (succeeded : Tables.build tokens macros minimize = .ok built)
    (input : List UInt8) (pos : Nat) :
    (built.tables.longestMatch (input.drop pos) = none ↔
      ∀ n, 0 < n → n ≤ (input.drop pos).length →
        ∀ token, ¬ tokens.Matches macros token ((input.drop pos).take n)) ∧
    (∀ token length, built.tables.longestMatch (input.drop pos) = some (token, length) ↔
      tokens.Longest macros (input.drop pos) token length) ∧
    ∀ other, ∃ built', Tables.build tokens macros other = .ok built' ∧
      built'.tables.longestMatch (input.drop pos) = built.tables.longestMatch (input.drop pos) := by
  obtain ⟨trees, dfa, read, decides, tables⟩ := exists_decides_of_build settled succeeded
  rw [tables]
  refine ⟨decides.longestMatch_eq_none_iff, fun token length => decides.longestMatch_eq_some_iff,
    fun other => ?_⟩
  have succeeded' : Tables.build tokens macros other = .ok (Tables.ofTrees tokens trees other) := by
    rw [Tables.build, read]
    rfl
  -- The other automaton decides the same tokens, and a match by definition is unique.
  obtain ⟨_, dfa', _, decides', tables'⟩ := exists_decides_of_build settled succeeded'
  refine ⟨_, succeeded', ?_⟩
  rw [tables']
  cases found : (Tables.ofDfa dfa _).longestMatch (input.drop pos) with
  | none => exact decides'.longestMatch_eq_none_iff.2 (decides.longestMatch_eq_none_iff.1 found)
  | some result =>
    obtain ⟨token, length⟩ := result
    exact decides'.longestMatch_eq_some_iff.2 (decides.longestMatch_eq_some_iff.1 found)

/-- A letter with a token of its own, and the catch-all for every other byte. -/
def letterTable : TokenTable :=
  ⟨[⟨0, 0, some "a", .keyword, "KEYWORD", 1, none, false, .api⟩,
    ⟨1, 2, none, .unknown, "UNKNOWN", 2, none, false, .api⟩]⟩

theorem settle_letterTable :
    settle [.ofCategory .keyword (some "a") .api, .ofCategory .unknown none .api] =
      .ok letterTable := by
  decide

theorem parse_letter (owner : Pattern.Owner) :
    Pattern.parse .empty owner "a" = .ok (.byte Ascii.letterA) :=
  Pattern.parseFragment_iff.2
    ⟨_, .complete (.branch (.item (.once (.byte (b := Ascii.letterA) (by decide))))) (by decide), rfl⟩

theorem trees_letterTable :
    letterTable.trees .empty = .ok [.byte Ascii.letterA, .set .full] := by
  simp only [TokenTable.trees, letterTable, List.mapM_cons, List.mapM_nil, Token.tree, parse_letter]
  rfl

theorem build_letterTable :
    Tables.build letterTable .empty true =
      .ok (Tables.ofTrees letterTable [.byte Ascii.letterA, .set .full] true) :=
  Tables.build_eq_ok_iff.2 ⟨_, trees_letterTable, rfl⟩

/-- The letter is not left to the catch-all. -/
theorem longestMatch_of_build_letter :
    ∃ built, settle [.ofCategory .keyword (some "a") .api, .ofCategory .unknown none .api] =
        .ok letterTable ∧
      Tables.build letterTable .empty true = .ok built ∧
      built.tables.longestMatch ([0x62, Ascii.letterA].drop 1) = some (0, 1) := by
  have lexed :=
    (longestMatch_of_build settle_letterTable build_letterTable [0x62, Ascii.letterA] 1).2.1
  refine ⟨_, settle_letterTable, build_letterTable, (lexed 0 1).2 ⟨Nat.one_pos, Nat.le_refl 1, ?_, ?_⟩⟩
  · have matched : letterTable.Matches .empty 0 [Ascii.letterA] :=
      (TokenTable.matches_iff_getElem? trees_letterTable).2
        ⟨.byte Ascii.letterA, rfl, Ascii.letterA, by decide, rfl⟩
    refine ⟨matched, fun other matches' differ => ?_⟩
    obtain ⟨t, found, _⟩ := matches'
    have bound : other < 2 := (List.getElem?_eq_some_iff.1 found).1
    obtain rfl : other = 1 := by omega
    decide
  · intro n less bound
    exact absurd (Nat.lt_of_lt_of_le less bound) (Nat.lt_irrefl 1)

end ScannerGen
