import Mathlib.Logic.Relation
import ScannerGen.Proofs.Scan.LongestMatch

/-!
# Scanning

A scan takes the longest match over and over.  Where it succeeds its lexemes tile the input; where it
fails it reports the position at which it got stuck.  Either way the lines are right, although
newlines are looked for only in tokens whose patterns mention them.

* `Tables.Follows`, `Tables.Reached` — one step of the greedy process, and the positions it reaches.
* `Tables.CountsNewlines` — what makes the lines right: no newline is in a match of a token that is
  not asked for newlines.
* `Tiles` — lexemes one behind the other.
-/

namespace ScannerGen

/-- Lexemes that begin at one position, follow each other without gaps, are not empty, and end at
another position. -/
def Tiles : Nat → List Lexeme → Nat → Prop
  | start, [], stop => start = stop
  | start, l :: ls, stop => l.start = start ∧ 1 ≤ l.length ∧ Tiles (start + l.length) ls stop

namespace Tables

/-- The line of a position: one more than the newlines before it. -/
def lineAt (input : List UInt8) (pos : Nat) : Nat := 1 + (input.take pos).count Ascii.newline

/-- From one position to the one behind the longest match there. -/
def Follows (t : Tables) (input : List UInt8) (pos next : Nat) : Prop :=
  ∃ token length, t.longestMatch (input.drop pos) = some (token, length) ∧ next = pos + length

/-- The positions that are reached from the front of an input by longest matches. -/
def Reached (t : Tables) (input : List UInt8) (pos : Nat) : Prop :=
  Relation.ReflTransGen (t.Follows input) 0 pos

/-- The newlines that are counted in a match are all that it has. -/
def CountsNewlines (t : Tables) : Prop :=
  ∀ (input : List UInt8) (token length : Nat), t.longestMatch input = some (token, length) →
    t.newlines token (input.take length) = (input.take length).count Ascii.newline

variable {t : Tables} {input : List UInt8}

/-! ## The greedy process -/

theorem follows_rightUnique (t : Tables) (input : List UInt8) :
    Relator.RightUnique (t.Follows input) := by
  rintro pos _ _ ⟨token, length, found, rfl⟩ ⟨token', length', found', rfl⟩
  rw [found, Option.some.injEq, Prod.mk.injEq] at found'
  rw [found'.2]

theorem Follows.lt {pos next : Nat} (follows : t.Follows input pos next) : pos < next := by
  obtain ⟨token, length, found, rfl⟩ := follows
  have := (longestMatch_bounds found).1
  omega

theorem le_of_follows {pos next : Nat}
    (path : Relation.ReflTransGen (t.Follows input) pos next) : pos ≤ next := by
  induction path with
  | refl => exact Nat.le_refl pos
  | tail _ step ih => exact Nat.le_trans ih (Nat.le_of_lt step.lt)

/-- Where the process is stuck it has ended: every other position that it reaches lies before, and
there it goes on. -/
theorem Reached.lt_of_stuck {pos stuck : Nat} (reached : t.Reached input pos)
    (reachedStuck : t.Reached input stuck) (noMatch : t.longestMatch (input.drop stuck) = none)
    (differ : pos ≠ stuck) :
    pos < stuck ∧ ∃ token length, t.longestMatch (input.drop pos) = some (token, length) := by
  have ended : ∀ next, ¬ t.Follows input stuck next := by
    rintro next ⟨token, length, found, _⟩
    rw [noMatch] at found
    cases found
  -- The process never has a choice, so of two positions that it reaches one comes first.
  rcases Relation.ReflTransGen.total_of_right_unique (follows_rightUnique t input) reached
    reachedStuck with forth | back
  · rcases forth.cases_head with same | ⟨next, follows, others⟩
    · exact absurd same differ
    · refine ⟨Nat.lt_of_lt_of_le follows.lt (le_of_follows others), ?_⟩
      obtain ⟨token, length, found, _⟩ := follows
      exact ⟨token, length, found⟩
  · rcases back.cases_head with same | ⟨next, follows, _⟩
    · exact absurd same.symm differ
    · exact absurd follows (ended next)

/-! ## Scans -/

theorem lineAt_add (input : List UInt8) (pos length : Nat) :
    lineAt input (pos + length) =
      lineAt input pos + ((input.drop pos).take length).count Ascii.newline := by
  rw [lineAt, lineAt, List.take_add, List.count_append, Nat.add_assoc]

/-- One step of a scan: the end of the input, a position without a match, or a lexeme. -/
theorem scanFrom_eq (t : Tables) (pos line : Nat) (rest : List UInt8) :
    t.scanFrom pos line rest =
      if rest = [] then .ok []
      else
        match t.longestMatch rest with
        | none => .error ⟨pos, line⟩
        | some (token, length) =>
          (t.scanFrom (pos + length) (line + t.newlines token (rest.take length))
            (rest.drop length)).map fun lexemes => ⟨token, pos, length, line⟩ :: lexemes := by
  cases rest with
  | nil => rw [scanFrom, if_pos rfl]
  | cons b rest =>
    rw [scanFrom, if_neg (List.cons_ne_nil b rest)]
    split <;> simp_all

/-- A scan that succeeds is at the end, or it takes the longest match and goes on behind that. -/
theorem scanFrom_eq_ok_iff {pos line : Nat} {lexemes : List Lexeme} :
    t.scanFrom pos line input = .ok lexemes ↔
      (input = [] ∧ lexemes = []) ∨
        ∃ token n others, t.longestMatch input = some (token, n) ∧
          t.scanFrom (pos + n) (line + t.newlines token (input.take n)) (input.drop n) = .ok others ∧
          lexemes = ⟨token, pos, n, line⟩ :: others := by
  rw [scanFrom_eq]
  by_cases ended : input = []
  · subst ended
    have unmatched : t.longestMatch [] = none := rfl
    simp [unmatched, eq_comm]
  · cases found : t.longestMatch input with
    | none => simp [ended]
    | some result =>
      obtain ⟨token, n⟩ := result
      cases rest : t.scanFrom (pos + n) (line + t.newlines token (input.take n)) (input.drop n) with
      | error jam => simp [ended, rest, Except.map]
      | ok others => simp [ended, rest, Except.map, eq_comm]

/-- A scan that succeeds is at the end of the input, or its first lexeme is the longest match and it
goes on behind that. -/
theorem scanFrom_eq_ok_cases {pos line : Nat} {lexemes : List Lexeme} (bound : pos ≤ input.length)
    (scanned : t.scanFrom pos line (input.drop pos) = .ok lexemes) :
    (pos = input.length ∧ lexemes = []) ∨
      ∃ token length others, t.longestMatch (input.drop pos) = some (token, length) ∧ 1 ≤ length ∧
        pos + length ≤ input.length ∧ lexemes = ⟨token, pos, length, line⟩ :: others ∧
        t.scanFrom (pos + length) (line + t.newlines token ((input.drop pos).take length))
          (input.drop (pos + length)) = .ok others := by
  rcases scanFrom_eq_ok_iff.1 scanned with ⟨ended, rfl⟩ | ⟨token, length, others, found, rest, same⟩
  · exact .inl ⟨Nat.le_antisymm bound (List.drop_eq_nil_iff.1 ended), rfl⟩
  · obtain ⟨positive, inside⟩ := longestMatch_bounds found
    rw [List.length_drop] at inside
    rw [List.drop_drop] at rest
    exact .inr ⟨token, length, others, found, positive, by omega, same, rest⟩

/-- A scan that fails has no match where it is, or it fails behind the longest match. -/
theorem scanFrom_eq_error_cases {pos line : Nat} {jam : Jam}
    (failed : t.scanFrom pos line (input.drop pos) = .error jam) :
    pos < input.length ∧
      ((t.longestMatch (input.drop pos) = none ∧ jam = ⟨pos, line⟩) ∨
        ∃ token length, t.longestMatch (input.drop pos) = some (token, length) ∧ 1 ≤ length ∧
          t.scanFrom (pos + length) (line + t.newlines token ((input.drop pos).take length))
            (input.drop (pos + length)) = .error jam) := by
  rw [scanFrom_eq] at failed
  split at failed
  · cases failed
  · next unfinished =>
    rw [List.drop_eq_nil_iff] at unfinished
    refine ⟨by omega, ?_⟩
    split at failed
    · next noMatch =>
      cases failed
      exact .inl ⟨noMatch, rfl⟩
    · next token length found =>
      rw [List.drop_drop] at failed
      refine .inr ⟨token, length, found, (longestMatch_bounds found).1, ?_⟩
      cases rest : t.scanFrom (pos + length) (line + t.newlines token ((input.drop pos).take length))
          (input.drop (pos + length)) with
      | error jam' =>
        rw [rest] at failed
        exact failed
      | ok others =>
        rw [rest] at failed
        cases failed

/-- A scan that succeeds tiles what is left of the input with longest matches. -/
theorem tiles_of_scanFrom_eq_ok {pos line : Nat} {lexemes : List Lexeme} (bound : pos ≤ input.length)
    (scanned : t.scanFrom pos line (input.drop pos) = .ok lexemes) :
    Tiles pos lexemes input.length ∧
      ∀ l ∈ lexemes, t.longestMatch (input.drop l.start) = some (l.token, l.length) := by
  induction lexemes generalizing pos line with
  | nil =>
    rcases scanFrom_eq_ok_cases bound scanned with ⟨atEnd, _⟩ | ⟨_, _, _, _, _, _, absurd, _⟩
    · exact ⟨atEnd, fun _ absent => absurd absent List.not_mem_nil⟩
    · cases absurd
  | cons l lexemes ih =>
    rcases scanFrom_eq_ok_cases bound scanned with
      ⟨_, absurd⟩ | ⟨token, length, others, found, positive, inside, same, rest⟩
    · cases absurd
    · cases same
      obtain ⟨tiles, longest⟩ := ih inside rest
      exact ⟨⟨rfl, positive, tiles⟩, List.forall_mem_cons.2 ⟨found, longest⟩⟩

/-- The lines of lexemes are those of their starts. -/
theorem line_of_mem_scanFrom (counts : t.CountsNewlines) {pos : Nat} {lexemes : List Lexeme}
    (bound : pos ≤ input.length)
    (scanned : t.scanFrom pos (lineAt input pos) (input.drop pos) = .ok lexemes) :
    ∀ l ∈ lexemes, l.line = lineAt input l.start := by
  induction lexemes generalizing pos with
  | nil => exact fun _ absent => absurd absent List.not_mem_nil
  | cons l lexemes ih =>
    rcases scanFrom_eq_ok_cases bound scanned with
      ⟨_, absurd⟩ | ⟨token, length, others, found, positive, inside, same, rest⟩
    · cases absurd
    · cases same
      -- The line that is passed on is that of the next position.
      rw [counts _ _ _ found, ← lineAt_add] at rest
      exact List.forall_mem_cons.2 ⟨rfl, ih inside rest⟩

/-- The lexemes of a scan stand at the positions before the end that the greedy process reaches. -/
theorem exists_start_iff_reached {pos line : Nat} {lexemes : List Lexeme} (bound : pos ≤ input.length)
    (scanned : t.scanFrom pos line (input.drop pos) = .ok lexemes) (q : Nat) :
    (∃ l ∈ lexemes, l.start = q) ↔
      Relation.ReflTransGen (t.Follows input) pos q ∧ q < input.length := by
  induction lexemes generalizing pos line with
  | nil =>
    rcases scanFrom_eq_ok_cases bound scanned with ⟨rfl, _⟩ | ⟨_, _, _, _, _, _, absurd, _⟩
    · constructor
      · rintro ⟨_, absent, _⟩
        exact absurd absent List.not_mem_nil
      · rintro ⟨path, less⟩
        exact absurd (le_of_follows path) (Nat.not_le_of_lt less)
    · cases absurd
  | cons l lexemes ih =>
    rcases scanFrom_eq_ok_cases bound scanned with
      ⟨_, absurd⟩ | ⟨token, length, others, found, positive, inside, same, rest⟩
    · cases absurd
    · cases same
      have next : t.Follows input pos (pos + length) := ⟨token, length, found, rfl⟩
      rw [List.exists_mem_cons_iff, ih inside rest]
      constructor
      · rintro (rfl | ⟨path, less⟩)
        · exact ⟨.refl, Nat.lt_of_lt_of_le (Nat.lt_add_of_pos_right positive) inside⟩
        · exact ⟨path.head next, less⟩
      · rintro ⟨path, less⟩
        rcases path.cases_head with same | ⟨other, follows, path⟩
        · exact .inl same
        · rw [follows_rightUnique t input follows next] at path
          exact .inr ⟨path, less⟩

/-- What a lexeme says of itself: it is the longest match at its start, and its line is that of its
start. -/
def Placed (t : Tables) (input : List UInt8) (l : Lexeme) : Prop :=
  t.longestMatch (input.drop l.start) = some (l.token, l.length) ∧ l.line = lineAt input l.start

/-- A scan that succeeds from a position on, with the line of it, tiles what is left of the
input. -/
theorem tiles_of_scanFrom (counts : t.CountsNewlines) {pos : Nat} {lexemes : List Lexeme}
    (bound : pos ≤ input.length)
    (scanned : t.scanFrom pos (lineAt input pos) (input.drop pos) = .ok lexemes) :
    Tiles pos lexemes input.length ∧ ∀ l ∈ lexemes, t.Placed input l := by
  obtain ⟨tiles, longest⟩ := tiles_of_scanFrom_eq_ok bound scanned
  have lines := line_of_mem_scanFrom counts bound scanned
  exact ⟨tiles, fun l member => ⟨longest l member, lines l member⟩⟩

/-- A scan that fails does so where the greedy process gets stuck before the end of the input. -/
theorem stuck_of_scanFrom_eq_error {pos line : Nat} {jam : Jam} (reached : t.Reached input pos)
    (failed : t.scanFrom pos line (input.drop pos) = .error jam) :
    t.Reached input jam.position ∧ jam.position < input.length ∧
      t.longestMatch (input.drop jam.position) = none := by
  -- On what is left of the input: each lexeme takes something of it.
  induction left : input.length - pos using Nat.strong_induction_on generalizing pos line with
  | _ n ih =>
    subst left
    obtain ⟨bound, ⟨noMatch, rfl⟩ | ⟨token, length, found, positive, rest⟩⟩ :=
      scanFrom_eq_error_cases failed
    · exact ⟨reached, bound, noMatch⟩
    · exact ih _ (by omega) (reached.tail ⟨token, length, found, rfl⟩) rest rfl

/-- The line that is reported is that of the position. -/
theorem line_of_scanFrom_eq_error (counts : t.CountsNewlines) {pos : Nat} {jam : Jam}
    (failed : t.scanFrom pos (lineAt input pos) (input.drop pos) = .error jam) :
    jam.line = lineAt input jam.position := by
  induction left : input.length - pos using Nat.strong_induction_on generalizing pos with
  | _ n ih =>
    subst left
    obtain ⟨bound, ⟨_, rfl⟩ | ⟨token, length, found, positive, rest⟩⟩ := scanFrom_eq_error_cases failed
    · rfl
    · rw [counts _ _ _ found, ← lineAt_add] at rest
      exact ih _ (by omega) rest rfl

theorem stuck_of_scanFrom (counts : t.CountsNewlines) {pos : Nat} {jam : Jam}
    (reached : t.Reached input pos)
    (failed : t.scanFrom pos (lineAt input pos) (input.drop pos) = .error jam) :
    t.Reached input jam.position ∧ jam.position < input.length ∧
      t.longestMatch (input.drop jam.position) = none ∧ jam.line = lineAt input jam.position := by
  obtain ⟨reachedJam, bound, noMatch⟩ := stuck_of_scanFrom_eq_error reached failed
  exact ⟨reachedJam, bound, noMatch, line_of_scanFrom_eq_error counts failed⟩

/-! ## Built tables -/

variable {tokens : TokenTable} {macros : MacroTable} {ds : List Declaration} {minimize : Bool}
  {built : Built}

theorem countsNewlines_of_build (settled : settle ds = .ok tokens)
    (succeeded : build tokens macros minimize = .ok built) : built.tables.CountsNewlines := by
  obtain ⟨trees, dfa, read, decides, tables⟩ := exists_decides_of_build settled succeeded
  intro input token length found
  rw [tables] at found ⊢
  obtain ⟨matched, _⟩ := (decides.longestMatch_eq_some_iff.1 found).wins
  obtain ⟨tree, listed, matched⟩ := (TokenTable.matches_iff_getElem? read).1 matched
  have flag : (ofDfa dfa (trees.toArray.map (Pattern.mentions Ascii.newline))).endsLine token =
      tree.mentions Ascii.newline := by
    show ((trees.toArray.map (Pattern.mentions Ascii.newline))[token]?).getD false = _
    rw [Array.getElem?_map, List.getElem?_toArray, listed]
    rfl
  rw [newlines, flag]
  split
  · rfl
  · -- The tree mentions no newline, so no string of its language has one.
    next unmentioned =>
    refine (List.count_eq_zero.2 fun inside => ?_).symm
    exact unmentioned (Pattern.mentions_of_mem matched inside)

/-- Scanning with the tables that are built for settled tokens.  If it succeeds, the lexemes tile the
input, each is the longest match at its start, and its line counts the newlines before it.  If it
fails, it does so at the first position that the greedy process reaches where no token matches a
string that is not empty, and reports the line of it. -/
theorem scan_of_build (settled : settle ds = .ok tokens)
    (succeeded : build tokens macros minimize = .ok built) (input : List UInt8) :
    (∀ lexemes, built.tables.scan input = .ok lexemes →
      Tiles 0 lexemes input.length ∧ ∀ l ∈ lexemes,
        built.tables.longestMatch (input.drop l.start) = some (l.token, l.length) ∧
        l.line = 1 + (input.take l.start).count Ascii.newline) ∧
    ∀ jam, built.tables.scan input = .error jam →
      built.tables.Reached input jam.position ∧ jam.position < input.length ∧
      (∀ n, 0 < n → n ≤ (input.drop jam.position).length → ∀ token,
        ¬ tokens.Matches macros token ((input.drop jam.position).take n)) ∧
      (∀ pos, built.tables.Reached input pos → pos ≠ jam.position → pos < jam.position ∧
        ∃ token length, tokens.Longest macros (input.drop pos) token length) ∧
      jam.line = 1 + (input.take jam.position).count Ascii.newline := by
  have counts := countsNewlines_of_build settled succeeded
  obtain ⟨trees, dfa, read, decides, tables⟩ := exists_decides_of_build settled succeeded
  constructor
  · intro lexemes scanned
    exact tiles_of_scanFrom counts (Nat.zero_le _) scanned
  · intro jam failed
    obtain ⟨reached, bound, noMatch, line⟩ := stuck_of_scanFrom counts .refl failed
    refine ⟨reached, bound, ?_, fun pos reachedPos differ => ?_, line⟩
    · rw [tables] at noMatch
      exact decides.longestMatch_eq_none_iff.1 noMatch
    · obtain ⟨less, token, length, found⟩ := reachedPos.lt_of_stuck reached noMatch differ
      rw [tables] at found
      exact ⟨less, token, length, decides.longestMatch_eq_some_iff.1 found⟩

/-- With a catch-all no scan gets stuck. -/
theorem scan_of_build_letter :
    ∃ built lexemes, settle [.ofCategory .keyword (some "a") .api, .ofCategory .unknown none .api] =
        .ok letterTable ∧
      build letterTable .empty true = .ok built ∧
      built.tables.scan [Ascii.letterA, Ascii.newline, 0x62] = .ok lexemes ∧
      Tiles 0 lexemes 3 ∧ ∀ l ∈ lexemes,
        l.line = 1 + ([Ascii.letterA, Ascii.newline, 0x62].take l.start).count Ascii.newline := by
  obtain ⟨succeeds, fails⟩ :=
    scan_of_build settle_letterTable build_letterTable [Ascii.letterA, Ascii.newline, 0x62]
  cases scanned : (ofTrees letterTable [.byte Ascii.letterA, .set .full] true).tables.scan
      [Ascii.letterA, Ascii.newline, 0x62] with
  | ok lexemes =>
    obtain ⟨tiles, placed⟩ := succeeds lexemes scanned
    exact ⟨_, lexemes, settle_letterTable, build_letterTable, scanned, tiles,
      fun l member => (placed l member).2⟩
  | error jam =>
    -- Before the end there is a byte, which the catch-all matches.
    obtain ⟨_, bound, unmatched, _⟩ := fails jam scanned
    obtain ⟨b, rest, left⟩ := List.exists_cons_of_ne_nil (mt List.drop_eq_nil_iff.1
      (Nat.not_le_of_lt bound))
    rw [left] at unmatched
    refine absurd ?_ (unmatched 1 Nat.one_pos (Nat.succ_le_succ (Nat.zero_le _)) 1)
    exact (TokenTable.matches_iff_getElem? trees_letterTable).2
      ⟨.set .full, rfl, b, ByteSet.contains_full b, rfl⟩

end Tables

end ScannerGen
