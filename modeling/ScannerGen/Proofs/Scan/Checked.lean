import ScannerGen.Proofs.Scan.Lexemes
import ScannerGen.Proofs.Tables.Dump

/-!
# Scanning with loaded tables

Tables that come from a file may be any that the loader accepts: their start may be their reject
state, transitions may lead back to it, and their tokens need not exist.  What the loader asks for is
enough for a scan to stay inside the tables.

* `checkedMatch`, `checkedScan` — the same walks with every look-up checked, and with a limit on the
  number of lexemes.
* `Consistent.step?_eq_some` — consistent tables have every entry that a walk asks for.
* `scan_of_load` — the checked walks succeed for loaded tables, with the result of the plain ones.
-/

namespace ScannerGen

theorem Tiles.length_le {start stop : Nat} {lexemes : List Lexeme} (tiles : Tiles start lexemes stop) :
    start + lexemes.length ≤ stop := by
  induction lexemes generalizing start with
  | nil => exact Nat.le_of_eq tiles
  | cons l lexemes ih =>
    obtain ⟨_, positive, others⟩ := tiles
    have := ih others
    rw [List.length_cons]
    omega

namespace Tables

/-! ## Checked walks -/

/-- The walk of the longest match, where every entry that is looked up has to be there. -/
def checkedFrom (t : Tables) (state length : Nat) (best : Option (Nat × Nat)) :
    List UInt8 → Option (Option (Nat × Nat))
  | [] => some best
  | b :: rest => do
    let state ← t.step? state b
    if state = t.reject then some best
    else
      let winner ← t.tokenMap[state]?
      let best := match winner with
        | some token => some (token, length + 1)
        | none => best
      t.checkedFrom state (length + 1) best rest

def checkedMatch (t : Tables) (input : List UInt8) : Option (Option (Nat × Nat)) :=
  t.checkedFrom t.start 0 none input

/-- The scan by checked walks.  It has to end within a number of lexemes. -/
def checkedScanFrom (t : Tables) (position line : Nat) :
    Nat → List UInt8 → Option (Except Jam (List Lexeme))
  | _, [] => some (.ok [])
  | 0, _ :: _ => none
  | limit + 1, b :: rest => do
    match ← t.checkedMatch (b :: rest) with
    | none => some (.error ⟨position, line⟩)
    | some (token, n) =>
      let others ← t.checkedScanFrom (position + n)
        (line + t.newlines token ((b :: rest).take n)) limit ((b :: rest).drop n)
      some (others.map fun lexemes => ⟨token, position, n, line⟩ :: lexemes)

/-- The scan by checked walks, within as many lexemes as the input has bytes. -/
def checkedScan (t : Tables) (input : List UInt8) : Option (Except Jam (List Lexeme)) :=
  t.checkedScanFrom 0 1 input.length input

/-! ## Consistent tables -/

variable {t : Tables}

theorem byteClass_mem (t : Tables) (b : UInt8) : t.byteClass b ∈ t.classOf.toList :=
  Vector.mem_toList_iff.2 (Vector.getElem_mem b.toFin.isLt)

/-- Every state has a successor for every byte, and that is a state again. -/
theorem Consistent.step?_eq_some (consistent : t.Consistent) {s : Nat} (inside : s < t.stateCount)
    (b : UInt8) : t.step? s b = some (t.step s b) ∧ t.step s b < t.stateCount := by
  have row : t.next[s]? = some t.next[s] := Array.getElem?_eq_getElem inside
  have member : t.next[s] ∈ t.next := Array.getElem_mem inside
  have column : t.byteClass b < t.next[s].size := by
    rw [consistent.row_size _ member]
    exact consistent.class_lt _ (t.byteClass_mem b)
  have entry : t.step? s b = some t.next[s][t.byteClass b] := by
    rw [step?, row, Option.bind_some, Array.getElem?_eq_getElem column]
  rw [step, entry]
  exact ⟨rfl, consistent.successor_lt _ member _ (Array.getElem_mem column)⟩

theorem Consistent.tokenMap_eq_some (consistent : t.Consistent) {s : Nat} (inside : s < t.stateCount) :
    t.tokenMap[s]? = some (t.token? s) := by
  have bound : s < t.tokenMap.size := by
    rw [consistent.tokenMap_size]
    exact inside
  rw [token?, Array.getElem?_eq_getElem bound, Option.bind_some]

/-- From a state on, the walk finds every entry that it looks up. -/
theorem Consistent.checkedFrom_eq (consistent : t.Consistent) {state length : Nat}
    {best : Option (Nat × Nat)} (inside : state < t.stateCount) (input : List UInt8) :
    t.checkedFrom state length best input = some (t.longestFrom state length best input) := by
  induction input generalizing state length best with
  | nil => rfl
  | cons b rest ih =>
    obtain ⟨entry, successor⟩ := consistent.step?_eq_some inside b
    simp only [checkedFrom, longestFrom, entry, Option.bind_eq_bind, Option.bind_some]
    split
    · rfl
    · -- The walk goes on from a state that the tables have.
      rw [consistent.tokenMap_eq_some successor, Option.bind_some]
      exact ih successor

theorem Consistent.checkedMatch_eq (consistent : t.Consistent) (input : List UInt8) :
    t.checkedMatch input = some (t.longestMatch input) :=
  consistent.checkedFrom_eq consistent.start_lt input

/-- Each lexeme takes a byte at least, so as many lexemes as bytes are enough. -/
theorem Consistent.checkedScanFrom_eq (consistent : t.Consistent) {position line limit : Nat}
    {input : List UInt8} (enough : input.length ≤ limit) :
    t.checkedScanFrom position line limit input = some (t.scanFrom position line input) := by
  induction limit generalizing position line input with
  | zero =>
    obtain rfl := List.eq_nil_of_length_eq_zero (Nat.le_zero.1 enough)
    rw [scanFrom_eq, if_pos rfl]
    rfl
  | succ limit ih =>
    cases input with
    | nil =>
      rw [scanFrom_eq, if_pos rfl]
      rfl
    | cons b rest =>
      -- The match has a byte at least, so what is left is within the limit that is left.
      rw [scanFrom_eq, if_neg (List.cons_ne_nil b rest), checkedScanFrom, consistent.checkedMatch_eq]
      cases found : t.longestMatch (b :: rest) with
      | none => rfl
      | some result =>
        obtain ⟨token, n⟩ := result
        have less : ((b :: rest).drop n).length ≤ limit := by
          have := longestMatch_bounds found
          rw [List.length_drop]
          omega
        simp only [Option.bind_eq_bind, Option.bind_some, ih less]

/-! ## Loaded tables -/

/-- Scanning with tables that the loader accepts, whatever bytes they come from.  No walk looks up
an entry that the tables do not have, and a scan ends within as many lexemes as there are bytes.
Either its lexemes tile the input, or it reports a position before the end where nothing matches. -/
theorem scan_of_load {bytes : List UInt8} (loaded : load bytes = .ok t) (input : List UInt8) :
    (∀ pos, t.checkedMatch (input.drop pos) = some (t.longestMatch (input.drop pos))) ∧
    t.checkedScan input = some (t.scan input) ∧
    match t.scan input with
    | .ok lexemes => Tiles 0 lexemes input.length ∧ lexemes.length ≤ input.length
    | .error jam => t.Reached input jam.position ∧ jam.position < input.length ∧
        t.longestMatch (input.drop jam.position) = none := by
  obtain ⟨consistent, _⟩ := fits_of_load loaded
  refine ⟨fun pos => consistent.checkedMatch_eq _, consistent.checkedScanFrom_eq (Nat.le_refl _), ?_⟩
  cases scanned : t.scan input with
  | ok lexemes =>
    obtain ⟨tiles, _⟩ := tiles_of_scanFrom_eq_ok (Nat.zero_le _) scanned
    have length := tiles.length_le
    rw [Nat.zero_add] at length
    exact ⟨tiles, length⟩
  | error jam => exact stuck_of_scanFrom_eq_error .refl scanned

/-- Tables whose start accepts and leads back to itself, with a token that has no line flag. -/
def selfLoop : Tables :=
  ⟨Vector.replicate 256 0, 1, #[#[0], #[1]], #[some 7, none], 0, 1, #[]⟩

theorem load_dump_selfLoop : load (utf8 selfLoop.dump) = .ok selfLoop := by
  have classes : ∀ c ∈ selfLoop.classOf.toList, c = 0 := by
    intro c member
    rw [selfLoop, Vector.toList_replicate] at member
    exact List.eq_of_mem_replicate member
  refine load_dump ⟨rfl, by simp [selfLoop], fun c member => ?_, by simp [selfLoop, stateCount],
    by decide, by decide⟩ ⟨fun c member => ?_, by decide, by simp [selfLoop], by simp [selfLoop, noToken],
    by decide, by decide⟩
  · rw [classes c member]
    exact Nat.one_pos
  · rw [classes c member]
    exact Nat.zero_le _

/-- The loop is followed to the end of the input, and the unknown token is reported. -/
theorem scan_of_load_selfLoop :
    load (utf8 selfLoop.dump) = .ok selfLoop ∧
      selfLoop.checkedScan [Ascii.letterA, Ascii.newline] =
        some (selfLoop.scan [Ascii.letterA, Ascii.newline]) ∧
      selfLoop.scan [Ascii.letterA, Ascii.newline] = .ok [⟨7, 0, 2, 1⟩] := by
  obtain ⟨_, checked, _⟩ := scan_of_load load_dump_selfLoop [Ascii.letterA, Ascii.newline]
  have found : selfLoop.checkedScan [Ascii.letterA, Ascii.newline] = some (.ok [⟨7, 0, 2, 1⟩]) := rfl
  exact ⟨load_dump_selfLoop, checked, Option.some.inj (checked.symm.trans found)⟩

end Tables

end ScannerGen
