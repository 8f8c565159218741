import ScannerGen.Proofs.Scan.Lexemes

/-!
# Restarting a scan

Between two lexemes a scan has nothing in mind but its position and its line.  The input can be cut
there: scanning the part in front gives the lexemes in front, and scanning the part behind gives those
behind, counted from where that part begins.

The scanner looks at bytes behind a match before it settles for it.  Cutting the input takes those bytes
away, and the match stays the same all the same.

* `Tables.longestMatch_take` — a match is found again in every part of the input that has room for it.
* `Tables.scanFrom_shifted` — the position and the line where a scan begins are only handed through.
* `Tables.scan_restart` — scanning both sides of a boundary between lexemes.
-/

namespace ScannerGen

/-- A lexeme as it is called when the input begins so many bytes and lines earlier. -/
def Lexeme.shifted (l : Lexeme) (bytes lines : Nat) : Lexeme :=
  { l with start := l.start + bytes, line := l.line + lines }

namespace Tables

variable {t : Tables} {input : List UInt8}

/-! ## Cutting behind a match -/

/-- From some length on, the walk keeps the match that it has, or it finds a longer one. -/
theorem longestFrom_eq_best_or_longer {state length : Nat} {best : Option (Nat × Nat)} :
    t.longestFrom state length best input = best ∨
      ∃ token n, t.longestFrom state length best input = some (token, n) ∧ length < n := by
  induction input generalizing state length best with
  | nil => exact .inl rfl
  | cons b rest ih =>
    simp only [longestFrom]
    split
    · exact .inl rfl
    · -- A match that ends with this byte is longer, and so are those behind it.
      cases won : t.token? (t.step state b) with
      | none =>
        rcases @ih (t.step state b) (length + 1) best with kept | ⟨token, n, found, longer⟩
        · exact .inl kept
        · exact .inr ⟨token, n, found, by omega⟩
      | some winner =>
        rcases @ih (t.step state b) (length + 1) (some (winner, length + 1)) with kept | ⟨token, n, found, longer⟩
        · exact .inr ⟨winner, length + 1, kept, by omega⟩
        · exact .inr ⟨token, n, found, by omega⟩

/-- The walk over a part of the input finds the same match if that ends within the part. -/
theorem longestFrom_take {state length k : Nat} {best : Option (Nat × Nat)} {token n : Nat}
    (found : t.longestFrom state length best input = some (token, n)) (inside : n ≤ length + k) :
    t.longestFrom state length best (input.take k) = some (token, n) := by
  induction input generalizing state length best k with
  | nil => simpa using found
  | cons b rest ih =>
    cases k with
    | zero =>
      -- Nothing is read any more, and nothing longer was found with all of the bytes.
      rcases @longestFrom_eq_best_or_longer t (b :: rest) state length best with kept | ⟨_, m, other, longer⟩
      · exact kept.symm.trans found
      · rw [found] at other
        simp only [Option.some.injEq, Prod.mk.injEq] at other
        omega
    | succ k =>
      simp only [List.take_succ_cons, longestFrom] at found ⊢
      split
      · next rejected => rwa [if_pos rejected] at found
      · next goesOn =>
        rw [if_neg goesOn] at found
        exact ih found (by omega)

theorem longestMatch_take {k token n : Nat} (found : t.longestMatch input = some (token, n))
    (inside : n ≤ k) : t.longestMatch (input.take k) = some (token, n) :=
  longestFrom_take found (by omega)

/-! ## Cutting a scan -/

/-- A scan that begins at a later position and line is the same one with these added. -/
theorem scanFrom_shifted {pos line bytes lines : Nat} {lexemes : List Lexeme}
    (scanned : t.scanFrom (pos + bytes) (line + lines) input = .ok lexemes) :
    ∃ plain, t.scanFrom pos line input = .ok plain ∧ lexemes = plain.map (·.shifted bytes lines) := by
  induction lexemes generalizing pos line input with
  | nil =>
    rcases scanFrom_eq_ok_iff.1 scanned with ⟨ended, _⟩ | ⟨_, _, _, _, _, impossible⟩
    · exact ⟨[], scanFrom_eq_ok_iff.2 (.inl ⟨ended, rfl⟩), rfl⟩
    · cases impossible
  | cons l lexemes ih =>
    rcases scanFrom_eq_ok_iff.1 scanned with ⟨_, impossible⟩ | ⟨token, n, others, found, rest, same⟩
    · cases impossible
    · cases same
      rw [Nat.add_right_comm pos, Nat.add_right_comm line] at rest
      obtain ⟨plain, restPlain, same⟩ := ih rest
      refine ⟨⟨token, pos, n, line⟩ :: plain, scanFrom_eq_ok_iff.2 (.inr ⟨_, _, _, found, restPlain, rfl⟩), ?_⟩
      rw [same]
      rfl

/-- A scan is cut behind some of its lexemes.  The bytes that they cover give these lexemes alone, and the
scan of the bytes behind goes on from the position and the line that were reached. -/
theorem scanFrom_append {pos line : Nat} {front back : List Lexeme}
    (scanned : t.scanFrom pos line input = .ok (front ++ back)) :
    ∃ bytes lines, bytes ≤ input.length ∧ Tiles pos front (pos + bytes) ∧
      t.scanFrom pos line (input.take bytes) = .ok front ∧
      t.scanFrom (pos + bytes) (line + lines) (input.drop bytes) = .ok back := by
  induction front generalizing pos line input with
  | nil =>
    exact ⟨0, 0, Nat.zero_le _, rfl, scanFrom_eq_ok_iff.2 (.inl ⟨List.take_zero, rfl⟩), scanned⟩
  | cons l front ih =>
    rcases scanFrom_eq_ok_iff.1 scanned with ⟨_, impossible⟩ | ⟨token, n, others, found, rest, same⟩
    · cases impossible
    · cases same
      obtain ⟨bytes, lines, bound, tiles, scannedFront, scannedBack⟩ := ih rest
      obtain ⟨positive, inside⟩ := longestMatch_bounds found
      -- What is left has the first match in it, followed by the bytes of the other lexemes.
      have first : t.longestMatch (input.take (n + bytes)) = some (token, n) :=
        longestMatch_take found (Nat.le_add_right n bytes)
      have matched : (input.take (n + bytes)).take n = input.take n := by
        rw [List.take_take, Nat.min_eq_left (Nat.le_add_right n bytes)]
      have behind : (input.take (n + bytes)).drop n = (input.drop n).take bytes := by
        rw [List.drop_take, Nat.add_sub_cancel_left]
      refine ⟨n + bytes, t.newlines token (input.take n) + lines, ?_, ?_, ?_, ?_⟩
      · rw [List.length_drop] at bound
        omega
      · rw [← Nat.add_assoc]
        exact ⟨rfl, positive, tiles⟩
      · apply scanFrom_eq_ok_iff.2
        right
        refine ⟨token, n, front, first, ?_, rfl⟩
        rw [matched, behind]
        exact scannedFront
      · rw [← Nat.add_assoc, ← Nat.add_assoc, ← List.drop_drop]
        exact scannedBack

/-- The boundaries between lexemes are points where a scan can be restarted, whatever the tables are.  When
a scan succeeds, its lexemes are split into some in front and some behind, and `p` is where the first ones
end, then the input up to `p` gives exactly the lexemes in front, and the input from `p` on gives exactly
those behind, but that their starts count from `p`, and their lines from a line of the input. -/
theorem scan_restart {front back : List Lexeme} (scanned : t.scan input = .ok (front ++ back)) :
    ∃ p, Tiles 0 front p ∧ Tiles p back input.length ∧
      t.scan (input.take p) = .ok front ∧
      ∃ rest lines, t.scan (input.drop p) = .ok rest ∧ back = rest.map (·.shifted p lines) := by
  obtain ⟨p, lines, bound, tilesFront, scannedFront, scannedBack⟩ := scanFrom_append scanned
  obtain ⟨rest, scannedRest, shifted⟩ := scanFrom_shifted scannedBack
  rw [Nat.zero_add] at tilesFront scannedBack
  have tilesBack := (tiles_of_scanFrom_eq_ok bound scannedBack).1
  exact ⟨p, tilesFront, tilesBack, scannedFront, rest, lines, scannedRest, shifted⟩

/-- Tables of a scanner that takes three bytes if it can, and one byte otherwise.  Only the token for a
single byte is asked for newlines. -/
def threeOrOne : Tables :=
  ⟨Vector.replicate 256 0, 1, #[#[0], #[2], #[3], #[4], #[0]], #[none, none, some 0, none, some 1], 1, 0,
    #[true, false]⟩

/-- The scanner has looked at the last byte before it settles for the one in front of it, and a cut between
these two takes that byte away. -/
theorem scan_restart_threeOrOne :
    threeOrOne.scan [0x61, 0x61, 0x61, Ascii.newline, 0x61] =
        .ok ([⟨1, 0, 3, 1⟩, ⟨0, 3, 1, 1⟩] ++ [⟨0, 4, 1, 2⟩]) ∧
      threeOrOne.scan [0x61, 0x61, 0x61, Ascii.newline] = .ok [⟨1, 0, 3, 1⟩, ⟨0, 3, 1, 1⟩] ∧
      ∃ rest lines, threeOrOne.scan [0x61] = .ok rest ∧ [⟨0, 4, 1, 2⟩] = rest.map (·.shifted 4 lines) := by
  have scanned : threeOrOne.scan [0x61, 0x61, 0x61, Ascii.newline, 0x61] =
      .ok ([⟨1, 0, 3, 1⟩, ⟨0, 3, 1, 1⟩] ++ [⟨0, 4, 1, 2⟩]) := by
    refine scanFrom_eq_ok_iff.2 (.inr ⟨1, 3, _, rfl, ?_, rfl⟩)
    refine scanFrom_eq_ok_iff.2 (.inr ⟨0, 1, _, rfl, ?_, rfl⟩)
    refine scanFrom_eq_ok_iff.2 (.inr ⟨0, 1, _, rfl, ?_, rfl⟩)
    exact scanFrom_eq_ok_iff.2 (.inl ⟨rfl, rfl⟩)
  obtain ⟨p, tilesFront, _, scannedFront, rest, lines, scannedRest, shifted⟩ := scan_restart scanned
  obtain rfl : 4 = p := tilesFront.2.2.2.2
  exact ⟨scanned, scannedFront, rest, lines, scannedRest, shifted⟩

end Tables

end ScannerGen
