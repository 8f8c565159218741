import ScannerGen.Proofs.Pattern.Parsing

/-!
# The trees that patterns are read as

The reader takes sequences inside sequences and alternations inside alternations apart, refuses sets
without members, and bounds what is repeated.

* `Normal` — trees with nothing left to take apart, whose sets have members and whose counts are those
  that can be written.
* `Within`, `RepeatsFit` — the trees inside a tree, and the bound on the automaton states of every
  repetition among them.
* `Sound` — what a tree has to satisfy for its flat form to be normal; `Derives.sound` is the
  induction over derivations.
* `parse_normal` — every tree that is read is normal, and so is small.
-/

namespace ScannerGen.Pattern

/-! ## Normal trees -/

/-- Trees that can be one of several parts of a sequence. -/
def isItem : Pattern → Bool
  | .empty | .seq _ => false
  | .set _ | .alt _ | .rep .. => true

/-- Trees that can be one of several branches of an alternation. -/
def isBranch : Pattern → Bool
  | .alt _ => false
  | .empty | .set _ | .seq _ | .rep .. => true

/-- The bounds that a repetition can be given. -/
structure Counts (min : Nat) (max : Option Nat) : Prop where
  least : min ≤ maxCount
  most : ∀ n ∈ max, min ≤ n ∧ n ≤ maxCount

/-- Trees with nothing left to take apart. -/
inductive Normal : Pattern → Prop
  | empty : Normal .empty
  | set {bytes : ByteSet} (inhabited : ∃ b, bytes.contains b = true) : Normal (.set bytes)
  | seq {ps : List Pattern} (several : 2 ≤ ps.length) (each : ∀ p ∈ ps, Normal p)
    (items : ∀ p ∈ ps, p.isItem = true) : Normal (.seq ps)
  | alt {ps : List Pattern} (several : 2 ≤ ps.length) (each : ∀ p ∈ ps, Normal p)
    (branches : ∀ p ∈ ps, p.isBranch = true) : Normal (.alt ps)
  | rep {body : Pattern} {min : Nat} {max : Option Nat} (inside : Normal body)
    (counts : Counts min max) : Normal (.rep body min max)

/-- One tree stands inside another, or is that tree. -/
inductive Within (p : Pattern) : Pattern → Prop
  | whole : Within p p
  | part {q : Pattern} {ps : List Pattern} (member : q ∈ ps) (inside : Within p q) : Within p (.seq ps)
  | branch {q : Pattern} {ps : List Pattern} (member : q ∈ ps) (inside : Within p q) :
    Within p (.alt ps)
  | body {q : Pattern} {min : Nat} {max : Option Nat} (inside : Within p q) : Within p (.rep q min max)

/-- No repetition inside a tree, nor the tree itself if it is one, needs too many automaton states. -/
def RepeatsFit (p : Pattern) : Prop :=
  ∀ body min max, Within (.rep body min max) p → (rep body min max).stateBound ≤ maxStates

@[simp] theorem repeatsFit_empty : RepeatsFit .empty := fun body min max inside => by cases inside

@[simp] theorem repeatsFit_set (bytes : ByteSet) : RepeatsFit (.set bytes) :=
  fun body min max inside => by cases inside

@[simp] theorem repeatsFit_seq {ps : List Pattern} :
    RepeatsFit (.seq ps) ↔ ∀ p ∈ ps, p.RepeatsFit := by
  constructor
  · exact fun fits p member body min max inside => fits body min max (.part member inside)
  · intro each body min max inside
    cases inside with
    | part member inside => exact each _ member body min max inside

@[simp] theorem repeatsFit_alt {ps : List Pattern} :
    RepeatsFit (.alt ps) ↔ ∀ p ∈ ps, p.RepeatsFit := by
  constructor
  · exact fun fits p member body min max inside => fits body min max (.branch member inside)
  · intro each body min max inside
    cases inside with
    | branch member inside => exact each _ member body min max inside

@[simp] theorem repeatsFit_rep {body : Pattern} {min : Nat} {max : Option Nat} :
    RepeatsFit (.rep body min max) ↔
      (rep body min max).stateBound ≤ maxStates ∧ body.RepeatsFit := by
  constructor
  · exact fun fits => ⟨fits body min max .whole,
      fun body' min' max' inside => fits body' min' max' (.body inside)⟩
  · rintro ⟨small, fits⟩ body' min' max' inside
    cases inside with
    | whole => exact small
    | body inside => exact fits body' min' max' inside

theorem parts_of_isItem {p : Pattern} (item : p.isItem = true) : p.parts = [p] := by
  cases p with
  | empty | seq _ => cases item
  | set _ | alt _ | rep _ _ _ => rfl

theorem branches_of_isBranch {p : Pattern} (branch : p.isBranch = true) : p.branches = [p] := by
  cases p with
  | alt _ => cases branch
  | empty | set _ | seq _ | rep _ _ _ => rfl

theorem ne_nil_of_several {ps : List Pattern} (several : 2 ≤ ps.length) : ps ≠ [] :=
  List.ne_nil_of_length_pos (Nat.lt_of_lt_of_le Nat.two_pos several)

/-- The parts of a normal tree make it up again. -/
theorem Normal.seqOf_parts {p : Pattern} (normal : p.Normal) : seqOf p.parts = p := by
  cases normal with
  | empty | set _ | alt _ _ _ | rep _ _ => rfl
  | @seq ps several _ _ =>
    match ps, several with
    | p :: q :: ps, _ => rfl

theorem Normal.altOf_branches {p : Pattern} (normal : p.Normal) : altOf p.branches = p := by
  cases normal with
  | empty | set _ | seq _ _ _ | rep _ _ => rfl
  | @alt ps several _ _ =>
    match ps, several with
    | p :: q :: ps, _ => rfl

theorem Normal.countsOrdered {p : Pattern} (normal : p.Normal) : p.countsOrdered = true := by
  induction normal with
  | empty | set _ => rfl
  | seq _ _ _ ih | alt _ _ _ ih => exact allCountsOrdered_iff.2 ih
  | rep _ counts ih =>
    rw [Pattern.countsOrdered, Bool.and_eq_true, Option.all_eq_true]
    exact ⟨fun n given => decide_eq_true (counts.most n given).1, ih⟩

/-! ## Normal trees of a bounded size -/

/-- The trees that a reader can return, as far as what they are put together from tells. -/
structure Readable (p : Pattern) : Prop where
  normal : p.Normal
  fits : p.RepeatsFit

theorem Readable.of_mem_parts {p q : Pattern} (readable : p.Readable) (member : q ∈ p.parts) :
    q.Readable ∧ q.isItem = true := by
  cases readable.normal with
  | empty => cases member
  | set _ | alt _ _ _ | rep _ _ =>
    obtain rfl := List.mem_singleton.1 member
    exact ⟨readable, rfl⟩
  | seq _ each items =>
    exact ⟨⟨each q member, repeatsFit_seq.1 readable.fits q member⟩, items q member⟩

theorem Readable.of_mem_branches {p q : Pattern} (readable : p.Readable) (member : q ∈ p.branches) :
    q.Readable ∧ q.isBranch = true := by
  cases readable.normal with
  | empty | set _ | seq _ _ _ | rep _ _ =>
    obtain rfl := List.mem_singleton.1 member
    exact ⟨readable, rfl⟩
  | alt _ each branches =>
    exact ⟨⟨each q member, repeatsFit_alt.1 readable.fits q member⟩, branches q member⟩

theorem readable_seqOf {ps : List Pattern} (each : ∀ p ∈ ps, p.Readable ∧ p.isItem = true) :
    (seqOf ps).Readable := by
  match ps with
  | [] => exact ⟨.empty, repeatsFit_empty⟩
  | [p] => exact (each p List.mem_cons_self).1
  | p :: q :: ps =>
    exact ⟨.seq (by simp) (fun r member => (each r member).1.normal) fun r member => (each r member).2,
      repeatsFit_seq.2 fun r member => (each r member).1.fits⟩

theorem readable_altOf {ps : List Pattern} (some_branch : ps ≠ [])
    (each : ∀ p ∈ ps, p.Readable ∧ p.isBranch = true) : (altOf ps).Readable := by
  match ps, some_branch with
  | [p], _ => exact (each p List.mem_cons_self).1
  | p :: q :: ps, _ =>
    exact ⟨.alt (by simp) (fun r member => (each r member).1.normal) fun r member => (each r member).2,
      repeatsFit_alt.2 fun r member => (each r member).1.fits⟩

theorem Normal.branches_ne_nil {p : Pattern} (normal : p.Normal) : p.branches ≠ [] := by
  cases normal with
  | empty | set _ | seq _ _ _ | rep _ _ => exact List.cons_ne_nil _ _
  | alt several _ _ => exact ne_nil_of_several several

/-! ## Trees of derivations -/

/-- What makes the flat form of a tree normal. -/
inductive Sound : Pattern → Prop
  | set {bytes : ByteSet} (inhabited : ∃ b, bytes.contains b = true) : Sound (.set bytes)
  | seq {ps : List Pattern} (each : ∀ p ∈ ps, Sound p) : Sound (.seq ps)
  | alt {ps : List Pattern} (some_branch : ps ≠ []) (each : ∀ p ∈ ps, Sound p) : Sound (.alt ps)
  | rep {body : Pattern} {min : Nat} {max : Option Nat} (inside : Sound body) (counts : Counts min max)
    (small : (flat (.rep body min max)).stateBound ≤ maxStates) : Sound (.rep body min max)

theorem mem_flatParts {q : Pattern} {ps : List Pattern} :
    q ∈ flatParts ps ↔ ∃ p ∈ ps, q ∈ p.flat.parts := by
  induction ps with
  | nil => simp [flatParts]
  | cons p ps ih => simp [flatParts, ih]

theorem mem_flatBranches {q : Pattern} {ps : List Pattern} :
    q ∈ flatBranches ps ↔ ∃ p ∈ ps, q ∈ p.flat.branches := by
  induction ps with
  | nil => simp [flatBranches]
  | cons p ps ih => simp [flatBranches, ih]

theorem Sound.readable_flat {p : Pattern} (sound : p.Sound) : p.flat.Readable := by
  induction sound with
  | set inhabited => exact ⟨.set inhabited, repeatsFit_set _⟩
  | seq _ ih =>
    refine readable_seqOf fun q member => ?_
    obtain ⟨p, inList, inParts⟩ := mem_flatParts.1 member
    exact (ih p inList).of_mem_parts inParts
  | @alt ps some_branch _ ih =>
    refine readable_altOf (fun none => ?_) fun q member => ?_
    · -- The first of the branches contributes one at least.
      obtain ⟨p, others, rfl⟩ := List.exists_cons_of_ne_nil some_branch
      rw [flatBranches] at none
      exact (ih p List.mem_cons_self).normal.branches_ne_nil (List.append_eq_nil_iff.1 none).1
    · obtain ⟨p, inList, inBranches⟩ := mem_flatBranches.1 member
      exact (ih p inList).of_mem_branches inBranches
  | rep _ counts small ih => exact ⟨.rep ih.normal counts, repeatsFit_rep.2 ⟨small, ih.fits⟩⟩

theorem Counts.unbounded {n : Nat} (small : n ≤ maxCount) : Counts n none :=
  ⟨small, fun _ absent => by cases absent⟩

theorem Counts.of_le {m n : Nat} (ordered : m ≤ n) (small : n ≤ maxCount) : Counts m (some n) :=
  ⟨Nat.le_trans ordered small, fun k given => by cases given; exact ⟨ordered, small⟩⟩

theorem Sign.counts {text rest : List UInt8} {min : Nat} {max : Option Nat}
    (sign : Sign text rest min max) : Counts min max := by
  cases sign with
  | star | plus => exact .unbounded (by decide)
  | question => exact .of_le (by decide) (by decide)
  | count bounds =>
    cases bounds with
    | exactly count => exact .of_le (Nat.le_refl _) count.small
    | atLeast count => exact .unbounded count.small
    | between _ most ordered => exact .of_le ordered most.small

theorem sound_byte (b : UInt8) : (byte b).Sound := .set ⟨b, by simp⟩

theorem Derives.sound {macros : MacroTable} {kind : Nonterminal} {chain : List String}
    {text rest : List UInt8} {p : Pattern} (derived : Derives macros kind chain text rest p) :
    p.Sound := by
  induction derived with
  | branch _ ih => exact .alt (List.cons_ne_nil _ _) (List.forall_mem_singleton.2 ih)
  | branches _ _ first others =>
    cases others with
    | alt _ each => exact .alt (List.cons_ne_nil _ _) (List.forall_mem_cons.2 ⟨first, each⟩)
  | item _ ih => exact .seq (List.forall_mem_singleton.2 ih)
  | items _ _ _ first others =>
    cases others with
    | seq each => exact .seq (List.forall_mem_cons.2 ⟨first, each⟩)
  | once _ ih => exact ih
  | repeated _ sign small ih => exact .rep ih sign.counts small
  | group _ ih => exact ih
  | charClass members =>
    cases members with
    | listed _ _ _ inhabited | negated _ _ inhabited => exact .set inhabited
  | literal _ =>
    refine .seq fun p member => ?_
    obtain ⟨b, _, rfl⟩ := List.mem_map.1 member
    exact sound_byte b
  | reference _ _ _ _ ih => exact ih
  | dot => exact .set ⟨0, by decide⟩
  | escaped _ | byte _ => exact sound_byte _
  | complete _ _ ih => exact ih

/-! ## Patterns -/

theorem Derives.small {macros : MacroTable} {chain : List String} {text : List UInt8} {p : Pattern}
    (derived : Derives macros .complete chain text [] p) : p.flat.stateBound ≤ maxStates := by
  cases derived with
  | complete _ small => exact small

/-- What is read as a pattern is normal and small. -/
theorem parse_normal {macros : MacroTable} {owner : Owner} {source : String} {tree : Pattern}
    (accepted : parse macros owner source = .ok tree) :
    tree.Normal ∧ tree.stateBound ≤ maxStates ∧ tree.RepeatsFit := by
  obtain ⟨p, derived, rfl⟩ := parseFragment_iff.1 accepted
  obtain ⟨normal, fits⟩ := derived.sound.readable_flat
  exact ⟨normal, derived.small, fits⟩

end ScannerGen.Pattern
