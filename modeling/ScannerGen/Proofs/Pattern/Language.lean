import Mathlib.Algebra.BigOperators.Group.List.Basic
import Mathlib.Computability.Language
import Mathlib.Order.CompletePartialOrder
import ScannerGen.Pattern

/-!
# The language of a pattern

A pattern denotes a set of byte strings, built with the operations of the Kleene algebra of
languages.  This module holds:

* `Pattern.induct` — induction over trees, with one hypothesis for every member of a list.
* `Pattern.language` — the strings that a pattern matches.
* `countsOrdered` — repetitions are not asked for more copies than they may have.
* `language_seqOf`, `language_parts`, … — joining parts and taking them apart again changes no
  language, so a tree may be flattened while it is built.
* `nullable_iff` — whether the empty string matches can be read off the tree.
* `mentions_of_mem` — a byte of a match stands in the tree.
-/

namespace ScannerGen

open Computability

/-! ## Induction -/

/-- Induction over trees.  The generated recursor of the nested type speaks of lists of trees;
this one speaks of their members. -/
@[induction_eliminator]
theorem Pattern.induct {motive : Pattern → Prop}
    (empty : motive .empty)
    (set : ∀ bytes, motive (.set bytes))
    (seq : ∀ parts, (∀ p ∈ parts, motive p) → motive (.seq parts))
    (alt : ∀ branches, (∀ p ∈ branches, motive p) → motive (.alt branches))
    (rep : ∀ body min max, motive body → motive (.rep body min max)) (p : Pattern) : motive p :=
  -- The second motive is about lists, the trees below a sequence or a choice.
  @Pattern.rec motive (fun ps => ∀ p ∈ ps, motive p)
    empty set seq alt rep
    (fun _ member => absurd member List.not_mem_nil)
    (fun _ _ head tail p member => by
      rcases List.mem_cons.1 member with rfl | member
      · exact head
      · exact tail p member)
    p

/-! ## Languages -/

/-- The strings of one byte of a set. -/
def ByteSet.language (bytes : ByteSet) : Language UInt8 := {w | ∃ b, bytes.contains b = true ∧ w = [b]}

/-- Between `min` and `max` strings of a language one after the other, any greater number if there
is no `max`. -/
def repeatedLanguage (l : Language UInt8) (min : Nat) (max : Option Nat) : Language UInt8 :=
  {w | ∃ n, min ≤ n ∧ (∀ m ∈ max, n ≤ m) ∧ w ∈ l ^ n}

/-! ## Repetitions -/

/-- Without a greatest count: the copies that have to be there, then any number of them. -/
theorem repeatedLanguage_none (l : Language UInt8) (min : Nat) :
    repeatedLanguage l min none = l ^ min * l∗ := by
  ext w
  rw [Language.kstar_eq_iSup_pow, Language.mul_iSup, Language.mem_iSup]
  constructor
  · rintro ⟨n, least, _, matched⟩
    -- The copies beyond the least count are what the star matches.
    refine ⟨n - min, ?_⟩
    rwa [← pow_add, Nat.add_sub_cancel' least]
  · rintro ⟨k, matched⟩
    rw [← pow_add] at matched
    exact ⟨min + k, Nat.le_add_right min k, fun m absent => (Option.not_mem_none m absent).elim,
      matched⟩

/-- The least number of copies can be split off. -/
theorem repeatedLanguage_some {l : Language UInt8} {min max : Nat} (ordered : min ≤ max) :
    repeatedLanguage l min (some max) = l ^ min * repeatedLanguage l 0 (some (max - min)) := by
  ext w
  rw [Language.mem_mul]
  constructor
  · rintro ⟨n, least, most, matched⟩
    have bound : n ≤ max := most max rfl
    rw [← Nat.add_sub_cancel' least, pow_add, Language.mem_mul] at matched
    obtain ⟨u, first, v, others, rfl⟩ := matched
    exact ⟨u, first, v, ⟨n - min, Nat.zero_le _, by simp; omega, others⟩, rfl⟩
  · rintro ⟨u, first, v, ⟨n, _, most, others⟩, rfl⟩
    have bound : n ≤ max - min := most (max - min) rfl
    refine ⟨min + n, Nat.le_add_right min n, by simp; omega, ?_⟩
    rw [pow_add]
    exact Language.append_mem_mul first others

theorem repeatedLanguage_zero (l : Language UInt8) : repeatedLanguage l 0 (some 0) = 1 := by
  ext w
  constructor
  · rintro ⟨n, _, most, matched⟩
    obtain rfl := Nat.le_zero.1 (most 0 rfl)
    rwa [pow_zero] at matched
  · intro matched
    exact ⟨0, Nat.le_refl 0, fun _ _ => Nat.zero_le _, by rwa [pow_zero]⟩

theorem repeatedLanguage_succ (l : Language UInt8) (count : Nat) :
    repeatedLanguage l 0 (some (count + 1)) = 1 + l * repeatedLanguage l 0 (some count) := by
  ext w
  rw [Language.mem_add, Language.mem_mul]
  constructor
  · rintro ⟨n, _, most, matched⟩
    have bound : n ≤ count + 1 := most (count + 1) rfl
    cases n with
    | zero =>
      rw [pow_zero] at matched
      exact .inl matched
    | succ n =>
      rw [pow_succ', Language.mem_mul] at matched
      obtain ⟨u, first, v, others, rfl⟩ := matched
      exact .inr ⟨u, first, v, ⟨n, Nat.zero_le n, by simp; omega, others⟩, rfl⟩
  · rintro (matched | ⟨u, first, v, ⟨n, _, most, others⟩, rfl⟩)
    · exact ⟨0, Nat.le_refl 0, fun _ _ => Nat.zero_le _, by rwa [pow_zero]⟩
    · have bound : n ≤ count := most count rfl
      refine ⟨n + 1, Nat.zero_le _, by simp; omega, ?_⟩
      rw [pow_succ']
      exact Language.append_mem_mul first others

/-! ## Patterns -/

namespace Pattern

mutual

/-- The strings that a pattern matches. -/
def language : Pattern → Language UInt8
  | .empty => 1
  | .set bytes => bytes.language
  | .seq parts => languageOfParts parts
  | .alt branches => languageOfBranches branches
  | .rep body min max => repeatedLanguage (language body) min max

def languageOfParts : List Pattern → Language UInt8
  | [] => 1
  | p :: ps => language p * languageOfParts ps

def languageOfBranches : List Pattern → Language UInt8
  | [] => 0
  | p :: ps => language p + languageOfBranches ps

end

theorem languageOfParts_eq (ps : List Pattern) :
    languageOfParts ps = (ps.map language).prod := by
  induction ps with
  | nil => rfl
  | cons p ps ih => rw [languageOfParts, ih, List.map_cons, List.prod_cons]

theorem languageOfBranches_eq (ps : List Pattern) :
    languageOfBranches ps = (ps.map language).sum := by
  induction ps with
  | nil => rfl
  | cons p ps ih => rw [languageOfBranches, ih, List.map_cons, List.sum_cons]

@[simp] theorem language_empty : language .empty = 1 := rfl

@[simp] theorem language_set (bytes : ByteSet) : language (.set bytes) = bytes.language := rfl

theorem mem_language_byte {b : UInt8} {w : List UInt8} : w ∈ language (.byte b) ↔ w = [b] := by
  constructor
  · rintro ⟨c, single, rfl⟩
    rw [ByteSet.contains_single, beq_iff_eq] at single
    rw [single]
  · rintro rfl
    exact ⟨b, by rw [ByteSet.contains_single, beq_self_eq_true], rfl⟩

@[simp] theorem language_seq (ps : List Pattern) :
    language (.seq ps) = (ps.map language).prod := languageOfParts_eq ps

@[simp] theorem language_alt (ps : List Pattern) :
    language (.alt ps) = (ps.map language).sum := languageOfBranches_eq ps

@[simp] theorem language_rep (body : Pattern) (min : Nat) (max : Option Nat) :
    language (.rep body min max) = repeatedLanguage body.language min max := rfl

theorem mem_language_alt {ps : List Pattern} {w : List UInt8} :
    w ∈ language (.alt ps) ↔ ∃ p ∈ ps, w ∈ p.language := by
  rw [language_alt]
  induction ps with
  | nil => simp
  | cons p ps ih =>
    rw [List.map_cons, List.sum_cons, Language.mem_add, ih]
    simp

/-! ## Ordered counts -/

mutual

/-- Whether every repetition with a greatest count has one that is no smaller than its least. -/
def countsOrdered : Pattern → Bool
  | .empty => true
  | .set _ => true
  | .seq parts => allCountsOrdered parts
  | .alt branches => allCountsOrdered branches
  | .rep body min max => max.all (min ≤ ·) && countsOrdered body

def allCountsOrdered : List Pattern → Bool
  | [] => true
  | p :: ps => countsOrdered p && allCountsOrdered ps

end

theorem allCountsOrdered_iff {ps : List Pattern} :
    allCountsOrdered ps = true ↔ ∀ p ∈ ps, p.countsOrdered = true := by
  induction ps with
  | nil => simp [allCountsOrdered]
  | cons p ps ih => simp [allCountsOrdered, ih]

/-! ## Joining parts -/

theorem language_seqOf (ps : List Pattern) : (seqOf ps).language = (ps.map language).prod := by
  match ps with
  | [] => rfl
  | [p] => simp [seqOf]
  | p :: q :: ps => exact language_seq _

theorem language_altOf (ps : List Pattern) : (altOf ps).language = (ps.map language).sum := by
  match ps with
  | [] => rfl
  | [p] => simp [altOf]
  | p :: q :: ps => exact language_alt _

theorem language_parts (p : Pattern) : (p.parts.map language).prod = p.language := by
  cases p with
  | seq ps => exact (language_seq ps).symm
  | empty => rfl
  | set _ | alt _ | rep _ _ _ => simp [parts]

theorem language_branches (p : Pattern) : (p.branches.map language).sum = p.language := by
  cases p with
  | alt ps => exact (language_alt ps).symm
  | empty | set _ | seq _ | rep _ _ _ => simp [branches]

/-! ## The empty string -/

theorem nil_mem_mul {l m : Language UInt8} : [] ∈ l * m ↔ [] ∈ l ∧ [] ∈ m := by
  rw [Language.mem_mul]
  constructor
  · rintro ⟨u, first, v, second, joined⟩
    obtain ⟨rfl, rfl⟩ := List.append_eq_nil_iff.1 joined
    exact ⟨first, second⟩
  · rintro ⟨first, second⟩
    exact ⟨[], first, [], second, rfl⟩

theorem nil_mem_pow {l : Language UInt8} {n : Nat} : [] ∈ l ^ n ↔ n = 0 ∨ [] ∈ l := by
  induction n with
  | zero => simp
  | succ n ih =>
    rw [pow_succ, nil_mem_mul, ih]
    simp only [Nat.add_one_ne_zero, false_or]
    exact ⟨And.right, fun matched => ⟨.inr matched, matched⟩⟩

/-- The least number of copies decides, since there is no need for more. -/
theorem nil_mem_repeatedLanguage {l : Language UInt8} {min : Nat} {max : Option Nat}
    (ordered : ∀ m ∈ max, min ≤ m) : [] ∈ repeatedLanguage l min max ↔ min = 0 ∨ [] ∈ l := by
  constructor
  · rintro ⟨n, least, _, matched⟩
    exact (nil_mem_pow.1 matched).imp_left fun none => by omega
  · intro matched
    exact ⟨min, Nat.le_refl min, ordered, nil_mem_pow.2 matched⟩

theorem allNullable_iff {ps : List Pattern} :
    allNullable ps = true ↔ ∀ p ∈ ps, p.nullable = true := by
  induction ps with
  | nil => simp [allNullable]
  | cons p ps ih => simp [allNullable, ih]

theorem anyNullable_iff {ps : List Pattern} :
    anyNullable ps = true ↔ ∃ p ∈ ps, p.nullable = true := by
  induction ps with
  | nil => simp [anyNullable]
  | cons p ps ih => simp [anyNullable, ih]

theorem nil_mem_prod {ls : List (Language UInt8)} : [] ∈ ls.prod ↔ ∀ l ∈ ls, [] ∈ l := by
  induction ls with
  | nil => simp
  | cons l ls ih => rw [List.prod_cons, nil_mem_mul, ih, List.forall_mem_cons]

theorem nullable_iff {p : Pattern} (ordered : p.countsOrdered = true) :
    p.nullable = true ↔ [] ∈ p.language := by
  induction p with
  | empty => simp [nullable]
  | set bytes =>
    simp only [nullable, Bool.false_eq_true, false_iff]
    rintro ⟨b, _, empty⟩
    cases empty
  | seq parts ih =>
    rw [nullable, allNullable_iff, language_seq, nil_mem_prod, List.forall_mem_map]
    have each := allCountsOrdered_iff.1 ordered
    exact forall₂_congr fun q member => ih q member (each q member)
  | alt branches ih =>
    rw [nullable, anyNullable_iff, mem_language_alt]
    have each := allCountsOrdered_iff.1 ordered
    exact exists_congr fun q => and_congr_right fun member => ih q member (each q member)
  | rep body min max ih =>
    rw [countsOrdered, Bool.and_eq_true, Option.all_eq_true] at ordered
    rw [nullable, Bool.or_eq_true, beq_iff_eq, ih ordered.2, language_rep]
    exact (nil_mem_repeatedLanguage fun m given => of_decide_eq_true (ordered.1 m given)).symm

/-! ## Bytes of a match -/

theorem anyMentions_iff {b : UInt8} {ps : List Pattern} :
    anyMentions b ps = true ↔ ∃ p ∈ ps, p.mentions b = true := by
  induction ps with
  | nil => simp [anyMentions]
  | cons p ps ih => simp [anyMentions, ih]

/-- A byte of a string in a product stands in one of the factors. -/
theorem exists_mem_of_mem_prod {b : UInt8} {w : List UInt8} {ls : List (Language UInt8)}
    (matched : w ∈ ls.prod) (inside : b ∈ w) : ∃ l ∈ ls, ∃ v ∈ l, b ∈ v := by
  induction ls generalizing w with
  | nil =>
    rw [List.prod_nil, Language.mem_one] at matched
    subst matched
    cases inside
  | cons l ls ih =>
    rw [List.prod_cons, Language.mem_mul] at matched
    obtain ⟨u, inHead, v, inTail, rfl⟩ := matched
    rcases List.mem_append.1 inside with inside | inside
    · exact ⟨l, List.mem_cons_self, u, inHead, inside⟩
    · obtain ⟨m, member, x, found⟩ := ih inTail inside
      exact ⟨m, List.mem_cons_of_mem l member, x, found⟩

/-- Every byte of a match stands in a set of the tree that is not below a repetition of no
copies. -/
theorem mentions_of_mem {p : Pattern} {w : List UInt8} {b : UInt8} (matched : w ∈ p.language)
    (inside : b ∈ w) : p.mentions b = true := by
  induction p generalizing w with
  | empty =>
    rw [language_empty, Language.mem_one] at matched
    subst matched
    cases inside
  | set bytes =>
    obtain ⟨c, member, rfl⟩ := matched
    rw [List.mem_singleton] at inside
    subst inside
    exact member
  | seq parts ih =>
    rw [language_seq] at matched
    obtain ⟨l, factor, v, inPart, inside⟩ := exists_mem_of_mem_prod matched inside
    obtain ⟨p, member, rfl⟩ := List.mem_map.1 factor
    exact anyMentions_iff.2 ⟨p, member, ih p member inPart inside⟩
  | alt branches ih =>
    obtain ⟨p, member, matched⟩ := mem_language_alt.1 matched
    exact anyMentions_iff.2 ⟨p, member, ih p member matched inside⟩
  | rep body min max ih =>
    obtain ⟨n, _, most, matched⟩ := matched
    rw [← List.prod_replicate] at matched
    obtain ⟨l, factor, v, inBody, inside⟩ := exists_mem_of_mem_prod matched inside
    obtain ⟨copies, rfl⟩ := List.mem_replicate.1 factor
    -- A byte lies in a copy of the body, so the greatest count is not zero.
    have some_copy : max ≠ some 0 := by
      rintro rfl
      exact copies (Nat.le_zero.1 (most 0 rfl))
    simp [mentions, some_copy, ih inBody inside]

end Pattern

end ScannerGen
