import Mathlib.Tactic.SplitIfs
import ScannerGen.Proofs.Files.Store

/-!
# Places of paths

The last part of a path is the last name of its place.  So two paths that differ there have different
places, whatever directories they lead through.  A path from the working directory has the same place if it
is spelled from the root or from the directory above.

* `exists_splitSlashes_append` — a text without slashes is put behind the last part of another one.
* `exists_of_locate_append` — the last name of the place of such a path.
* `locate_fromRoot`, `locate_fromAbove` — the places of other spellings.
* `held?` — what a path holds.
-/

namespace ScannerGen

/-! ## The last part -/

theorem splitSlashes_of_noSlash {cs : List Char} (noSlash : '/' ∉ cs) : splitSlashes cs = [cs] := by
  induction cs with
  | nil => rfl
  | cons c cs ih =>
    rw [List.mem_cons, not_or] at noSlash
    rw [splitSlashes, if_neg (Ne.symm noSlash.1), ih noSlash.2]

theorem exists_splitSlashes_append (cs : List Char) :
    ∃ front last, ∀ suffix, '/' ∉ suffix → splitSlashes (cs ++ suffix) = front ++ [last ++ suffix] := by
  induction cs with
  | nil => exact ⟨[], [], fun suffix noSlash => splitSlashes_of_noSlash noSlash⟩
  | cons c cs ih =>
    obtain ⟨front, last, split⟩ := ih
    by_cases slash : c = '/'
    · refine ⟨[] :: front, last, fun suffix noSlash => ?_⟩
      rw [List.cons_append, splitSlashes, if_pos slash, split suffix noSlash]
      rfl
    · -- The character goes in front of the first part, which may be the last one as well.
      cases front with
      | nil =>
        refine ⟨[], c :: last, fun suffix noSlash => ?_⟩
        rw [List.cons_append, splitSlashes, if_neg slash, split suffix noSlash]
        rfl
      | cons part parts =>
        refine ⟨(c :: part) :: parts, last, fun suffix noSlash => ?_⟩
        rw [List.cons_append, splitSlashes, if_neg slash, split suffix noSlash]
        rfl

/-- What stands in front of a slash is a part. -/
theorem splitSlashes_append_slash {cs : List Char} (noSlash : '/' ∉ cs) (rest : List Char) :
    splitSlashes (cs ++ '/' :: rest) = cs :: splitSlashes rest := by
  induction cs with
  | nil => rw [List.nil_append, splitSlashes, if_pos rfl]
  | cons c cs ih =>
    rw [List.mem_cons, not_or] at noSlash
    rw [List.cons_append, splitSlashes, if_neg (Ne.symm noSlash.1), ih noSlash.2]

namespace FileSystem

variable {working : Location} {fs fs' : FileSystem working} {l : Location}

/-! ## The last name -/

theorem walk_append (fs : FileSystem working) (start : Location) (names others : List String) :
    fs.walk start (names ++ others) = (fs.walk start names).bind fun l => fs.walk l others := by
  induction names generalizing start with
  | nil => rfl
  | cons name names ih =>
    rw [List.cons_append, walk, walk]
    cases fs.get? start with
    | none => rfl
    | some entry =>
      cases entry with
      | file => rfl
      | directory =>
        simp only [ih]
        split_ifs <;> rfl

/-- A name that is not one of dots is the last one of the place that it leads to. -/
theorem exists_of_walk_concat {start : Location} {names : List String} {name : String}
    (notDot : name ≠ ".") (notUp : name ≠ "..") (found : fs.walk start (names ++ [name]) = .ok l) :
    ∃ above, l = above ++ [name] := by
  rw [walk_append] at found
  cases before : fs.walk start names with
  | error e =>
    rw [before] at found
    cases found
  | ok above =>
    simp only [before, Except.bind, walk, if_neg notDot, if_neg notUp] at found
    split at found
    · cases found
    · cases found
    · split at found
      · cases found
      · exact ⟨above, (Except.ok.inj found).symm⟩

theorem exists_of_follow_concat {p : Path} {names : List String} {name : String} (notDot : name ≠ ".")
    (notUp : name ≠ "..") (found : fs.follow p (names ++ [name]) = .ok l) : ∃ above, l = above ++ [name] := by
  rw [follow] at found
  split_ifs at found
  all_goals exact exists_of_walk_concat notDot notUp found

/-- The last name of the place of a path is its last part, if that ends with something else than a dot. -/
theorem exists_of_locate_append (stem : String) :
    ∃ last : String, ∀ (suffix : String) (c : Char), '/' ∉ suffix.toList → suffix.toList.getLast? = some c →
      c ≠ '.' → ∀ (fs : FileSystem working) (l : Location), fs.locate ⟨stem ++ suffix⟩ = .ok l →
        ∃ above, l = above ++ [last ++ suffix] := by
  obtain ⟨front, last, split⟩ := exists_splitSlashes_append stem.toList
  refine ⟨String.ofList last, fun suffix c noSlash ends notDot fs l found => ?_⟩
  have ending : (String.ofList last ++ suffix).toList.getLast? = some c := by
    simp [List.getLast?_append, ends]
  have other {name : String} (differs : name.toList.getLast? ≠ some c) : String.ofList last ++ suffix ≠ name := by
    intro same
    rw [same] at ending
    exact differs ending
  have named : steps ⟨stem ++ suffix⟩ =
      (front.map String.ofList).filter (· != "") ++ [String.ofList last ++ suffix] := by
    have joined : String.ofList (last ++ suffix.toList) = String.ofList last ++ suffix := by
      rw [String.ofList_append, String.ofList_toList]
    have kept : [String.ofList last ++ suffix].filter (· != "") = [String.ofList last ++ suffix] :=
      List.filter_eq_self.2 fun name member => by
        rw [List.mem_singleton.1 member]
        exact bne_iff_ne.2 (other nofun)
    rw [steps, Path.parts, String.toList_append, split _ noSlash, List.map_append, List.filter_append,
      List.map_singleton, joined, kept]
  rw [locate, named] at found
  apply exists_of_follow_concat (other ?_) (other ?_) found
  · simpa using Ne.symm notDot
  · simpa using Ne.symm notDot

/-! ## Other spellings -/

/-- A name that a directory can have. -/
structure IsName (name : String) : Prop where
  nonempty : name ≠ ""
  notDot : name ≠ "."
  notUp : name ≠ ".."
  noSlash : '/' ∉ name.toList
  short : name.utf8ByteSize ≤ maxName

/-- A path behind some parts. -/
def behind (parts : List String) (p : Path) : Path :=
  ⟨String.join (parts.map fun part => part ++ "/") ++ p.text⟩

theorem parts_behind {parts : List String} (noSlash : ∀ part ∈ parts, '/' ∉ part.toList) (p : Path) :
    (behind parts p).parts = parts ++ p.parts := by
  induction parts with
  | nil => simp [behind]
  | cons part parts ih =>
    obtain ⟨first, others⟩ := List.forall_mem_cons.1 noSlash
    have text : (behind (part :: parts) p).text.toList = part.toList ++ '/' :: (behind parts p).text.toList := by
      simp [behind]
    rw [Path.parts, text, splitSlashes_append_slash first, List.map_cons, String.ofList_toList,
      List.cons_append, ← ih others]
    rfl

theorem steps_behind {parts : List String} (noSlash : ∀ part ∈ parts, '/' ∉ part.toList) (p : Path) :
    steps (behind parts p) = parts.filter (· != "") ++ steps p := by
  rw [steps, parts_behind noSlash, List.filter_append]
  rfl

/-- The way to the working directory is always there. -/
theorem walk_of_prefix {names : List String} (plain : ∀ name ∈ names, IsName name)
    (above : l ++ names <+: working) : fs.walk l names = .ok (l ++ names) := by
  induction names generalizing l with
  | nil => rw [walk, List.append_nil]
  | cons name names ih =>
    obtain ⟨first, others⟩ := List.forall_mem_cons.1 plain
    have fixed : isFixed working l := isFixed_iff.2 ((List.prefix_append l _).trans above)
    rw [List.append_cons] at above ⊢
    simp only [walk, get?_of_isFixed fixed, if_neg first.notDot, if_neg first.notUp,
      if_neg (Nat.not_lt.2 first.short), ih others above]

theorem locate_eq_walk {p : Path} (nonempty : p.text ≠ "") (short : p.text.utf8ByteSize ≤ maxPath) :
    fs.locate p = fs.walk (if p.isAbsolute then [] else working) (steps p) := by
  rw [locate, follow, if_neg nonempty, if_neg (Nat.not_lt.2 short)]

/-- Parts in front that lead to the working directory do not change the place of a path. -/
theorem locate_behind {p : Path} {parts : List String} (noSlash : ∀ part ∈ parts, '/' ∉ part.toList)
    (nonempty : p.text ≠ "") (relative : p.isAbsolute = false)
    (short : (behind parts p).text.utf8ByteSize ≤ maxPath)
    (arrives : fs.walk (if (behind parts p).isAbsolute then [] else working) (parts.filter (· != "")) =
      .ok working) : fs.locate (behind parts p) = fs.locate p := by
  have nonempty' : (behind parts p).text ≠ "" := by simp [behind, nonempty]
  have short' : p.text.utf8ByteSize ≤ maxPath := by
    simp only [behind, String.utf8ByteSize_append] at short
    omega
  rw [locate_eq_walk nonempty' short, locate_eq_walk nonempty short', steps_behind noSlash, walk_append,
    arrives, relative]
  rfl

/-- A path from the working directory has the same place if it is spelled from the root. -/
theorem locate_fromRoot {p : Path} (names : ∀ name ∈ working, IsName name) (nonempty : p.text ≠ "")
    (relative : p.isAbsolute = false) (short : (behind ("" :: working) p).text.utf8ByteSize ≤ maxPath) :
    fs.locate (behind ("" :: working) p) = fs.locate p := by
  have noSlash : ∀ part ∈ "" :: working, '/' ∉ part.toList :=
    List.forall_mem_cons.2 ⟨by simp, fun name listed => (names name listed).noSlash⟩
  have kept : working.filter (· != "") = working :=
    List.filter_eq_self.2 fun name listed => bne_iff_ne.2 (names name listed).nonempty
  have absolute : (behind ("" :: working) p).isAbsolute = true := by simp [behind, Path.isAbsolute]
  apply locate_behind noSlash nonempty relative short
  rw [if_pos absolute, List.filter_cons_of_neg (by simp), kept]
  exact walk_of_prefix names (List.prefix_refl working)

/-- It has the same place if it is spelled from the directory above, too. -/
theorem locate_fromAbove {above : Location} {name : String} {fs : FileSystem (above ++ [name])} {p : Path}
    (named : IsName name) (nonempty : p.text ≠ "") (relative : p.isAbsolute = false)
    (short : (behind ["..", name] p).text.utf8ByteSize ≤ maxPath) :
    fs.locate (behind ["..", name] p) = fs.locate p := by
  have noSlash : ∀ part ∈ ["..", name], '/' ∉ part.toList := by simp [named.noSlash]
  have kept : ["..", name].filter (· != "") = ["..", name] := by simp [named.nonempty]
  have notAbsolute : (behind ["..", name] p).isAbsolute = false := by simp [behind, Path.isAbsolute]
  have fixed : isFixed (above ++ [name]) (above ++ [name]) := isFixed_iff.2 (List.prefix_refl _)
  have upward : up (above ++ [name]) = above := List.dropLast_concat
  apply locate_behind noSlash nonempty relative short
  rw [notAbsolute, kept, if_neg Bool.false_ne_true, walk, get?_of_isFixed fixed]
  simp only [upward]
  exact walk_of_prefix (List.forall_mem_singleton.2 named) (List.prefix_refl _)

/-- Three spellings of one path. -/
example :
    ([⟨"a"⟩, ⟨"../user/a"⟩, ⟨"/home/user/a"⟩] : List Path).map (⟨[]⟩ : FileSystem ["home", "user"]).locate =
      List.replicate 3 (.ok ["home", "user", "a"]) := by
  rfl

/-! ## What a path holds -/

/-- What stands at the place of a path, if anything does. -/
def held? (fs : FileSystem working) (p : Path) : Option Entry :=
  match fs.locate p with
  | .ok l => fs.get? l
  | .error _ => none

theorem held?_of_locate {p : Path} (located : fs.locate p = .ok l) : fs.held? p = fs.get? l := by
  rw [held?, located]

/-- While the directories stay, a path holds what stands at the place that it had before. -/
theorem SameDirectories.held?_eq {p : Path} (same : fs.SameDirectories fs')
    (kept : ∀ l, fs.locate p = .ok l → fs'.get? l = fs.get? l) : fs'.held? p = fs.held? p := by
  cases located : fs.locate p with
  | ok l => rw [held?_of_locate located, held?_of_locate (same.locate located), kept l located]
  | error e =>
    cases located' : fs'.locate p with
    | ok l =>
      rw [same.symm.locate located'] at located
      cases located
    | error e' => rw [held?, held?, located, located']

section Changes

variable {p q : Path}

theorem held?_put (found : fs.fileLocation p = .ok l) (bytes : List UInt8) :
    (fs.put l (.file bytes)).held? p = some (.file bytes) := by
  obtain ⟨_, located, noDirectory⟩ := fileLocation_eq_ok_iff.1 found
  rw [held?_of_locate ((sameDirectories_put noDirectory bytes).locate located),
    get?_put (not_isFixed noDirectory), if_pos rfl]

/-- Writing one file leaves what other paths hold. -/
theorem held?_put_of_ne (found : fs.fileLocation p = .ok l) (bytes : List UInt8)
    (differ : ∀ place, fs.locate q = .ok place → place ≠ l) : (fs.put l (.file bytes)).held? q = fs.held? q := by
  have noDirectory := (fileLocation_eq_ok_iff.1 found).2.2
  apply (sameDirectories_put noDirectory bytes).held?_eq
  intro place located
  rw [get?_put (not_isFixed noDirectory), if_neg (differ place located)]

theorem sameDirectories_erase (noDirectory : fs.get? l ≠ some .directory) : fs.SameDirectories (fs.erase l) := by
  intro place
  rw [get?_erase (not_isFixed noDirectory)]
  by_cases same : place = l
  · simp [same, noDirectory]
  · rw [if_neg same]

theorem held?_erase (found : fs.fileLocation p = .ok l) : (fs.erase l).held? p = none := by
  obtain ⟨_, located, noDirectory⟩ := fileLocation_eq_ok_iff.1 found
  rw [held?_of_locate ((sameDirectories_erase noDirectory).locate located),
    get?_erase (not_isFixed noDirectory), if_pos rfl]

theorem held?_erase_of_ne (found : fs.fileLocation p = .ok l)
    (differ : ∀ place, fs.locate q = .ok place → place ≠ l) : (fs.erase l).held? q = fs.held? q := by
  have noDirectory := (fileLocation_eq_ok_iff.1 found).2.2
  apply (sameDirectories_erase noDirectory).held?_eq
  intro place located
  rw [get?_erase (not_isFixed noDirectory), if_neg (differ place located)]

end Changes

end FileSystem

end ScannerGen
