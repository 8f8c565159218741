import ScannerGen.Files.Store

/-!
# File systems as values

What the operations on a file system leave as it is.  Writing and removing change the entry at one
place, and directories are only ever added; so the place of a path stays the same when files are
written and removed.

* `isFixed_iff` — the places that are directories in every file system.
* `get?_put`, `get?_erase` — the entries after a change.
* `SameDirectories` — file systems with the same directories; `SameDirectories.locate` and
  `SameDirectories.fileLocation` say that paths have the same places in them.
* `SameFiles` — file systems with the same files; `sameFiles_of_makeDirectory`.
* `run_bind_of_run` — runs one after the other.
-/

namespace ScannerGen

namespace FileSystem

variable {working : Location} {fs fs' : FileSystem working} {l : Location} {p : Path}

/-! ## Entries -/

theorem isFixed_iff : isFixed working l ↔ l <+: working := List.isPrefixOf_iff_prefix

theorem get?_of_isFixed (fixed : isFixed working l) (fs : FileSystem working) : fs.get? l = some .directory :=
  if_pos fixed

theorem get?_of_not_isFixed (free : isFixed working l = false) (fs : FileSystem working) :
    fs.get? l = fs.entries.lookup l :=
  if_neg (ne_true_of_eq_false free)

theorem not_isFixed (noDirectory : fs.get? l ≠ some .directory) : isFixed working l = false :=
  eq_false_of_ne_true fun fixed => noDirectory (get?_of_isFixed fixed fs)

theorem lookup_erase (fs : FileSystem working) (l other : Location) :
    (fs.erase l).entries.lookup other = if other = l then none else fs.entries.lookup other := by
  rw [erase]
  induction fs.entries with
  | nil => simp
  | cons entry entries ih =>
    obtain ⟨place, value⟩ := entry
    -- An entry at the place is filtered out; any other one is found by both or by neither.
    by_cases erased : place = l
    · subst erased
      rw [List.filter_cons_of_neg (by simp), ih]
      by_cases same : other = place
      · rw [if_pos same, if_pos same]
      · rw [if_neg same, if_neg same, List.lookup_cons, beq_false_of_ne same]
    · rw [List.filter_cons_of_pos (by simpa using erased), List.lookup_cons, List.lookup_cons, ih]
      by_cases found : other = place
      · subst found
        simp [erased]
      · rw [beq_false_of_ne found]

theorem get?_erase (free : isFixed working l = false) (other : Location) :
    (fs.erase l).get? other = if other = l then none else fs.get? other := by
  by_cases same : other = l
  · rw [if_pos same, same, get?_of_not_isFixed free, lookup_erase, if_pos rfl]
  · rw [if_neg same, get?, get?, lookup_erase, if_neg same]

theorem get?_put (free : isFixed working l = false) (entry : Entry) (other : Location) :
    (fs.put l entry).get? other = if other = l then some entry else fs.get? other := by
  by_cases same : other = l
  · rw [if_pos same, same, get?_of_not_isFixed free, put, List.lookup_cons, beq_self_eq_true]
  · rw [if_neg same, get?, get?, put, List.lookup_cons, beq_false_of_ne same, lookup_erase, if_neg same]

/-! ## Places of paths -/

/-- Whether a place is a directory is the same in two file systems. -/
def SameDirectories (fs fs' : FileSystem working) : Prop :=
  ∀ l, fs'.get? l = some .directory ↔ fs.get? l = some .directory

theorem SameDirectories.symm (same : fs.SameDirectories fs') : fs'.SameDirectories fs :=
  fun l => (same l).symm

/-- A walk goes through directories only, and its last name need not be there. -/
theorem SameDirectories.walk (same : fs.SameDirectories fs') {names : List String} {start : Location}
    (found : fs.walk start names = .ok l) : fs'.walk start names = .ok l := by
  -- On the names that are left; where the walk stands has to be a directory, or it ends with an error.
  induction names generalizing start with
  | nil => exact found
  | cons name names ih =>
    cases entry : fs.get? start with
    | none =>
      simp only [FileSystem.walk, entry] at found
      cases found
    | some e =>
      cases e with
      | file bytes =>
        simp only [FileSystem.walk, entry] at found
        cases found
      | directory =>
        simp only [FileSystem.walk, entry, (same start).2 entry] at found ⊢
        split
        · next dot =>
          rw [if_pos dot] at found
          exact ih found
        · next noDot =>
          rw [if_neg noDot] at found
          split
          · next dots =>
            rw [if_pos dots] at found
            exact ih found
          · next noDots =>
            rw [if_neg noDots] at found
            split
            · next long =>
              rw [if_pos long] at found
              cases found
            · next short =>
              rw [if_neg short] at found
              exact ih found

theorem SameDirectories.follow (same : fs.SameDirectories fs') {names : List String}
    (found : fs.follow p names = .ok l) : fs'.follow p names = .ok l := by
  rw [FileSystem.follow] at found ⊢
  split
  · next empty =>
    rw [if_pos empty] at found
    cases found
  · next nonempty =>
    rw [if_neg nonempty] at found
    split
    · next long =>
      rw [if_pos long] at found
      cases found
    · next short =>
      rw [if_neg short] at found
      exact same.walk found

theorem SameDirectories.locate (same : fs.SameDirectories fs') (found : fs.locate p = .ok l) :
    fs'.locate p = .ok l :=
  same.follow found

/-- The place of a file to be written is that of a path without a slash at its end where no directory
stands. -/
theorem fileLocation_eq_ok_iff :
    fs.fileLocation p = .ok l ↔
      p.endsInSlash = false ∧ fs.locate p = .ok l ∧ fs.get? l ≠ some .directory := by
  cases slash : p.endsInSlash with
  | true => cases above : fs.locateAbove p <;> simp [fileLocation, slash, above, bind, Except.bind]
  | false =>
    cases located : fs.locate p with
    | error e => simp [fileLocation, slash, located, bind, Except.bind]
    | ok place =>
      by_cases directory : fs.get? place = some .directory
      · simp only [fileLocation, slash, located, bind, Except.bind, Bool.false_eq_true, if_false,
          if_pos directory, Except.ok.injEq, true_and]
        refine ⟨nofun, ?_⟩
        rintro ⟨rfl, free⟩
        exact absurd directory free
      · simp only [fileLocation, slash, located, bind, Except.bind, Bool.false_eq_true, if_false,
          if_neg directory, Except.ok.injEq, true_and]
        refine ⟨?_, And.left⟩
        rintro rfl
        exact ⟨rfl, directory⟩

theorem SameDirectories.fileLocation (same : fs.SameDirectories fs') (found : fs.fileLocation p = .ok l) :
    fs'.fileLocation p = .ok l := by
  obtain ⟨noSlash, located, free⟩ := fileLocation_eq_ok_iff.1 found
  exact fileLocation_eq_ok_iff.2 ⟨noSlash, same.locate located, fun directory => free ((same l).1 directory)⟩

theorem not_isFixed_of_fileLocation (found : fs.fileLocation p = .ok l) : isFixed working l = false :=
  not_isFixed (fileLocation_eq_ok_iff.1 found).2.2

/-! ## Operations -/

/-- Where there is no directory a file can be put, and the directories stay. -/
theorem sameDirectories_put (noDirectory : fs.get? l ≠ some .directory) (bytes : List UInt8) :
    fs.SameDirectories (fs.put l (.file bytes)) := by
  intro other
  rw [get?_put (not_isFixed noDirectory)]
  by_cases same : other = l
  · simp [same, noDirectory]
  · rw [if_neg same]

theorem write_eq_ok {bytes : List UInt8} (found : fs.fileLocation p = .ok l) :
    fs.write p bytes = .ok (fs.put l (.file bytes)) := by
  rw [write, found]
  rfl

theorem write_cases (fs : FileSystem working) (p : Path) (bytes : List UInt8) :
    (∃ l, fs.fileLocation p = .ok l ∧ fs.write p bytes = .ok (fs.put l (.file bytes))) ∨
      ∃ e, fs.write p bytes = .error e := by
  cases found : fs.fileLocation p with
  | error e => exact .inr ⟨e, by rw [write, found]; rfl⟩
  | ok l => exact .inl ⟨l, rfl, write_eq_ok found⟩

/-- A file at the place of a path is removed, and where there is none the removal is refused. -/
theorem remove_of_fileLocation (found : fs.fileLocation p = .ok l) :
    (fs.get? l = none ∧ fs.remove p = .error .notFound) ∨
      ∃ bytes, fs.get? l = some (.file bytes) ∧ fs.remove p = .ok (fs.erase l) := by
  obtain ⟨noSlash, located, free⟩ := fileLocation_eq_ok_iff.1 found
  have fully : fs.locateFully p = .ok l := by
    rw [locateFully, noSlash]
    exact located
  cases entry : fs.get? l with
  | none => exact .inl ⟨rfl, by simp [remove, fully, entry, bind, Except.bind]⟩
  | some e =>
    cases e with
    | directory => exact absurd entry free
    | file bytes => exact .inr ⟨bytes, rfl, by simp [remove, fully, entry, bind, Except.bind]⟩

/-- The files at all places are the same in two file systems. -/
def SameFiles (fs fs' : FileSystem working) : Prop :=
  ∀ l bytes, fs'.get? l = some (.file bytes) ↔ fs.get? l = some (.file bytes)

theorem SameFiles.refl (fs : FileSystem working) : fs.SameFiles fs := fun _ _ => Iff.rfl

theorem SameFiles.trans {fs'' : FileSystem working} (first : fs.SameFiles fs') (second : fs'.SameFiles fs'') :
    fs.SameFiles fs'' :=
  fun l bytes => (second l bytes).trans (first l bytes)

/-- A directory is made where nothing was. -/
theorem sameFiles_of_makeDirectory (made : fs.makeDirectory p = .ok fs') : fs.SameFiles fs' := by
  cases located : fs.locate p with
  | error e => simp [makeDirectory, located, bind, Except.bind] at made
  | ok place =>
    cases entry : fs.get? place with
    | some e => simp [makeDirectory, located, entry, bind, Except.bind] at made
    | none =>
      simp only [makeDirectory, located, entry, bind, Except.bind, Except.ok.injEq] at made
      have absent : fs.get? place ≠ some .directory := by
        rw [entry]
        nofun
      intro l bytes
      rw [← made, get?_put (not_isFixed absent)]
      by_cases same : l = place
      · simp [same, entry]
      · rw [if_neg same]

/-! ## Runs -/

/-- What follows a run goes on with its result and with the file system that it leaves. -/
theorem run_bind_of_run {α β : Type} {x : StateM (FileSystem working) α} {a : α} (ran : x.run fs = (a, fs'))
    (f : α → StateM (FileSystem working) β) : (x >>= f).run fs = (f a).run fs' := by
  rw [StateT.run_bind, ran]
  rfl

end FileSystem

end ScannerGen
