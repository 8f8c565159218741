import ScannerGen.Proofs.Files.Store

/-!
# Journals

A program over files is run on a file system that is a value, and beside that a journal is kept of
the places where the run puts files.  The journal changes nothing of the run.

* `Journaled` — runs with a journal; writing and patching are recorded.
* `Journals` — a run with a journal is the run itself, together with what it writes.
* `Journals.write_cases`, `Journals.patch` — what the operations that are recorded do.
* `Fills` — what a run leaves that writes to one file only.
* `exists_journals_makeDirectories` — making directories writes no file.
-/

namespace ScannerGen

variable {working : Location}

/-- The place of a path, if a file stands there. -/
def FileSystem.filePlace (fs : FileSystem working) (p : Path) : List Location :=
  match fs.locate p with
  | .error _ => []
  | .ok l =>
    match fs.get? l with
    | some (.file _) => [l]
    | _ => []

/-- Runs over a file system that keep a journal of the places where files are put. -/
abbrev Journaled (working : Location) := StateT (List Location) (StateM (FileSystem working))

/-- A change of the file at a path, which goes into the journal if it succeeds. -/
def Journaled.recorded (p : Path) (change : StateM (FileSystem working) (Except OsError Unit)) :
    Journaled working (Except OsError Unit) := fun journal fs =>
  match change.run fs with
  | (.ok (), changed) => ((.ok (), journal ++ changed.filePlace p), changed)
  | (.error e, unchanged) => ((.error e, journal), unchanged)

instance : FileAccess (Journaled working) where
  read p := StateT.lift (FileAccess.read p)
  write p bytes := .recorded p (FileAccess.write p bytes)
  patch p offset bytes := .recorded p (FileAccess.patch p offset bytes)
  remove p := StateT.lift (FileAccess.remove p)
  makeDirectory p := StateT.lift (FileAccess.makeDirectory p)
  isDirectory p := StateT.lift (FileAccess.isDirectory p)

variable {α β σ : Type}

/-- A run with a journal and the run itself give one result and take one file system to another; the
journal grows by what is written. -/
structure Journals (journaled : Journaled working α) (plain : StateM (FileSystem working) α)
    (fs : FileSystem working) (a : α) (written : List Location) (fs' : FileSystem working) : Prop where
  journaled : ∀ before, (journaled.run before).run fs = ((a, before ++ written), fs')
  plain : plain.run fs = (a, fs')

namespace Journals

variable {fs fs' fs'' : FileSystem working} {p : Path} {l : Location}

/-! ## Sequences -/

theorem pure (a : α) (fs : FileSystem working) : Journals (Pure.pure a) (Pure.pure a) fs a [] fs where
  journaled before := by rw [List.append_nil]; rfl
  plain := rfl

theorem bind {journaled : Journaled working α} {plain : StateM (FileSystem working) α} {a : α} {b : β}
    {f : α → Journaled working β} {g : α → StateM (FileSystem working) β} {written others : List Location}
    (first : Journals journaled plain fs a written fs')
    (second : Journals (f a) (g a) fs' b others fs'') :
    Journals (journaled >>= f) (plain >>= g) fs b (written ++ others) fs'' where
  journaled before := by
    rw [StateT.run_bind, StateT.run_bind, first.journaled]
    show ((f a).run (before ++ written)).run fs' = _
    rw [second.journaled, List.append_assoc]
  plain := by
    rw [StateT.run_bind, first.plain]
    exact second.plain

/-- What follows an action that writes nothing. -/
theorem quiet {journaled : Journaled working α} {plain : StateM (FileSystem working) α} {a : α} {b : β}
    {f : α → Journaled working β} {g : α → StateM (FileSystem working) β} {others : List Location}
    (first : Journals journaled plain fs a [] fs') (second : Journals (f a) (g a) fs' b others fs'') :
    Journals (journaled >>= f) (plain >>= g) fs b others fs'' :=
  first.bind second

/-- What is followed by an action that writes nothing. -/
theorem thenQuiet {journaled : Journaled working α} {plain : StateM (FileSystem working) α} {a : α} {b : β}
    {f : α → Journaled working β} {g : α → StateM (FileSystem working) β} {written : List Location}
    (first : Journals journaled plain fs a written fs') (second : Journals (f a) (g a) fs' b [] fs'') :
    Journals (journaled >>= f) (plain >>= g) fs b written fs'' := by
  have both := first.bind second
  rwa [List.append_nil] at both

/-- What is followed by a step that does nothing but give a result. -/
theorem thenPure {journaled : Journaled working α} {plain : StateM (FileSystem working) α} {a : α}
    {f : α → Journaled working β} {g : α → StateM (FileSystem working) β} {b : β} {written : List Location}
    (first : Journals journaled plain fs a written fs') (last : f a = Pure.pure b)
    (last' : g a = Pure.pure b) : Journals (journaled >>= f) (plain >>= g) fs b written fs' := by
  refine first.thenQuiet ?_
  rw [last, last']
  exact pure b fs'

/-! ## Runs with a state of their own -/

theorem bindRun {journaled : StateT σ (Journaled working) α} {plain : StateT σ (StateM (FileSystem working)) α}
    {f : α → StateT σ (Journaled working) β} {g : α → StateT σ (StateM (FileSystem working)) β} {s s' : σ} {a : α}
    {result : β × σ} {written others : List Location}
    (first : Journals (journaled.run s) (plain.run s) fs (a, s') written fs')
    (second : Journals ((f a).run s') ((g a).run s') fs' result others fs'') :
    Journals ((journaled >>= f).run s) ((plain >>= g).run s) fs result (written ++ others) fs'' := by
  rw [StateT.run_bind, StateT.run_bind]
  exact first.bind second

/-- A run that gives up its state in the end. -/
theorem dropState {journaled : StateT σ (Journaled working) α}
    {plain : StateT σ (StateM (FileSystem working)) α} {s s' : σ} {a : α} {written : List Location}
    (run : Journals (journaled.run s) (plain.run s) fs (a, s') written fs') :
    Journals (journaled.run' s) (plain.run' s) fs a written fs' := by
  rw [StateT.run', StateT.run', map_eq_pure_bind, map_eq_pure_bind]
  exact run.thenPure rfl rfl

/-! ## Operations -/

theorem lift (action : StateM (FileSystem working) α) (fs : FileSystem working) :
    Journals (StateT.lift action) action fs (action.run fs).1 [] (action.run fs).2 where
  journaled before := by rw [List.append_nil]; rfl
  plain := rfl

theorem read (p : Path) (fs : FileSystem working) :
    Journals (FileAccess.read p) (FileAccess.read p) fs (fs.read p) [] fs :=
  lift (FileAccess.read p) fs

theorem recorded_ok {change : StateM (FileSystem working) (Except OsError Unit)} {bytes : List UInt8}
    (found : fs.fileLocation p = .ok l) (done : change.run fs = (.ok (), fs.put l (.file bytes))) :
    Journals (.recorded p change) change fs (.ok ()) [l] (fs.put l (.file bytes)) where
  journaled before := by
    have free := FileSystem.not_isFixed_of_fileLocation found
    obtain ⟨_, located, noDirectory⟩ := FileSystem.fileLocation_eq_ok_iff.1 found
    have place : (fs.put l (.file bytes)).filePlace p = [l] := by
      have located' := (FileSystem.sameDirectories_put noDirectory bytes).locate located
      simp only [FileSystem.filePlace, located', FileSystem.get?_put free, if_pos]
    show Journaled.recorded p change before fs = _
    simp only [Journaled.recorded, done, place]
  plain := done

/-- A file is written at the place of its path, or the file system stays as it is. -/
theorem write_cases (p : Path) (bytes : List UInt8) (fs : FileSystem working) :
    (∃ l, fs.fileLocation p = .ok l ∧ Journals (FileAccess.write p bytes) (FileAccess.write p bytes)
      fs (.ok ()) [l] (fs.put l (.file bytes))) ∨
      ∃ e, Journals (FileAccess.write p bytes) (FileAccess.write p bytes) fs (.error e) [] fs := by
  have run : (FileAccess.write p bytes : StateM (FileSystem working) _).run fs =
      FileSystem.attempt (fun fs => fs.write p bytes) fs := rfl
  rcases fs.write_cases p bytes with ⟨l, found, done⟩ | ⟨e, refused⟩
  · refine .inl ⟨l, found, recorded_ok found ?_⟩
    rw [run, FileSystem.attempt, done]
  · rw [FileSystem.attempt, refused] at run
    refine .inr ⟨e, fun before => ?_, run⟩
    show Journaled.recorded p _ before fs = _
    rw [Journaled.recorded, run, List.append_nil]

theorem patch {old : List UInt8} (found : fs.fileLocation p = .ok l)
    (file : fs.get? l = some (.file old)) (offset : Nat) (bytes : List UInt8) :
    Journals (FileAccess.patch p offset bytes) (FileAccess.patch p offset bytes) fs (.ok ()) [l]
      (fs.put l (.file (FileSystem.overwritten old offset bytes))) := by
  obtain ⟨_, located, _⟩ := FileSystem.fileLocation_eq_ok_iff.1 found
  refine recorded_ok found ?_
  show (Except.ok (), fs.patch p offset bytes) = _
  rw [FileSystem.patch, located]
  simp only [file]

end Journals

/-! ## Writing to one file -/

/-- What a run leaves that writes to the file at one place. -/
structure Fills (l : Location) (fs : FileSystem working) (written : List Location)
    (fs' : FileSystem working) : Prop where
  only : ∀ place ∈ written, place = l
  elsewhere : ∀ place, place ≠ l → fs'.get? place = fs.get? place
  file : ∃ bytes, fs'.get? l = some (.file bytes)

namespace Fills

variable {fs fs' fs'' : FileSystem working} {l : Location} {written others : List Location}

theorem refl (file : ∃ bytes, fs.get? l = some (.file bytes)) : Fills l fs [] fs where
  only _ absent := absurd absent List.not_mem_nil
  elsewhere _ _ := rfl
  file := file

theorem trans (first : Fills l fs written fs') (second : Fills l fs' others fs'') :
    Fills l fs (written ++ others) fs'' where
  only place member := (List.mem_append.1 member).elim (first.only place) (second.only place)
  elsewhere place differ := (second.elsewhere place differ).trans (first.elsewhere place differ)
  file := second.file

theorem put (free : FileSystem.isFixed working l = false) (bytes : List UInt8) :
    Fills l fs [l] (fs.put l (.file bytes)) where
  only _ member := List.mem_singleton.1 member
  elsewhere place differ := by rw [FileSystem.get?_put free, if_neg differ]
  file := ⟨bytes, by rw [FileSystem.get?_put free, if_pos rfl]⟩

theorem sameDirectories (fills : Fills l fs written fs') (noDirectory : fs.get? l ≠ some .directory) :
    fs.SameDirectories fs' := by
  intro place
  by_cases same : place = l
  · obtain ⟨bytes, file⟩ := fills.file
    rw [same, file]
    exact ⟨nofun, fun directory => absurd directory noDirectory⟩
  · rw [fills.elsewhere place same]

theorem fileLocation {p : Path} (fills : Fills l fs written fs') (found : fs.fileLocation p = .ok l) :
    fs'.fileLocation p = .ok l :=
  (fills.sameDirectories (FileSystem.fileLocation_eq_ok_iff.1 found).2.2).fileLocation found

end Fills

/-! ## Directories -/

open FileSystem (SameFiles)

variable {fs : FileSystem working}

theorem exists_journals_makeDirectory (p : Path) (fs : FileSystem working) :
    ∃ result fs', Journals (FileAccess.makeDirectory p) (FileAccess.makeDirectory p) fs result [] fs' ∧
      fs.SameFiles fs' := by
  refine ⟨_, _, .lift _ fs, ?_⟩
  show SameFiles fs (FileSystem.attempt (fun fs => fs.makeDirectory p) fs).2
  rw [FileSystem.attempt]
  cases made : fs.makeDirectory p with
  | ok changed => exact FileSystem.sameFiles_of_makeDirectory made
  | error e => exact .refl fs

theorem exists_journals_ensureDirectory (p : Path) (fs : FileSystem working) :
    ∃ result fs', Journals (FileAccess.ensureDirectory p) (FileAccess.ensureDirectory p) fs result [] fs' ∧
      fs.SameFiles fs' := by
  obtain ⟨made, fs', run, same⟩ := exists_journals_makeDirectory p fs
  cases made with
  | ok => exact ⟨_, fs', run.quiet (.pure _ fs'), same⟩
  | error e =>
    have asked : Journals (FileAccess.isDirectory p) (FileAccess.isDirectory p) fs' _ [] fs' :=
      .lift (FileAccess.isDirectory p) fs'
    exact ⟨_, fs', run.quiet (asked.quiet (.pure _ fs')), same⟩

theorem exists_journals_makeChain (paths : List Path) (fs : FileSystem working) :
    ∃ result fs', Journals (FileAccess.makeChain paths) (FileAccess.makeChain paths) fs result [] fs' ∧
      fs.SameFiles fs' := by
  induction paths generalizing fs with
  | nil => exact ⟨_, fs, .pure _ fs, .refl fs⟩
  | cons p above ih =>
    simp only [FileAccess.makeChain]
    split
    · exact ⟨_, fs, .pure _ fs, .refl fs⟩
    · obtain ⟨result, fs₁, run, same⟩ := exists_journals_ensureDirectory p fs
      -- Only a missing directory above is made up for.
      by_cases missing : result = .error .notFound
      · subst missing
        obtain ⟨made, fs₂, others, same'⟩ := ih fs₁
        cases made with
        | error e => exact ⟨_, fs₂, run.quiet (others.quiet (.pure _ fs₂)), same.trans same'⟩
        | ok =>
          obtain ⟨result, fs₃, again, same''⟩ := exists_journals_ensureDirectory p fs₂
          exact ⟨result, fs₃, run.quiet (others.quiet again), same.trans (same'.trans same'')⟩
      · refine ⟨result, fs₁, run.quiet ?_, same⟩
        split
        · next impossible => exact absurd rfl missing
        · exact .pure _ fs₁

/-- Making directories writes no file and removes none. -/
theorem exists_journals_makeDirectories (p : Path) (fs : FileSystem working) :
    ∃ result fs', Journals (FileAccess.makeDirectories p) (FileAccess.makeDirectories p) fs result [] fs' ∧
      fs.SameFiles fs' :=
  exists_journals_makeChain (p :: p.ancestors) fs

end ScannerGen
