import ScannerGen.Emit.Write
import ScannerGen.Proofs.Files.Places

/-!
# What writing a scanner leaves

Source and header are written one after the other, and when the header cannot be written, the source is
removed again.  What is removed then is all that stands at the path of the source, so a file that was
there before is not given back.

The system may refuse to write or remove a file for reasons of its own, such as permissions or a full
disk; a refusal leaves the file as it was.

* `Refusals`, `Refusing` — file systems with such reasons, and runs on them.
* `Artifacts.entries_of_write` — what stands at the two paths in the end.
* `Artifacts.earlierSource_lost` — an earlier source is gone after a failure.
-/

namespace ScannerGen

open FileSystem (held? SameDirectories)

/-! ## Refusals -/

variable {working : Location}

/-- The reasons of a system to refuse writing and removing files. -/
structure Refusals (working : Location) where
  writing : FileSystem working → Path → List UInt8 → Option OsError
  removing : FileSystem working → Path → Option OsError

/-- A system that refuses nothing that can be done. -/
def Refusals.none : Refusals working := ⟨fun _ _ _ => .none, fun _ _ => .none⟩

/-- Runs on a file system of a system that may refuse. -/
abbrev Refusing (working : Location) := ReaderT (Refusals working) (StateM (FileSystem working))

/-- A change that is made if there is no reason against it. -/
def Refusing.unless (reason : Refusals working → FileSystem working → Option OsError)
    (change : StateM (FileSystem working) (Except OsError Unit)) : Refusing working (Except OsError Unit) :=
  fun refusals fs =>
  match reason refusals fs with
  | some e => (.error e, fs)
  | .none => change.run fs

instance : FileAccess (Refusing working) where
  read p := fun _ => FileAccess.read p
  write p bytes := .unless (fun refusals fs => refusals.writing fs p bytes) (FileAccess.write p bytes)
  patch p offset bytes := .unless (fun refusals fs => refusals.writing fs p bytes) (FileAccess.patch p offset bytes)
  remove p := .unless (fun refusals fs => refusals.removing fs p) (FileAccess.remove p)
  makeDirectory p := fun _ => FileAccess.makeDirectory p
  isDirectory p := fun _ => FileAccess.isDirectory p

section Runs

variable {refusals : Refusals working} {fs : FileSystem working} {p : Path} {l : Location}

theorem Refusing.run_bind {α β : Type} {x : Refusing working α} {a : α} {fs' : FileSystem working}
    (ran : (x.run refusals).run fs = (a, fs')) (f : α → Refusing working β) :
    ((x >>= f).run refusals).run fs = ((f a).run refusals).run fs' := by
  rw [ReaderT.run_bind, FileSystem.run_bind_of_run ran]

theorem run_write (refusals : Refusals working) (fs : FileSystem working) (p : Path) (bytes : List UInt8) :
    ((FileAccess.write p bytes : Refusing working _).run refusals).run fs =
      match refusals.writing fs p bytes with
      | some e => (.error e, fs)
      | none => FileSystem.attempt (fun fs => fs.write p bytes) fs := rfl

theorem run_remove (refusals : Refusals working) (fs : FileSystem working) (p : Path) :
    ((FileAccess.remove p : Refusing working _).run refusals).run fs =
      match refusals.removing fs p with
      | some e => (.error e, fs)
      | none => FileSystem.attempt (fun fs => fs.remove p) fs := rfl

/-- A file is written at the place of its path, or nothing happens. -/
theorem run_write_cases (refusals : Refusals working) (fs : FileSystem working) (p : Path) (bytes : List UInt8) :
    (∃ l, fs.fileLocation p = .ok l ∧
      ((FileAccess.write p bytes : Refusing working _).run refusals).run fs = (.ok (), fs.put l (.file bytes))) ∨
      ∃ e, ((FileAccess.write p bytes : Refusing working _).run refusals).run fs = (.error e, fs) := by
  rw [run_write]
  cases refusals.writing fs p bytes with
  | some e => exact .inr ⟨e, rfl⟩
  | none =>
    simp only [FileSystem.attempt]
    rcases fs.write_cases p bytes with ⟨l, found, done⟩ | ⟨e, refused⟩
    · exact .inl ⟨l, found, by rw [done]⟩
    · exact .inr ⟨e, by rw [refused]⟩

/-- A file that is there is removed unless that is refused. -/
theorem run_remove_cases (refusals : Refusals working) {bytes : List UInt8} (found : fs.fileLocation p = .ok l)
    (file : fs.get? l = some (.file bytes)) :
    ((FileAccess.remove p : Refusing working _).run refusals).run fs = (.ok (), fs.erase l) ∨
      ∃ e, refusals.removing fs p = some e ∧
        ((FileAccess.remove p : Refusing working _).run refusals).run fs = (.error e, fs) := by
  rw [run_remove]
  cases refusals.removing fs p with
  | some e => exact .inr ⟨e, rfl, rfl⟩
  | none =>
    left
    rcases FileSystem.remove_of_fileLocation found with ⟨absent, _⟩ | ⟨_, _, removed⟩
    · rw [file] at absent
      cases absent
    · simp only [FileSystem.attempt, removed]

end Runs

/-! ## Source and header -/

namespace Artifacts

/-- The two paths have one beginning, and differ behind it. -/
theorem exists_stem (a : Artifacts) (directory : Path) :
    ∃ stem, a.sourcePath directory = ⟨stem ++ ".c"⟩ ∧ a.headerPath directory = ⟨stem ++ ".h"⟩ := by
  have absolute : (⟨a.base ++ ".c"⟩ : Path).isAbsolute = (⟨a.base ++ ".h"⟩ : Path).isAbsolute := by
    simp only [Path.isAbsolute, String.toList_append]
    cases a.base.toList with
    | nil => decide
    | cons c cs => simp
  have names : a.sourceName = a.base ++ ".c" ∧ a.headerName = a.base ++ ".h" := ⟨rfl, rfl⟩
  rw [sourcePath, headerPath, names.1, names.2, Path.join, Path.join, ← absolute]
  split
  · exact ⟨a.base, rfl, rfl⟩
  · split
    · exact ⟨directory.text ++ a.base, by simp only [String.append_assoc], by simp only [String.append_assoc]⟩
    · exact ⟨directory.text ++ ("/" ++ a.base), by simp only [String.append_assoc],
        by simp only [String.append_assoc]⟩

/-- The two files have different places. -/
theorem places_differ (a : Artifacts) (directory : Path) {fs fs' : FileSystem working} {l l' : Location}
    (source : fs.locate (a.sourcePath directory) = .ok l)
    (header : fs'.locate (a.headerPath directory) = .ok l') : l ≠ l' := by
  obtain ⟨stem, sourceText, headerText⟩ := a.exists_stem directory
  rw [sourceText] at source
  rw [headerText] at header
  obtain ⟨last, ends⟩ := FileSystem.exists_of_locate_append stem
  obtain ⟨above, rfl⟩ := ends ".c" 'c' (by decide) rfl (by decide) fs l source
  obtain ⟨above', rfl⟩ := ends ".h" 'h' (by decide) rfl (by decide) fs' l' header
  intro same
  have names := (List.cons.inj (List.append_inj' same rfl).2).1
  have letters := congrArg String.toList names
  rw [String.toList_append, String.toList_append] at letters
  exact absurd (List.append_cancel_left letters) (by decide)

/-- The place of the header is not that of the source, in whichever file system that was found. -/
theorem header_not_at (a : Artifacts) (directory : Path) {fs fs' : FileSystem working} {l : Location}
    (found : fs.fileLocation (a.sourcePath directory) = .ok l) :
    ∀ place, fs'.locate (a.headerPath directory) = .ok place → place ≠ l :=
  fun _ header => Ne.symm (a.places_differ directory (FileSystem.fileLocation_eq_ok_iff.1 found).2.1 header)

section Outcomes

variable {a : Artifacts} {directory : Path} {refusals : Refusals working} {fs : FileSystem working}

/-- Once the source is written, its path leads to the same place. -/
theorem fileLocation_written {l : Location} (found : fs.fileLocation (a.sourcePath directory) = .ok l) :
    (fs.put l (.file (utf8 a.source))).fileLocation (a.sourcePath directory) = .ok l := by
  have noDirectory := (FileSystem.fileLocation_eq_ok_iff.1 found).2.2
  exact (FileSystem.sameDirectories_put noDirectory (utf8 a.source)).fileLocation found

/-- What writing can come to. -/
inductive Leaves (a : Artifacts) (directory : Path) (refusals : Refusals working) (fs : FileSystem working) :
    Except FileError Unit → FileSystem working → Prop
  /-- The source cannot be written. -/
  | untouched (e : OsError) : Leaves a directory refusals fs (.error ⟨a.sourcePath directory, .os e⟩) fs
  | written {l l' : Location} (source : fs.fileLocation (a.sourcePath directory) = .ok l)
      (header : (fs.put l (.file (utf8 a.source))).fileLocation (a.headerPath directory) = .ok l') :
      Leaves a directory refusals fs (.ok ())
        ((fs.put l (.file (utf8 a.source))).put l' (.file (utf8 a.header)))
  /-- The header cannot be written, and the source is removed. -/
  | withdrawn {l : Location} (source : fs.fileLocation (a.sourcePath directory) = .ok l) (e : OsError) :
      Leaves a directory refusals fs (.error ⟨a.headerPath directory, .os e⟩)
        ((fs.put l (.file (utf8 a.source))).erase l)
  /-- The header cannot be written, and the source cannot be removed. -/
  | stuck {l : Location} (source : fs.fileLocation (a.sourcePath directory) = .ok l) (e : OsError)
      (refused : (refusals.removing (fs.put l (.file (utf8 a.source))) (a.sourcePath directory)).isSome) :
      Leaves a directory refusals fs (.error ⟨a.headerPath directory, .os e⟩)
        (fs.put l (.file (utf8 a.source)))

theorem exists_run_write (a : Artifacts) (directory : Path) (refusals : Refusals working)
    (fs : FileSystem working) :
    ∃ result fs', ((a.write directory : Refusing working _).run refusals).run fs = (result, fs') ∧
      Leaves a directory refusals fs result fs' := by
  simp only [write]
  rcases run_write_cases refusals fs (a.sourcePath directory) (utf8 a.source) with
    ⟨l, found, source⟩ | ⟨e, source⟩
  · rw [Refusing.run_bind source]
    have noDirectory := (FileSystem.fileLocation_eq_ok_iff.1 found).2.2
    have file : (fs.put l (.file (utf8 a.source))).get? l = some (.file (utf8 a.source)) := by
      rw [FileSystem.get?_put (FileSystem.not_isFixed noDirectory), if_pos rfl]
    rcases run_write_cases refusals (fs.put l (.file (utf8 a.source))) (a.headerPath directory)
      (utf8 a.header) with ⟨l', found', header⟩ | ⟨e, header⟩
    · rw [Refusing.run_bind header]
      exact ⟨_, _, rfl, .written found found'⟩
    · rw [Refusing.run_bind header]
      rcases run_remove_cases refusals (fileLocation_written found) file with removed | ⟨e', refused, kept⟩
      · rw [Refusing.run_bind removed]
        exact ⟨_, _, rfl, .withdrawn found e⟩
      · rw [Refusing.run_bind kept]
        exact ⟨_, _, rfl, .stuck found e (by rw [refused]; rfl)⟩
  · rw [Refusing.run_bind source]
    exact ⟨_, _, rfl, .untouched e⟩

namespace Leaves

variable {fs' : FileSystem working} {e : FileError}

theorem texts (leaves : Leaves a directory refusals fs (.ok ()) fs') :
    fs'.held? (a.sourcePath directory) = some (.file (utf8 a.source)) ∧
      fs'.held? (a.headerPath directory) = some (.file (utf8 a.header)) := by
  cases leaves with
  | @written l l' source header =>
    refine ⟨?_, FileSystem.held?_put header _⟩
    -- The place of the header is another one.
    have differ : ∀ place, (fs.put l (.file (utf8 a.source))).locate (a.sourcePath directory) = .ok place →
        place ≠ l' := fun place located =>
      a.places_differ directory located (FileSystem.fileLocation_eq_ok_iff.1 header).2.1
    rw [FileSystem.held?_put_of_ne header _ differ]
    exact FileSystem.held?_put source _

theorem header_kept (leaves : Leaves a directory refusals fs (.error e) fs') :
    fs'.held? (a.headerPath directory) = fs.held? (a.headerPath directory) := by
  cases leaves with
  | untouched => rfl
  | withdrawn source =>
    rw [FileSystem.held?_erase_of_ne (fileLocation_written source) (a.header_not_at directory source),
      FileSystem.held?_put_of_ne source _ (a.header_not_at directory source)]
  | stuck source => exact FileSystem.held?_put_of_ne source _ (a.header_not_at directory source)

theorem source_cases (leaves : Leaves a directory refusals fs (.error e) fs') :
    e.path = a.sourcePath directory ∧ fs'.held? (a.sourcePath directory) = fs.held? (a.sourcePath directory) ∨
      e.path = a.headerPath directory ∧ (fs'.held? (a.sourcePath directory) = none ∨
        (refusals.removing fs' (a.sourcePath directory)).isSome ∧
          fs'.held? (a.sourcePath directory) = some (.file (utf8 a.source))) := by
  cases leaves with
  | untouched => exact .inl ⟨rfl, rfl⟩
  | withdrawn source => exact .inr ⟨rfl, .inl (FileSystem.held?_erase (fileLocation_written source))⟩
  | stuck source _ refused => exact .inr ⟨rfl, .inr ⟨refused, FileSystem.held?_put source _⟩⟩

end Leaves

end Outcomes

/-- What stands at the paths of source and header in the end, on any file system.  If both files are written,
their texts.  If a file cannot be written, what was there before stands at the path of the header.  The same
holds of the source if that is the file that cannot be written; otherwise nothing stands at its path any
more, but for the new text if the system refuses to remove it. -/
theorem entries_of_write (a : Artifacts) (directory : Path) (refusals : Refusals working)
    (fs : FileSystem working) :
    let run := ((a.write directory : Refusing working _).run refusals).run fs
    let source := a.sourcePath directory
    let header := a.headerPath directory
    (run.1 = .ok () → run.2.held? source = some (.file (utf8 a.source)) ∧
      run.2.held? header = some (.file (utf8 a.header))) ∧
    ∀ e, run.1 = .error e → run.2.held? header = fs.held? header ∧
      (e.path = source ∧ run.2.held? source = fs.held? source ∨
        e.path = header ∧ (run.2.held? source = none ∨
          (refusals.removing run.2 source).isSome ∧ run.2.held? source = some (.file (utf8 a.source)))) := by
  obtain ⟨result, fs', ran, leaves⟩ := exists_run_write a directory refusals fs
  intro run source header
  have same : run = (result, fs') := ran
  simp only [same]
  constructor
  · rintro rfl
    exact leaves.texts
  · rintro e rfl
    exact ⟨leaves.header_kept, leaves.source_cases⟩

/-- A system that refuses nothing runs as the file system does. -/
theorem run_write_of_none (a : Artifacts) (directory : Path) :
    (a.write directory : Refusing working _).run .none = (a.write directory : StateM (FileSystem working) _) := by
  simp only [write, ReaderT.run_bind]
  refine bind_congr fun source => ?_
  cases source with
  | error e => rfl
  | ok =>
    simp only [ReaderT.run_bind]
    refine bind_congr fun header => ?_
    cases header with
    | error e => rfl
    | ok => rfl

/-- A directory stands at the path of the header, and the source that was there before is gone. -/
theorem earlierSource_lost :
    let a : Artifacts := ⟨"a", "new", "new"⟩
    let fs : FileSystem ["home"] :=
      ⟨[(["home", "a.c"], .file (utf8 "old")), (["home", "a.h"], .directory)]⟩
    let run := (a.write ⟨"."⟩ : StateM (FileSystem ["home"]) _).run fs
    run.1.isOk = false ∧ fs.held? (a.sourcePath ⟨"."⟩) = some (.file (utf8 "old")) ∧
      run.2.held? (a.sourcePath ⟨"."⟩) = none := by
  decide +kernel

end Artifacts

end ScannerGen
