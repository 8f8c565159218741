import ScannerGen.CommandLine.Generator
import ScannerGen.Proofs.Generate
import ScannerGen.Proofs.Hooks.TokenIdFile

/-!
# Outputs of the generator

A run of the generator leaves all of its outputs or none.  Its files are written one after the
other, and each stage of it takes back what stands at its own paths when it fails; the paths may
coincide with each other, and with those of files that were there before.

* `Touched` — files have been written at the places of some paths only.
* `Delivered` — those files are there; `Withdrawn` — they are gone again, but for the files at paths that
  remain.
* `AllOrNone` — what comes of a stage, whatever is to be scanned in the end.
* `outputs_allOrNone` — a run that fails before it comes to scanning leaves none of the files that it
  wrote, one that does not leaves a file at each output; files elsewhere stay as they were.
-/

namespace ScannerGen.CommandLine

/-- The paths that a run is to write files at, with the name that source and header are called by. -/
def Invocation.outputsAs (i : Invocation) (base : String) : List Path :=
  i.tokenIdPath?.toList ++ i.tables.toList ++
    [i.outDir.join ⟨s!"{base}.c"⟩, i.outDir.join ⟨s!"{base}.h"⟩]

/-- The paths that a run is to write files at.  There are none if it has no name for them. -/
def Invocation.outputs (i : Invocation) : List Path :=
  match i.baseName with
  | .error _ => []
  | .ok base => i.outputsAs base

/-! ## Files at paths -/

variable {working : Location}

/-- Since a file system files have been written, at the places of some paths only. -/
structure Touched (origin : FileSystem working) (paths : List Path) (written : List Location)
    (fs : FileSystem working) : Prop where
  elsewhere : ∀ l, l ∉ written → fs.get? l = origin.get? l
  placed : ∀ l ∈ written, ∃ p ∈ paths, origin.fileLocation p = .ok l

/-- The files at some paths have been written, and they are there. -/
structure Delivered (origin : FileSystem working) (paths : List Path) (written : List Location)
    (fs : FileSystem working) : Prop extends Touched origin paths written fs where
  located : ∀ p ∈ paths, ∃ l ∈ written, origin.fileLocation p = .ok l
  files : ∀ l ∈ written, ∃ bytes, fs.get? l = some (.file bytes)

/-- Files have been written and taken away again, but for those at paths that remain. -/
structure Withdrawn (origin : FileSystem working) (paths remaining : List Path) (written : List Location)
    (fs : FileSystem working) : Prop extends Touched origin paths written fs where
  located : ∀ p ∈ remaining, ∃ l ∈ written, origin.fileLocation p = .ok l
  left : ∀ l ∈ written, fs.get? l = none ∨
    (∃ bytes, fs.get? l = some (.file bytes)) ∧ ∃ p ∈ remaining, origin.fileLocation p = .ok l

variable {origin fs fs' : FileSystem working} {paths more remaining : List Path}
  {written others : List Location} {p : Path} {l : Location}

namespace Touched

/-- The directories stay: a file is written where there is none, and leaves none. -/
theorem sameDirectories (touched : Touched origin paths written fs)
    (noDirectory : ∀ l ∈ written, fs.get? l ≠ some .directory) : origin.SameDirectories fs := by
  intro l
  by_cases member : l ∈ written
  · obtain ⟨p, _, found⟩ := touched.placed l member
    exact iff_of_false (noDirectory l member) (FileSystem.fileLocation_eq_ok_iff.1 found).2.2
  · rw [touched.elsewhere l member]

theorem exists_locate (touched : Touched origin paths written fs) (same : origin.SameDirectories fs) :
    ∀ l ∈ written, ∃ p ∈ paths, fs.locate p = .ok l := by
  intro l member
  obtain ⟨p, listed, found⟩ := touched.placed l member
  exact ⟨p, listed, same.locate (FileSystem.fileLocation_eq_ok_iff.1 found).2.1⟩

theorem file_iff {before : FileSystem working} (touched : Touched origin paths written fs)
    (same : before.SameFiles origin) :
    ∀ l, l ∉ written → ∀ bytes, fs.get? l = some (.file bytes) ↔ before.get? l = some (.file bytes) := by
  intro l untouched bytes
  rw [touched.elsewhere l untouched]
  exact same l bytes

end Touched

namespace Delivered

theorem nothing (fs : FileSystem working) : Delivered fs [] [] fs where
  elsewhere _ _ := rfl
  placed _ absent := absurd absent List.not_mem_nil
  located _ absent := absurd absent List.not_mem_nil
  files _ absent := absurd absent List.not_mem_nil

theorem sameDirectories (delivered : Delivered origin paths written fs) : origin.SameDirectories fs := by
  refine delivered.toTouched.sameDirectories fun l member => ?_
  obtain ⟨bytes, file⟩ := delivered.files l member
  rw [file]
  nofun

/-- One more file is written. -/
theorem fill (delivered : Delivered origin paths written fs) (found : fs.fileLocation p = .ok l)
    (member : l ∈ others) (fills : Fills l fs others fs') :
    Delivered origin (paths ++ [p]) (written ++ others) fs' where
  elsewhere place untouched := by
    rw [List.mem_append, not_or] at untouched
    have differ : place ≠ l := fun same => untouched.2 (same ▸ member)
    rw [fills.elsewhere place differ, delivered.elsewhere place untouched.1]
  -- The path had this place from the beginning, since no directory has come or gone.
  placed place touched := by
    rcases List.mem_append.1 touched with before | now
    · obtain ⟨q, listed, there⟩ := delivered.placed place before
      exact ⟨q, List.mem_append_left _ listed, there⟩
    · rw [fills.only place now]
      exact ⟨p, List.mem_append_right _ List.mem_cons_self, delivered.sameDirectories.symm.fileLocation found⟩
  located q listed := by
    rcases List.mem_append.1 listed with before | last
    · obtain ⟨place, touched, there⟩ := delivered.located q before
      exact ⟨place, List.mem_append_left _ touched, there⟩
    · rw [List.mem_singleton.1 last]
      exact ⟨l, List.mem_append_right _ member, delivered.sameDirectories.symm.fileLocation found⟩
  files place touched := by
    by_cases same : place = l
    · rw [same]
      exact fills.file
    · rw [fills.elsewhere place same]
      rcases List.mem_append.1 touched with before | now
      · exact delivered.files place before
      · exact absurd (fills.only place now) same

/-- Before anything is taken away, everything remains. -/
theorem withdrawn (delivered : Delivered origin paths written fs) :
    Withdrawn origin paths paths written fs where
  toTouched := delivered.toTouched
  located := delivered.located
  left l touched := .inr ⟨delivered.files l touched, delivered.placed l touched⟩

end Delivered

namespace Withdrawn

theorem sameDirectories (withdrawn : Withdrawn origin paths remaining written fs) :
    origin.SameDirectories fs := by
  refine withdrawn.toTouched.sameDirectories fun l member => ?_
  rcases withdrawn.left l member with gone | ⟨⟨bytes, file⟩, _⟩
  · rw [gone]
    nofun
  · rw [file]
    nofun

theorem weaken (withdrawn : Withdrawn origin paths remaining written fs) (wider : paths ⊆ more) :
    Withdrawn origin more remaining written fs where
  elsewhere := withdrawn.elsewhere
  placed l touched :=
    let ⟨p, listed, found⟩ := withdrawn.placed l touched
    ⟨p, wider listed, found⟩
  located := withdrawn.located
  left := withdrawn.left

theorem nothing (fs : FileSystem working) (paths : List Path) : Withdrawn fs paths [] [] fs :=
  (Delivered.nothing fs).withdrawn.weaken (List.nil_subset paths)

/-- The order of the paths that remain, and how often each is listed, say nothing. -/
theorem relist (withdrawn : Withdrawn origin paths remaining written fs) (fewer : more ⊆ remaining)
    (all : remaining ⊆ more) : Withdrawn origin paths more written fs where
  elsewhere := withdrawn.elsewhere
  placed := withdrawn.placed
  located p listed := withdrawn.located p (fewer listed)
  left l touched := (withdrawn.left l touched).imp_right fun ⟨file, p, listed, found⟩ =>
    ⟨file, p, all listed, found⟩

/-- A path is done with when its place is empty, and the rest is as before. -/
theorem drop (withdrawn : Withdrawn origin paths (p :: remaining) written fs)
    (found : origin.fileLocation p = .ok l) (touched : l ∈ written) (gone : fs'.get? l = none)
    (rest : ∀ place, place ≠ l → fs'.get? place = fs.get? place) :
    Withdrawn origin paths remaining written fs' where
  elsewhere place untouched := by
    have differ : place ≠ l := fun same => untouched (same ▸ touched)
    rw [rest place differ, withdrawn.elsewhere place untouched]
  placed := withdrawn.placed
  located q listed := withdrawn.located q (List.mem_cons_of_mem p listed)
  left place member := by
    by_cases same : place = l
    · exact .inl (same ▸ gone)
    · rw [rest place same]
      refine (withdrawn.left place member).imp_right fun ⟨file, q, listed, there⟩ => ⟨file, q, ?_, there⟩
      rcases List.mem_cons.1 listed with rfl | later
      · exact absurd (Except.ok.inj (there.symm.trans found)) same
      · exact later

/-- What remains at a path is removed; if it was removed for another path before, nothing is left to
do. -/
theorem exists_journals_remove (withdrawn : Withdrawn origin paths (p :: remaining) written fs) :
    ∃ result fs', Journals (FileAccess.remove p) (FileAccess.remove p) fs result [] fs' ∧
      Withdrawn origin paths remaining written fs' := by
  obtain ⟨l, touched, found⟩ := withdrawn.located p List.mem_cons_self
  have found' := withdrawn.sameDirectories.fileLocation found
  refine ⟨_, _, .lift _ fs, ?_⟩
  show Withdrawn _ _ _ _ (FileSystem.attempt (fun fs => fs.remove p) fs).2
  -- If an earlier path had the same place, there is nothing to remove any more.
  rcases FileSystem.remove_of_fileLocation found' with ⟨empty, refused⟩ | ⟨bytes, file, done⟩
  · rw [FileSystem.attempt, refused]
    exact withdrawn.drop found touched empty fun _ _ => rfl
  · rw [FileSystem.attempt, done]
    have erased (place : Location) : (fs.erase l).get? place = if place = l then none else fs.get? place :=
      FileSystem.get?_erase (FileSystem.not_isFixed_of_fileLocation found') place
    refine withdrawn.drop found touched ?_ fun place differ => ?_
    · rw [erased, if_pos rfl]
    · rw [erased, if_neg differ]

theorem exists_journals_removeAll (withdrawn : Withdrawn origin paths remaining written fs) :
    ∃ fs', Journals (removeAll remaining) (removeAll remaining) fs () [] fs' ∧
      Withdrawn origin paths [] written fs' := by
  induction remaining generalizing fs with
  | nil => exact ⟨fs, .pure () fs, withdrawn⟩
  | cons p remaining ih =>
    obtain ⟨result, fs₁, removed, withdrawn₁⟩ := withdrawn.exists_journals_remove
    obtain ⟨fs₂, rest, withdrawn₂⟩ := ih withdrawn₁
    exact ⟨fs₂, removed.quiet rest, withdrawn₂⟩

end Withdrawn

/-! ## Writing outputs -/

namespace Delivered

theorem write_cases (delivered : Delivered origin paths written fs) (p : Path) (bytes : List UInt8) :
    (∃ others fs', Journals (FileAccess.write p bytes) (FileAccess.write p bytes) fs (.ok ()) others fs' ∧
      Delivered origin (paths ++ [p]) (written ++ others) fs') ∨
      ∃ e, Journals (FileAccess.write p bytes) (FileAccess.write p bytes) fs (.error e) [] fs := by
  rcases Journals.write_cases p bytes fs with ⟨l, found, run⟩ | refused
  · exact .inl ⟨[l], _, run, delivered.fill found List.mem_cons_self
      (.put (FileSystem.not_isFixed_of_fileLocation found) bytes)⟩
  · exact .inr refused

/-- A dump that is asked for is written, or nothing is. -/
theorem writeDump_cases (delivered : Delivered origin paths written fs) (generated : Generated)
    (path? : Option Path) :
    (∃ lines others fs', Journals (writeDump generated path?) (writeDump generated path?) fs
        ⟨lines, path?.toList, none⟩ others fs' ∧
      Delivered origin (paths ++ path?.toList) (written ++ others) fs') ∨
      ∃ report, Journals (writeDump generated path?) (writeDump generated path?) fs
        ⟨[], [], some report⟩ [] fs := by
  cases path? with
  | none =>
    refine .inl ⟨[], [], fs, .pure _ fs, ?_⟩
    rw [Option.toList_none, List.append_nil, List.append_nil]
    exact delivered
  | some path =>
    rcases delivered.write_cases path (utf8 generated.tables.dump) with
      ⟨others, fs', run, delivered'⟩ | ⟨e, run⟩
    · exact .inl ⟨_, others, fs', run.thenPure rfl rfl, delivered'⟩
    · exact .inr ⟨_, run.thenPure rfl rfl⟩

/-- Source and header are both written, or neither is left. -/
theorem writeArtifacts_cases (delivered : Delivered origin paths written fs) (a : Artifacts)
    (directory : Path) :
    (∃ others fs', Journals (a.write directory) (a.write directory) fs (.ok ()) others fs' ∧
      Delivered origin (paths ++ [a.sourcePath directory, a.headerPath directory]) (written ++ others)
        fs') ∨
      ∃ e others fs', Journals (a.write directory) (a.write directory) fs (.error e) others fs' ∧
        Withdrawn origin (paths ++ [a.sourcePath directory, a.headerPath directory]) paths
          (written ++ others) fs' := by
  rcases delivered.write_cases (a.sourcePath directory) (utf8 a.source) with
    ⟨others₁, fs₁, source, delivered₁⟩ | ⟨e, source⟩
  · rcases delivered₁.write_cases (a.headerPath directory) (utf8 a.header) with
      ⟨others₂, fs₂, header, delivered₂⟩ | ⟨e, header⟩
    · refine .inl ⟨others₁ ++ others₂, fs₂, source.bind (header.thenPure rfl rfl), ?_⟩
      rw [List.append_assoc, List.append_assoc] at delivered₂
      exact delivered₂
    · -- The source is taken back, and with it what may have been written at its place before.
      have kept : Withdrawn origin (paths ++ [a.sourcePath directory])
          (a.sourcePath directory :: paths) (written ++ others₁) fs₁ :=
        delivered₁.withdrawn.relist (by grind) (by grind)
      obtain ⟨result, fs₂, removed, withdrawn⟩ := kept.exists_journals_remove
      have wider : paths ++ [a.sourcePath directory] ⊆
          paths ++ [a.sourcePath directory, a.headerPath directory] := by grind
      exact .inr ⟨_, others₁, fs₂, source.thenQuiet (header.quiet (removed.thenPure rfl rfl)),
        withdrawn.weaken wider⟩
  · refine .inr ⟨_, [], fs, source.thenPure rfl rfl, ?_⟩
    rw [List.append_nil]
    exact delivered.withdrawn.weaken (List.subset_append_left _ _)

/-- All outputs are written, or those behind the first failure are not, and those before it remain
at the paths that are known. -/
theorem writeOutputs_cases {i : Invocation} (delivered : Delivered origin i.tokenIdPath?.toList written fs)
    (generated : Generated) :
    (∃ lines others fs', Journals (writeOutputs i generated) (writeOutputs i generated) fs
        ⟨lines, i.tables.toList, none⟩ others fs' ∧
      Delivered origin (i.outputsAs generated.artifacts.base) (written ++ others) fs') ∨
      ∃ lines sideFiles report others fs', Journals (writeOutputs i generated) (writeOutputs i generated) fs
          ⟨lines, sideFiles, some report⟩ others fs' ∧
        Withdrawn origin (i.outputsAs generated.artifacts.base) (i.tokenIdPath?.toList ++ sideFiles)
          (written ++ others) fs' := by
  rcases delivered.writeDump_cases generated i.tables with
    ⟨lines, others₁, fs₁, dump, delivered₁⟩ | ⟨report, dump⟩
  · rcases delivered₁.writeArtifacts_cases generated.artifacts i.outDir with
      ⟨others₂, fs₂, pair, delivered₂⟩ | ⟨e, others₂, fs₂, pair, withdrawn⟩
    · rw [List.append_assoc written] at delivered₂
      exact .inl ⟨_, others₁ ++ others₂, fs₂, dump.bind (pair.thenPure rfl rfl), delivered₂⟩
    · rw [List.append_assoc written] at withdrawn
      exact .inr ⟨_, i.tables.toList, _, others₁ ++ others₂, fs₂, dump.bind (pair.thenPure rfl rfl), withdrawn⟩
  · -- The dump was refused, so the token ids are all that is there.
    refine .inr ⟨[], [], report, [], fs, dump.thenPure rfl rfl, ?_⟩
    rw [List.append_nil, List.append_nil, Invocation.outputsAs, List.append_assoc]
    exact delivered.withdrawn.weaken (List.subset_append_left _ _)

end Delivered

/-! ## Stages of a run -/

/-- What comes of the rest of a run, behind what was written before: it fails, in the same way
whatever is to be scanned, and nothing is left; or its outputs are delivered, and it succeeds unless
there is something to be scanned. -/
inductive AllOrNone (origin : FileSystem working) (paths : List Path) (written : List Location)
    (journaled : Option Path → Journaled working Outcome)
    (plain : Option Path → StateM (FileSystem working) Outcome) (fs : FileSystem working) : Prop where
  | failed {outcome : Outcome} {others : List Location} {fs' : FileSystem working} (fails : outcome.code ≠ 0)
      (run : ∀ scan, Journals (journaled scan) (plain scan) fs outcome others fs')
      (withdrawn : Withdrawn origin paths [] (written ++ others) fs')
  | finished {outcome : Option Path → Outcome} {others : List Location} {fs' : FileSystem working}
      (succeeds : (outcome none).code = 0)
      (run : ∀ scan, Journals (journaled scan) (plain scan) fs (outcome scan) others fs')
      (delivered : Delivered origin paths (written ++ others) fs')

/-- A stage before the others, which does not look at what is to be scanned. -/
theorem AllOrNone.step {α : Type} {a : α} {first : Journaled working α}
    {first' : StateM (FileSystem working) α} {f : Option Path → α → Journaled working Outcome}
    {g : Option Path → α → StateM (FileSystem working) Outcome}
    (run : Journals first first' fs a others fs')
    (rest : AllOrNone origin paths (written ++ others) (f · a) (g · a) fs') :
    AllOrNone origin paths written (fun scan => first >>= f scan) (fun scan => first' >>= g scan) fs := by
  cases rest with
  | failed fails runs withdrawn =>
    rw [List.append_assoc] at withdrawn
    exact .failed fails (fun scan => run.bind (runs scan)) withdrawn
  | finished succeeds runs delivered =>
    rw [List.append_assoc] at delivered
    exact .finished succeeds (fun scan => run.bind (runs scan)) delivered

/-- A stage that fails when nothing is left. -/
theorem AllOrNone.stop (withdrawn : Withdrawn origin paths [] written fs) (out err : List String)
    (report : Report) :
    AllOrNone origin paths written (fun _ => pure (.failure out err report))
      (fun _ => pure (.failure out err report)) fs := by
  refine .failed Nat.one_ne_zero (fun _ => .pure _ fs) ?_
  rw [List.append_nil]
  exact withdrawn

/-- Showing tokens writes nothing, and there is nothing to show if no file is to be scanned. -/
theorem exists_journals_showTokens (generated : Generated) (scan : Option Path) (fs : FileSystem working) :
    ∃ result, Journals (showTokens generated scan) (showTokens generated scan) fs result [] fs ∧
      (scan = none → result = .ok []) := by
  cases scan with
  | none => exact ⟨_, .pure _ fs, fun _ => rfl⟩
  | some path =>
    have asked := Journals.read path fs
    generalize fs.read path = found at asked
    cases found with
    | error e => exact ⟨_, asked.thenPure rfl rfl, nofun⟩
    | ok input => exact ⟨_, asked.thenPure rfl rfl, nofun⟩

/-- What a run ends with when everything is written, by what came of showing tokens. -/
def endOutcome (shown warnings : List String) : Except Report (List String) → Outcome
  | .error report => .failure shown warnings report
  | .ok lines => .success (shown ++ lines) warnings

/-- Behind generation, with the token ids written. -/
theorem allOrNone_deliver (i : Invocation) (shown : List String) (generated : Generated)
    (delivered : Delivered origin i.tokenIdPath?.toList written fs) :
    AllOrNone origin (i.outputsAs generated.artifacts.base) written
      (fun scan => deliver { i with scan } shown generated)
      (fun scan => deliver { i with scan } shown generated) fs := by
  rcases delivered.writeOutputs_cases generated with
    ⟨lines, others, fs₁, outputs, delivered₁⟩ | ⟨lines, sideFiles, report, others, fs₁, outputs, withdrawn⟩
  · choose result shows empty using fun scan => exists_journals_showTokens generated scan fs₁
    let outcome (scan : Option Path) : Outcome :=
      endOutcome (shown ++ lines) (warningLines generated.warnings) (result scan)
    have succeeds : (outcome none).code = 0 := by
      simp only [outcome, empty none rfl]
      rfl
    refine .step outputs (.finished succeeds (fun scan => (shows scan).thenPure ?_ ?_) ?_)
    · simp only [outcome]
      cases result scan <;> rfl
    · simp only [outcome]
      cases result scan <;> rfl
    · rw [List.append_nil]
      exact delivered₁
  · obtain ⟨fs₂, removed, withdrawn₂⟩ := withdrawn.exists_journals_removeAll
    refine .step outputs (.step removed ?_)
    rw [List.append_nil]
    exact .stop withdrawn₂ _ _ report

/-- A generation writes the token ids, if they are asked for, or it fails and writes nothing. -/
theorem generateWithIds_cases (i : Invocation) (rules : RuleSet) (base : String) (fs : FileSystem working) :
    (∃ generated written fs', generated.artifacts.base = base ∧
      Journals (generateWithIds i rules base) (generateWithIds i rules base) fs (.ok generated) written fs' ∧
      Delivered fs i.tokenIdPath?.toList written fs') ∨
      ∃ e, Journals (generateWithIds i rules base) (generateWithIds i rules base) fs (.error e) [] fs := by
  simp only [generateWithIds, generate]
  cases prepared : prepare rules base with
  | error e => exact .inr ⟨e, .dropState (.pure _ fs)⟩
  | ok generated =>
    have named : generated.artifacts.base = base := by
      rw [(prepare_eq_ok_iff.1 prepared).2.2.2]
      rfl
    cases i.tokenIdPath? with
    | none =>
      refine .inl ⟨generated, [], fs, named, ?_, .nothing fs⟩
      simp only [Option.toList_none, List.map_nil, runHooks_nil, pure_bind]
      exact .dropState (.pure _ fs)
    | some path =>
      rcases TokenIdFile.journals_runHooks_cases path generated.tokens fs with
        ⟨l, written, fs', found, member, fills, run⟩ | ⟨e, run⟩
      · refine .inl ⟨generated, written ++ [], fs', named, .dropState (run.bindRun (.pure _ fs')), ?_⟩
        rw [List.append_nil]
        exact (Delivered.nothing fs).fill found member fills
      · exact .inr ⟨.hook e, .dropState (run.bindRun (.pure _ fs))⟩

theorem exists_allOrNone_runRules (i : Invocation) (base : String) (rules : RuleSet) (fs : FileSystem working) :
    ∃ origin, fs.SameFiles origin ∧
      AllOrNone origin (i.outputsAs base) [] (fun scan => runRules { i with scan } base rules)
        (fun scan => runRules { i with scan } base rules) fs := by
  obtain ⟨made, origin, directories, same⟩ := exists_journals_makeDirectories i.outDir fs
  simp only [runRules]
  refine ⟨origin, same, .step directories ?_⟩
  cases made with
  -- Directories may have been made on the way, which the file system behind them accounts for.
  | error e => exact .stop (.nothing origin _) _ _ _
  | ok =>
    rcases generateWithIds_cases i rules base origin with
      ⟨generated, written, fs₁, rfl, run, delivered⟩ | ⟨e, run⟩
    · exact .step run (allOrNone_deliver i _ generated delivered)
    · exact .step run (.stop (.nothing origin _) _ _ _)

theorem exists_journals_load (path : Path) (fs : FileSystem working) :
    ∃ loaded, Journals (RuleSet.load path) (RuleSet.load path) fs loaded [] fs := by
  have asked := Journals.read path fs
  generalize fs.read path = found at asked
  cases found with
  | error e => exact ⟨_, asked.thenPure rfl rfl⟩
  | ok bytes => exact ⟨_, asked.thenPure rfl rfl⟩

theorem exists_allOrNone_runInvocation (i : Invocation) (fs : FileSystem working) :
    ∃ origin, fs.SameFiles origin ∧
      AllOrNone origin i.outputs [] (fun scan => runInvocation { i with scan })
        (fun scan => runInvocation { i with scan }) fs := by
  have named (scan : Option Path) : ({ i with scan } : Invocation).baseName = i.baseName := rfl
  simp only [runInvocation, named, Invocation.outputs]
  cases i.baseName with
  | error report => exact ⟨fs, .refl fs, .stop (.nothing fs []) _ _ report⟩
  | ok base =>
    obtain ⟨loaded, read⟩ := exists_journals_load i.rules fs
    cases loaded with
    | error e =>
      exact ⟨fs, .refl fs, .step read (.stop (.nothing fs _) _ _ _)⟩
    | ok rules =>
      obtain ⟨origin, same, rest⟩ := exists_allOrNone_runRules i base rules fs
      exact ⟨origin, same, .step read rest⟩

/-- A run of the generator leaves all of its outputs or none.  If it fails before it comes to scanning,
so that it fails as it does without anything to be scanned, no place that it has written at holds a file
any more; otherwise there is a file at each output that it has written.  It writes at the places of its
outputs only, and the files at all other places stay as they were. -/
theorem outputs_allOrNone (i : Invocation) (fs : FileSystem working) :
    ∃ outcome written fs', Journals (runInvocation i) (runInvocation i) fs outcome written fs' ∧
      (∀ l ∈ written, ∃ p ∈ i.outputs, fs'.locate p = .ok l) ∧
      (∀ l, l ∉ written → ∀ bytes, fs'.get? l = some (.file bytes) ↔ fs.get? l = some (.file bytes)) ∧
      let unscanned := ((runInvocation { i with scan := none } : StateM (FileSystem working) _).run fs).1
      if unscanned.code = 0 then
        ∀ p ∈ i.outputs, ∃ l ∈ written, fs'.locate p = .ok l ∧ ∃ bytes, fs'.get? l = some (.file bytes)
      else outcome = unscanned ∧ ∀ l ∈ written, fs'.get? l = none := by
  obtain ⟨origin, same, stages⟩ := exists_allOrNone_runInvocation i fs
  cases stages with
  | @failed outcome written fs' fails run withdrawn =>
    -- The run fails as it does with nothing to be scanned.
    have unscanned := congrArg Prod.fst (run none).plain
    refine ⟨outcome, written, fs', run i.scan, withdrawn.exists_locate withdrawn.sameDirectories,
      withdrawn.file_iff same, ?_⟩
    simp only [unscanned, if_neg fails, true_and]
    intro l member
    rcases withdrawn.left l member with gone | ⟨_, p, absent, _⟩
    · exact gone
    · exact absurd absent List.not_mem_nil
  | @finished outcome written fs' succeeds run delivered =>
    have unscanned := congrArg Prod.fst (run none).plain
    refine ⟨outcome i.scan, written, fs', run i.scan, delivered.exists_locate delivered.sameDirectories,
      delivered.file_iff same, ?_⟩
    simp only [unscanned, if_pos succeeds]
    intro p listed
    obtain ⟨l, member, found⟩ := delivered.located p listed
    have located := (FileSystem.fileLocation_eq_ok_iff.1 found).2.1
    exact ⟨l, member, delivered.sameDirectories.locate located, delivered.files l member⟩

/-- The dump goes where the source is to go, by an absolute path, and a directory stands in the way of the
header: nothing is left but what was there before. -/
example :
    let fs : FileSystem ["home"] :=
      ⟨[(["home", "a"], .file (utf8 "token %q\x7ba\x7d keyword\n")), (["home", "a.h"], .directory)]⟩
    let i : Invocation := ⟨⟨"a"⟩, ⟨"."⟩, none, some "t", some ⟨"/home/a.c"⟩, none⟩
    let run := (runInvocation i : StateM (FileSystem ["home"]) _).run fs
    run.1.code = 1 ∧ run.1.out = "[ruilex] generating a from a\n[ruilex] wrote /home/a.c\n" ∧ run.2 = fs := by
  decide +kernel

end ScannerGen.CommandLine
