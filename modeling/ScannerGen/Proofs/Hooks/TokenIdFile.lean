import ScannerGen.Hooks.TokenIdFile
import ScannerGen.Proofs.Files.Journal

/-!
# Writing token id files

The hook for token ids writes its file in pieces, through a buffer, once the file has been made.  After
that no write can fail, so the file is there in the end; if it cannot be made, nothing is written.

* `runHooks_singleton` — a single hook is opened, informed and closed.
* `TokenIdFile.run_writeLines`, `TokenIdFile.run_opening`, `TokenIdFile.run_closing` — the calls of the
  hook, by the writer that it holds.
* `TokenIdFile.journals_runHooks_cases` — what the hook leaves in a file system.
-/

namespace ScannerGen

/-! ## A single hook -/

section Single

variable {m : Type → Type} [Monad m] [LawfulMonad m]

theorem runHooks_nil (tokens : TokenTable) : runHooks ([] : List (Hook m)) tokens = pure (.ok ()) := by
  simp [runHooks, serve, closeAll]

/-- A single hook is opened, informed and closed; it is not closed if it was not opened. -/
theorem runHooks_singleton (hook : Hook m) (tokens : TokenTable) :
    runHooks [hook] tokens = (do
      match ← hook.answer .opening with
      | .error e => pure (.error ⟨hook.name, e⟩)
      | .ok () =>
        let told ← hook.answerAll (informing tokens)
        let closed ← hook.answer .closing
        pure ((told.bind fun _ => closed).mapError (HookError.mk hook.name))) := by
  simp only [runHooks, serve, bind_assoc]
  congr 1
  funext opened
  cases opened with
  -- A hook that was not opened is not among those to be closed.
  | error e => simp [closeAll]
  | ok =>
    simp only [bind_assoc]
    congr 1
    funext told
    cases told <;> simp only [List.nil_append, closeAll, pure_bind, bind_assoc] <;> congr 1 <;>
      funext closed <;> cases closed <;> exact pure_bind _ _

end Single

/-! ## Calls of a token id file -/

namespace TokenIdFile

section Runs

variable {m : Type → Type} [Monad m] [LawfulMonad m] [FileAccess m]

theorem run_writeLines (p : Path) (lines : List (List String)) (w : Writer) :
    (writeLines p lines : StateT _ m _).run (some w) = (do
      match ← writePieces p w lines.flatten with
      | .ok w' => pure (.ok (), some w')
      | .error e => pure (.error (.os e), some w)) := by
  simp only [writeLines, StateT.run_bind, StateT.run_get, pure_bind, StateT.run_lift, bind_assoc]
  congr 1
  funext result
  cases result with
  | ok w' => simp
  | error e => simp

theorem run_opening (p : Path) (before : Option Writer) :
    (answer p .opening : StateT _ m _).run before = (do
      match ← FileAccess.write p [] with
      | .error e => pure (.error (.os e), before)
      | .ok () => do
        giveUp p before
        pure (.ok (), some .atStart)) := by
  simp only [answer, StateT.run_bind, pure_bind, StateT.run_lift, bind_assoc]
  congr 1
  funext result
  cases result with
  | ok => simp
  | error e => simp

theorem run_closing (p : Path) (w : Writer) :
    (answer p .closing : StateT _ m _).run (some w) = (do
      match ← flush p w with
      | .ok _ => pure (.ok (), none)
      | .error e => pure (.error (.os e), none)) := by
  simp only [answer, StateT.run_bind, StateT.run_get, pure_bind, StateT.run_lift, StateT.run_set, bind_assoc]
  congr 1
  funext result
  cases result with
  | ok => simp
  | error e => simp

end Runs

end TokenIdFile

/-! ## Writing -/

namespace TokenIdFile

variable {working : Location} {p : Path} {l : Location} {fs : FileSystem working}

theorem exists_journals_flush (found : fs.fileLocation p = .ok l)
    (file : ∃ bytes, fs.get? l = some (.file bytes)) (w : Writer) :
    ∃ w' written fs', Journals (flush p w) (flush p w) fs (.ok w') written fs' ∧
      Fills l fs written fs' := by
  obtain ⟨old, held⟩ := file
  simp only [flush]
  split
  · exact ⟨w, [], fs, .pure _ fs, .refl ⟨old, held⟩⟩
  · exact ⟨_, _, _, (Journals.patch found held _ _).thenPure rfl rfl,
      .put (FileSystem.not_isFixed_of_fileLocation found) _⟩

theorem exists_journals_writePiece (found : fs.fileLocation p = .ok l)
    (file : ∃ bytes, fs.get? l = some (.file bytes)) (w : Writer) (piece : List UInt8) :
    ∃ w' written fs', Journals (writePiece p w piece) (writePiece p w piece) fs (.ok w') written fs' ∧
      Fills l fs written fs' := by
  simp only [writePiece]
  -- Whether the buffer is flushed first or not, the piece is put behind what was written.
  by_cases small : piece.length < Writer.capacity
  · simp only [if_pos small]
    split
    · obtain ⟨w₁, written, fs₁, flushed, fills⟩ := exists_journals_flush found file w
      exact ⟨_, written, fs₁, flushed.thenPure rfl rfl, fills⟩
    · exact ⟨_, [], fs, (Journals.pure _ fs).thenPure rfl rfl, .refl file⟩
  · simp only [if_neg small]
    split
    · obtain ⟨w₁, written, fs₁, flushed, fills⟩ := exists_journals_flush found file w
      obtain ⟨old, held⟩ := fills.file
      have found₁ := fills.fileLocation found
      exact ⟨_, _, _, flushed.bind ((Journals.patch found₁ held _ _).thenPure rfl rfl),
        fills.trans (.put (FileSystem.not_isFixed_of_fileLocation found₁) _)⟩
    · obtain ⟨old, held⟩ := file
      exact ⟨_, _, _, (Journals.pure _ fs).quiet ((Journals.patch found held _ _).thenPure rfl rfl),
        .put (FileSystem.not_isFixed_of_fileLocation found) _⟩

theorem exists_journals_writePieces (found : fs.fileLocation p = .ok l)
    (file : ∃ bytes, fs.get? l = some (.file bytes)) (w : Writer) (pieces : List String) :
    ∃ w' written fs', Journals (writePieces p w pieces) (writePieces p w pieces) fs (.ok w') written fs' ∧
      Fills l fs written fs' := by
  induction pieces generalizing fs w with
  | nil => exact ⟨w, [], fs, .pure _ fs, .refl file⟩
  | cons piece pieces ih =>
    obtain ⟨w₁, written, fs₁, first, fills⟩ := exists_journals_writePiece found file w (utf8 piece)
    obtain ⟨w₂, others, fs₂, rest, fillsRest⟩ := ih (fills.fileLocation found) fills.file w₁
    exact ⟨w₂, written ++ others, fs₂, first.bind rest, fills.trans fillsRest⟩

theorem exists_journals_writeLines (found : fs.fileLocation p = .ok l)
    (file : ∃ bytes, fs.get? l = some (.file bytes)) (w : Writer) (lines : List (List String)) :
    ∃ w' written fs', Journals ((writeLines p lines).run (some w)) ((writeLines p lines).run (some w)) fs
        (.ok (), some w') written fs' ∧
      Fills l fs written fs' := by
  obtain ⟨w', written, fs', run, fills⟩ := exists_journals_writePieces found file w lines.flatten
  rw [run_writeLines, run_writeLines]
  exact ⟨w', written, fs', run.thenPure rfl rfl, fills⟩

theorem exists_journals_answerAll (found : fs.fileLocation p = .ok l)
    (file : ∃ bytes, fs.get? l = some (.file bytes)) (w : Writer) (tokens : TokenTable) :
    ∃ w' written fs', Journals (((hook p).answerAll (informing tokens)).run (some w))
        (((hook p).answerAll (informing tokens)).run (some w)) fs (.ok (), some w') written fs' ∧
      Fills l fs written fs' := by
  obtain ⟨w₁, written, fs₁, told, fills⟩ :=
    exists_journals_writeLines found file w (tokens.tokens.map tokenLine)
  obtain ⟨w₂, others, fs₂, toldIds, fillsIds⟩ :=
    exists_journals_writeLines (fills.fileLocation found) fills.file w₁
      (tokens.categoryIds.map categoryLine)
  exact ⟨w₂, _, fs₂, told.bindRun (toldIds.bindRun (.pure _ fs₂)),
    fills.trans (fillsIds.trans (.refl fillsIds.file))⟩

/-- A token id file is written at its path, or its hook fails and nothing is written. -/
theorem journals_runHooks_cases (p : Path) (tokens : TokenTable) (fs : FileSystem working) :
    (∃ l written fs', fs.fileLocation p = .ok l ∧ l ∈ written ∧ Fills l fs written fs' ∧
      Journals ((runHooks [hook p] tokens).run none) ((runHooks [hook p] tokens).run none) fs
        (.ok (), none) written fs') ∨
      ∃ e, Journals ((runHooks [hook p] tokens).run none) ((runHooks [hook p] tokens).run none) fs
        (.error e, none) [] fs := by
  rw [runHooks_singleton, runHooks_singleton]
  rcases Journals.write_cases p [] fs with ⟨l, found, emptied⟩ | ⟨e, refused⟩
  · have opened : Journals ((answer p .opening).run none) ((answer p .opening).run none) fs
        (.ok (), some .atStart) [l] (fs.put l (.file [])) := by
      rw [run_opening, run_opening]
      exact emptied.thenPure rfl rfl
    have fills : Fills l fs [l] (fs.put l (.file [])) :=
      .put (FileSystem.not_isFixed_of_fileLocation found) []
    obtain ⟨w₁, written, fs₁, told, fillsTold⟩ :=
      exists_journals_answerAll (fills.fileLocation found) fills.file .atStart tokens
    -- What is left in the buffer is written when the hook is closed.
    have fills₁ := fills.trans fillsTold
    obtain ⟨w₂, others, fs₂, flushed, fillsFlushed⟩ :=
      exists_journals_flush (fills₁.fileLocation found) fills₁.file w₁
    have closed : Journals ((answer p .closing).run (some w₁)) ((answer p .closing).run (some w₁)) fs₁
        (.ok (), none) others fs₂ := by
      rw [run_closing, run_closing]
      exact flushed.thenPure rfl rfl
    refine .inl ⟨l, [l] ++ (written ++ (others ++ [])), fs₂, found, List.mem_append_left _ List.mem_cons_self, ?_,
      opened.bindRun (told.bindRun (closed.bindRun (.pure _ fs₂)))⟩
    rw [List.append_nil, ← List.append_assoc]
    exact fills₁.trans fillsFlushed
  · have failed : Journals ((answer p .opening).run none) ((answer p .opening).run none) fs
        (.error (.os e), none) [] fs := by
      rw [run_opening, run_opening]
      exact refused.thenPure rfl rfl
    exact .inr ⟨_, failed.bindRun (.pure _ fs)⟩

end TokenIdFile

end ScannerGen
