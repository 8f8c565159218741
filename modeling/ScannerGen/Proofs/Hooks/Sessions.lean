import Mathlib.Data.List.Induction
import ScannerGen.Proofs.Hooks.TokenIdFile

/-!
# Sessions of a token id file

A token id file can be opened, told tokens and ids, and closed in any order and any number of times
before it is given up.  A session begins each time it is opened.

Opening makes the file empty.  If the session before was not closed, what waits in its buffer is put into
the file after that, at the place where it would have stood, so the bytes that were written then come
back, and stay as far as the new session does not write over them.

* `Session`, `session` — what calls leave, said without a buffer or a file.
* `Follows` — how a writer and a file system stand for that; `exists_follows_answer` says that every call
  keeps it, and `exists_follows_mapM` that all calls do.
* `holds_session_iff` — when calls fail, and when the file holds what was written in the last session.
-/

namespace ScannerGen

/-- A call that tells something about the tokens. -/
def HookCall.Informs (call : HookCall) : Prop := call ≠ .opening ∧ call ≠ .closing

namespace TokenIdFile

open FileSystem (run_bind_of_run)

/-! ## Calls and sessions -/

/-- The lines that a call writes if the file is open. -/
def callLines : HookCall → List (List String)
  | .tokens tokens => tokens.tokens.map tokenLine
  | .tokenIds ids => ids.map categoryLine
  | .opening | .closing => []

/-- The bytes that a call writes if the file is open. -/
def callBytes (call : HookCall) : List UInt8 := (callLines call).flatten.flatMap utf8

/-- What has come of a file since it was last opened. -/
structure Session where
  /-- Whether it has not been closed since. -/
  isOpen : Bool
  /-- What has been written since. -/
  text : List UInt8
  /-- What was written in the session before, if that one was not closed. -/
  unclosed : List UInt8
  deriving DecidableEq, Repr

/-- A new session after another one, if there was any. -/
def Session.begun : Option Session → Session
  | some ⟨true, text, _⟩ => ⟨true, [], text⟩
  | _ => ⟨true, [], []⟩

/-- A session after one more call. -/
def Session.after (before : Option Session) (call : HookCall) : Option Session :=
  match call with
  | .opening => some (.begun before)
  | .closing => before.map fun s => { s with isOpen := false }
  | _ => before.map fun s => if s.isOpen then { s with text := s.text ++ callBytes call } else s

/-- The last session that calls begin; there is none if the file is never opened. -/
def session (calls : List HookCall) : Option Session := calls.foldl Session.after none

/-- The file has been opened, and it has not been closed since. -/
def IsOpenAfter (calls : List HookCall) : Prop :=
  ∃ before after, calls = before ++ .opening :: after ∧ .closing ∉ after

/-- Makes calls, whatever comes of them, and then gives up the file. -/
def lifetime {m : Type → Type} [Monad m] [FileAccess m] (p : Path) (calls : List HookCall) :
    m (List (Except IoError Unit)) := do
  let (results, writer) ← (calls.mapM (answer p)).run none
  giveUp p writer
  pure results

theorem session_append_singleton (calls : List HookCall) (call : HookCall) :
    session (calls ++ [call]) = Session.after (session calls) call := by
  rw [session, List.foldl_append]
  rfl

theorem after_of_informs {call : HookCall} (informs : call.Informs) (before : Option Session) :
    Session.after before call =
      before.map fun s => if s.isOpen then { s with text := s.text ++ callBytes call } else s := by
  cases call with
  | opening => exact absurd rfl informs.1
  | closing => exact absurd rfl informs.2
  | tokens tokens => rfl
  | tokenIds ids => rfl

theorem session_eq_none_iff {calls : List HookCall} : session calls = none ↔ .opening ∉ calls := by
  induction calls using List.reverseRecOn with
  | nil => simp [session]
  | append_singleton calls call ih =>
    rw [session_append_singleton]
    cases call <;> simp [Session.after, ih]

theorem isOpenAfter_append_singleton {calls : List HookCall} {call : HookCall} :
    IsOpenAfter (calls ++ [call]) ↔ call = .opening ∨ call ≠ .closing ∧ IsOpenAfter calls := by
  constructor
  · rintro ⟨before, after, same, unclosed⟩
    cases after using List.reverseRecOn with
    | nil =>
      obtain ⟨_, last⟩ := List.append_inj' same rfl
      exact .inl (List.cons.inj last).1
    | append_singleton after last =>
      rw [← List.cons_append, ← List.append_assoc] at same
      obtain ⟨rfl, last'⟩ := List.append_inj' same rfl
      obtain rfl := (List.cons.inj last').1
      simp only [List.mem_append, List.mem_singleton, not_or] at unclosed
      exact .inr ⟨Ne.symm unclosed.2, before, after, rfl, unclosed.1⟩
  · rintro (rfl | ⟨notClosing, before, after, rfl, unclosed⟩)
    · exact ⟨calls, [], rfl, List.not_mem_nil⟩
    · refine ⟨before, after ++ [call], by simp, ?_⟩
      simp [unclosed, Ne.symm notClosing]

@[simp] theorem Session.isOpen_begun (before : Option Session) : (Session.begun before).isOpen = true := by
  cases before with
  | none => rfl
  | some s => obtain ⟨isOpen, text, unclosed⟩ := s; cases isOpen <;> rfl

/-- The last session tells whether the file is open. -/
theorem isOpenAfter_iff {calls : List HookCall} :
    IsOpenAfter calls ↔ ∃ s, session calls = some s ∧ s.isOpen := by
  induction calls using List.reverseRecOn with
  | nil => simp [IsOpenAfter, session]
  | append_singleton calls call ih =>
    rw [session_append_singleton, isOpenAfter_append_singleton, ih]
    by_cases informs : call.Informs
    · -- Telling something opens nothing and closes nothing.
      rw [after_of_informs informs]
      cases session calls with
      | none => simp [informs.1]
      | some s => cases isOpen : s.isOpen <;> simp [informs.1, informs.2, isOpen]
    · cases call with
      | opening => simp [Session.after]
      | closing => simp [Session.after]
      | tokens tokens => exact absurd ⟨nofun, nofun⟩ informs
      | tokenIds ids => exact absurd ⟨nofun, nofun⟩ informs

/-! ## Files written through a buffer -/

/-- Bytes that are put over the beginning of others. -/
def covered (text under : List UInt8) : List UInt8 := text ++ under.drop text.length

variable {working : Location}

/-- The file at a place holds some bytes, and everything else is as it was. -/
structure Holds (origin : FileSystem working) (l : Location) (bytes : List UInt8)
    (fs : FileSystem working) : Prop where
  file : fs.get? l = some (.file bytes)
  elsewhere : ∀ place, place ≠ l → fs.get? place = origin.get? place

variable {p : Path} {l : Location} {origin fs : FileSystem working} {old under flushed pending : List UInt8}

theorem covered_eq_left_iff {text under : List UInt8} :
    covered text under = text ↔ under.length ≤ text.length := by
  rw [covered, List.append_right_eq_self, List.drop_eq_nil_iff]

/-- Bytes that follow those that were put over a file are put over it as well. -/
theorem overwritten_covered (flushed under bytes : List UInt8) :
    FileSystem.overwritten (covered flushed under) flushed.length bytes = covered (flushed ++ bytes) under := by
  simp [FileSystem.overwritten, covered, List.drop_append, Nat.sub_eq_zero_of_le]

theorem length_overwritten_nil (offset : Nat) (bytes : List UInt8) :
    (FileSystem.overwritten [] offset bytes).length = offset + bytes.length := by
  simp [FileSystem.overwritten]

namespace Holds

theorem fileLocation (holds : Holds origin l old fs) (found : origin.fileLocation p = .ok l) :
    fs.fileLocation p = .ok l := by
  have same : origin.SameDirectories fs := by
    intro place
    by_cases here : place = l
    · rw [here, holds.file]
      exact iff_of_false nofun (FileSystem.fileLocation_eq_ok_iff.1 found).2.2
    · rw [holds.elsewhere place here]
  exact same.fileLocation found

theorem put (holds : Holds origin l old fs) (free : FileSystem.isFixed working l = false) (bytes : List UInt8) :
    Holds origin l bytes (fs.put l (.file bytes)) where
  file := by rw [FileSystem.get?_put free, if_pos rfl]
  elsewhere place differ := by
    rw [FileSystem.get?_put free, if_neg differ]
    exact holds.elsewhere place differ

end Holds

/-! ## Runs -/

section Runs

variable {α β : Type} {fs' : FileSystem working}

theorem run_run_bind {σ : Type} {x : StateT σ (StateM (FileSystem working)) α} {a : α} {s s' : σ}
    (ran : (x.run s).run fs = ((a, s'), fs')) (f : α → StateT σ (StateM (FileSystem working)) β) :
    ((x >>= f).run s).run fs = ((f a).run s').run fs' := by
  rw [StateT.run_bind, run_bind_of_run ran]

theorem exists_run_patch (found : origin.fileLocation p = .ok l) (holds : Holds origin l old fs)
    (offset : Nat) (bytes : List UInt8) :
    ∃ fs', (FileAccess.patch p offset bytes : StateM (FileSystem working) _).run fs = (.ok (), fs') ∧
      Holds origin l (FileSystem.overwritten old offset bytes) fs' := by
  have found' := holds.fileLocation found
  have located := (FileSystem.fileLocation_eq_ok_iff.1 found').2.1
  refine ⟨_, ?_, holds.put (FileSystem.not_isFixed_of_fileLocation found') _⟩
  show (Except.ok (), fs.patch p offset bytes) = _
  rw [FileSystem.patch, located]
  simp only [holds.file]

/-- The waiting bytes are put behind those that have reached the file. -/
theorem exists_run_flush (found : origin.fileLocation p = .ok l)
    (holds : Holds origin l (covered flushed under) fs) (pending : List UInt8) :
    ∃ fs', (flush p ⟨flushed.length, pending⟩ : StateM (FileSystem working) _).run fs =
        (.ok ⟨(flushed ++ pending).length, []⟩, fs') ∧
      Holds origin l (covered (flushed ++ pending) under) fs' := by
  simp only [flush]
  by_cases empty : pending = []
  · subst empty
    rw [if_pos rfl, List.append_nil]
    exact ⟨fs, rfl, holds⟩
  · rw [if_neg empty]
    obtain ⟨fs', patched, holds'⟩ := exists_run_patch found holds flushed.length pending
    rw [overwritten_covered] at holds'
    refine ⟨fs', ?_, holds'⟩
    rw [run_bind_of_run patched, List.length_append]
    rfl

/-- Where there is room for a piece it waits with what is in the buffer; a piece that no buffer can hold
finds the buffer empty and goes straight into the file. -/
theorem exists_run_place (found : origin.fileLocation p = .ok l)
    (holds : Holds origin l (covered flushed under) fs) (pending piece : List UInt8)
    (room : Writer.capacity ≤ piece.length → pending = []) :
    ∃ flushed' pending' fs',
      (if piece.length < Writer.capacity then pure (.ok ⟨flushed.length, pending ++ piece⟩)
        else do
          match ← FileAccess.patch p flushed.length piece with
          | .ok () => pure (.ok ⟨flushed.length + piece.length, pending⟩)
          | .error e => pure (.error e) : StateM (FileSystem working) (Except OsError Writer)).run fs =
        (.ok ⟨flushed'.length, pending'⟩, fs') ∧
      flushed' ++ pending' = flushed ++ pending ++ piece ∧ Holds origin l (covered flushed' under) fs' ∧
      (piece ≠ [] → piece.length < Writer.capacity → pending' ≠ []) := by
  by_cases small : piece.length < Writer.capacity
  · rw [if_pos small]
    refine ⟨flushed, pending ++ piece, fs, rfl, by rw [List.append_assoc], holds, fun nonempty _ => ?_⟩
    simp [nonempty]
  · rw [if_neg small]
    obtain rfl := room (Nat.le_of_not_lt small)
    obtain ⟨fs', patched, holds'⟩ := exists_run_patch found holds flushed.length piece
    rw [overwritten_covered] at holds'
    refine ⟨flushed ++ piece, [], fs', ?_, by simp, holds', fun _ less => absurd less small⟩
    rw [run_bind_of_run patched, List.length_append]
    rfl

/-- A piece of text comes behind the text before it, part of which has reached the file. -/
theorem exists_run_writePiece (found : origin.fileLocation p = .ok l)
    (holds : Holds origin l (covered flushed under) fs) (pending piece : List UInt8) :
    ∃ flushed' pending' fs',
      (writePiece p ⟨flushed.length, pending⟩ piece : StateM (FileSystem working) _).run fs =
        (.ok ⟨flushed'.length, pending'⟩, fs') ∧
      flushed' ++ pending' = flushed ++ pending ++ piece ∧ Holds origin l (covered flushed' under) fs' ∧
      (piece ≠ [] → piece.length < Writer.capacity → pending' ≠ []) := by
  simp only [writePiece]
  by_cases full : Writer.capacity < pending.length + piece.length
  · -- The buffer is emptied first.
    obtain ⟨fs₁, emptied, holds₁⟩ := exists_run_flush found holds pending
    rw [if_pos full, run_bind_of_run emptied]
    have placed := exists_run_place found holds₁ [] piece fun _ => rfl
    rw [List.append_nil] at placed
    exact placed
  · rw [if_neg full, pure_bind]
    have room : Writer.capacity ≤ piece.length → pending = [] := by
      intro large
      apply List.eq_nil_of_length_eq_zero
      omega
    exact exists_run_place found holds pending piece room

theorem exists_run_writePieces (found : origin.fileLocation p = .ok l)
    (holds : Holds origin l (covered flushed under) fs) (pending : List UInt8) (pieces : List String) :
    ∃ flushed' pending' fs',
      (writePieces p ⟨flushed.length, pending⟩ pieces : StateM (FileSystem working) _).run fs =
        (.ok ⟨flushed'.length, pending'⟩, fs') ∧
      flushed' ++ pending' = flushed ++ pending ++ pieces.flatMap utf8 ∧
      Holds origin l (covered flushed' under) fs' ∧
      (pieces = [] → flushed' = flushed ∧ pending' = pending) ∧
      ∀ last ∈ pieces.getLast?, utf8 last ≠ [] → (utf8 last).length < Writer.capacity → pending' ≠ [] := by
  induction pieces generalizing flushed pending fs with
  | nil => exact ⟨flushed, pending, fs, rfl, by simp, holds, fun _ => ⟨rfl, rfl⟩, by simp⟩
  | cons piece pieces ih =>
    obtain ⟨flushed₁, pending₁, fs₁, first, same₁, holds₁, waits₁⟩ :=
      exists_run_writePiece found holds pending (utf8 piece)
    obtain ⟨flushed₂, pending₂, fs₂, rest, same₂, holds₂, none₂, waits₂⟩ := ih holds₁ pending₁
    refine ⟨flushed₂, pending₂, fs₂, ?_, ?_, holds₂, nofun, ?_⟩
    · rw [writePieces, run_bind_of_run first]
      exact rest
    · rw [same₂, same₁, List.flatMap_cons, List.append_assoc (flushed ++ pending)]
    · intro last isLast nonempty small
      cases pieces with
      | nil =>
        obtain rfl : piece = last := by simpa using isLast
        rw [(none₂ rfl).2]
        exact waits₁ nonempty small
      | cons next pieces =>
        rw [List.getLast?_cons_cons] at isLast
        exact waits₂ last isLast nonempty small

/-! ## Lines -/

/-- The last piece of a line is short, so it waits in the buffer. -/
theorem exists_last_of_mem_callLines {call : HookCall} {line : List String} (member : line ∈ callLines call) :
    ∃ last ∈ line.getLast?, utf8 last ≠ [] ∧ (utf8 last).length < Writer.capacity := by
  cases call with
  | opening => cases member
  | closing => cases member
  | tokens tokens =>
    obtain ⟨t, _, rfl⟩ := List.mem_map.1 member
    exact ⟨"\n", rfl, by decide, by decide⟩
  | tokenIds ids =>
    obtain ⟨entry, _, rfl⟩ := List.mem_map.1 member
    exact ⟨"]\n", rfl, by decide, by decide⟩

/-- A call that writes anything leaves something in the buffer. -/
theorem exists_run_callLines (found : origin.fileLocation p = .ok l)
    (holds : Holds origin l (covered flushed under) fs) (call : HookCall)
    (waits : pending = [] → flushed = []) :
    ∃ flushed' pending' fs',
      (writePieces p ⟨flushed.length, pending⟩ (callLines call).flatten : StateM (FileSystem working) _).run fs =
        (.ok ⟨flushed'.length, pending'⟩, fs') ∧
      flushed' ++ pending' = flushed ++ pending ++ callBytes call ∧
      Holds origin l (covered flushed' under) fs' ∧ (pending' = [] → flushed' = []) := by
  obtain ⟨flushed', pending', fs', written, same, holds', nothing, last⟩ :=
    exists_run_writePieces found holds pending (callLines call).flatten
  refine ⟨flushed', pending', fs', written, same, holds', ?_⟩
  by_cases empty : callLines call = []
  · rw [empty] at nothing
    obtain ⟨rfl, rfl⟩ := nothing rfl
    exact waits
  · obtain ⟨lines, line, split⟩ := (List.eq_nil_or_concat (callLines call)).resolve_left empty
    have listed : line ∈ callLines call := by simp [split]
    obtain ⟨piece, isLast, nonempty, short⟩ := exists_last_of_mem_callLines listed
    have ends : piece ∈ (callLines call).flatten.getLast? := by
      simp [split, List.getLast?_append, Option.mem_def.1 isLast]
    intro drained
    exact absurd drained (last piece ends nonempty short)

/-! ## What calls do -/

/-- The writer that is held and the file system, after the calls of which a session is what is left.  The
bytes `under` were in the file when the session began, and those that are in the buffer of an open file
are the last ones of the text. -/
inductive Follows (origin : FileSystem working) (l : Location) :
    Option Session → Option Writer → FileSystem working → Prop
  | unopened : Follows origin l none none origin
  | opened {under flushed pending unclosed : List UInt8} {fs : FileSystem working}
      (holds : Holds origin l (covered flushed under) fs) (length : under.length = unclosed.length)
      (waits : pending = [] → flushed = []) :
      Follows origin l (some ⟨true, flushed ++ pending, unclosed⟩) (some ⟨flushed.length, pending⟩) fs
  | closed {under text unclosed : List UInt8} {fs : FileSystem working}
      (holds : Holds origin l (covered text under) fs) (length : under.length = unclosed.length) :
      Follows origin l (some ⟨false, text, unclosed⟩) none fs

variable {s : Option Session} {w : Option Writer}

/-- A session begins with an empty buffer. -/
theorem Follows.begin {unclosed : List UInt8} (holds : Holds origin l under fs)
    (length : under.length = unclosed.length) :
    Follows origin l (some ⟨true, [], unclosed⟩) (some ⟨0, []⟩) fs :=
  @opened working origin l under [] [] unclosed fs holds length fun _ => rfl

theorem Follows.fileLocation (follows : Follows origin l s w fs) (found : origin.fileLocation p = .ok l) :
    fs.fileLocation p = .ok l := by
  cases follows with
  | unopened => exact found
  | opened holds => exact holds.fileLocation found
  | closed holds => exact holds.fileLocation found

theorem Follows.elsewhere (follows : Follows origin l s w fs) :
    ∀ place, place ≠ l → fs.get? place = origin.get? place := by
  cases follows with
  | unopened => exact fun _ _ => rfl
  | opened holds => exact holds.elsewhere
  | closed holds => exact holds.elsewhere

theorem Follows.exists_run_write (follows : Follows origin l s w fs) (found : origin.fileLocation p = .ok l) :
    ∃ fs', (FileAccess.write p [] : StateM (FileSystem working) _).run fs = (.ok (), fs') ∧
      Holds origin l [] fs' := by
  have located := follows.fileLocation found
  have free := FileSystem.not_isFixed_of_fileLocation located
  refine ⟨fs.put l (.file []), ?_, ?_, ?_⟩
  · show FileSystem.attempt (fun fs => fs.write p []) fs = _
    rw [FileSystem.attempt, FileSystem.write_eq_ok located]
  · rw [FileSystem.get?_put free, if_pos rfl]
  · intro place differ
    rw [FileSystem.get?_put free, if_neg differ]
    exact follows.elsewhere place differ

theorem run_giveUp {w w' : Writer} {fs' : FileSystem working}
    (flushed : (flush p w : StateM (FileSystem working) _).run fs = (.ok w', fs')) :
    (giveUp p (some w) : StateM (FileSystem working) _).run fs = ((), fs') := by
  rw [giveUp, run_bind_of_run flushed]
  rfl

/-- Opening empties the file, but what waits from a session that was not closed is put into it after
that. -/
theorem Follows.exists_run_opening (follows : Follows origin l s w fs) (found : origin.fileLocation p = .ok l) :
    ∃ w' fs',
      ((answer p .opening : StateT _ (StateM (FileSystem working)) _).run w).run fs = ((.ok (), w'), fs') ∧
      Follows origin l (Session.after s .opening) w' fs' := by
  obtain ⟨fs₁, emptied, holds₁⟩ := follows.exists_run_write found
  rw [run_opening, run_bind_of_run emptied]
  cases follows with
  | unopened => exact ⟨_, fs₁, rfl, .begin holds₁ rfl⟩
  | closed => exact ⟨_, fs₁, rfl, .begin holds₁ rfl⟩
  | @opened _ flushed pending unclosed _ _ _ waits =>
    by_cases drained : pending = []
    · -- Nothing waits only if nothing was written.
      obtain rfl := waits drained
      subst drained
      exact ⟨_, fs₁, rfl, .begin holds₁ rfl⟩
    · obtain ⟨fs₂, patched, holds₂⟩ := exists_run_patch found holds₁ flushed.length pending
      have stale : (flush p ⟨flushed.length, pending⟩ : StateM (FileSystem working) _).run fs₁ =
          (.ok ⟨flushed.length + pending.length, []⟩, fs₂) := by
        rw [flush, if_neg drained, run_bind_of_run patched]
        rfl
      have length : (FileSystem.overwritten [] flushed.length pending).length = (flushed ++ pending).length := by
        rw [length_overwritten_nil, List.length_append]
      refine ⟨_, fs₂, ?_, .begin holds₂ length⟩
      rw [run_bind_of_run (run_giveUp stale)]
      rfl

theorem Follows.exists_run_closing (follows : Follows origin l s w fs) (found : origin.fileLocation p = .ok l) :
    ∃ w' fs',
      ((answer p .closing : StateT _ (StateM (FileSystem working)) _).run w).run fs = ((.ok (), w'), fs') ∧
      Follows origin l (Session.after s .closing) w' fs' := by
  cases follows with
  | unopened => exact ⟨none, origin, rfl, .unopened⟩
  | closed holds length => exact ⟨none, fs, rfl, .closed holds length⟩
  | opened holds length =>
    obtain ⟨fs', emptied, holds'⟩ := exists_run_flush found holds _
    refine ⟨none, fs', ?_, .closed holds' length⟩
    rw [run_closing, run_bind_of_run emptied]
    rfl

theorem answer_of_informs {call : HookCall} (informs : call.Informs) :
    (answer p call : StateT _ (StateM (FileSystem working)) _) = writeLines p (callLines call) := by
  cases call with
  | opening => exact absurd rfl informs.1
  | closing => exact absurd rfl informs.2
  | tokens => rfl
  | tokenIds => rfl

/-- What is told to an open file is written. -/
theorem Follows.exists_run_of_isOpen {session : Session} (follows : Follows origin l (some session) w fs)
    (found : origin.fileLocation p = .ok l) {call : HookCall} (informs : call.Informs)
    (isOpen : session.isOpen = true) :
    ∃ w' fs', ((answer p call : StateT _ (StateM (FileSystem working)) _).run w).run fs = ((.ok (), w'), fs') ∧
      Follows origin l (Session.after (some session) call) w' fs' := by
  rw [answer_of_informs informs, after_of_informs informs]
  cases follows with
  | closed => cases isOpen
  | @opened under flushed pending unclosed _ holds length waits =>
    obtain ⟨flushed', pending', fs', written, same, holds', waits'⟩ :=
      exists_run_callLines found holds call waits
    refine ⟨some ⟨flushed'.length, pending'⟩, fs', ?_, ?_⟩
    · rw [run_writeLines, run_bind_of_run written]
      rfl
    · have opened := Follows.opened holds' length waits'
      rw [same] at opened
      exact opened

/-- What is told to a file that is not open is refused, and nothing happens. -/
theorem Follows.run_of_not_isOpen (follows : Follows origin l s w fs) {call : HookCall}
    (informs : call.Informs) (notOpen : ∀ session, s = some session → session.isOpen = false) :
    ((answer p call : StateT _ (StateM (FileSystem working)) _).run w).run fs = ((.error .notOpen, w), fs) ∧
      Session.after s call = s := by
  rw [answer_of_informs informs, after_of_informs informs]
  cases follows with
  | unopened => exact ⟨rfl, rfl⟩
  | closed => exact ⟨rfl, rfl⟩
  | opened => exact absurd (notOpen _ rfl) nofun

/-- Every call keeps a writer and a file system in step with the sessions. -/
theorem Follows.exists_run_answer (follows : Follows origin l s w fs) (found : origin.fileLocation p = .ok l)
    (call : HookCall) :
    ∃ r w' fs', ((answer p call : StateT _ (StateM (FileSystem working)) _).run w).run fs = ((r, w'), fs') ∧
      Follows origin l (Session.after s call) w' fs' := by
  by_cases informs : call.Informs
  · by_cases isOpen : ∃ session, s = some session ∧ session.isOpen = true
    · obtain ⟨session, rfl, isOpen⟩ := isOpen
      exact ⟨_, follows.exists_run_of_isOpen found informs isOpen⟩
    · have notOpen : ∀ session, s = some session → session.isOpen = false := by
        intro session same
        exact eq_false_of_ne_true fun isOpen' => isOpen ⟨session, same, isOpen'⟩
      obtain ⟨refused, same⟩ := @Follows.run_of_not_isOpen _ p _ _ _ _ _ follows call informs notOpen
      refine ⟨_, w, fs, refused, ?_⟩
      rw [same]
      exact follows
  · cases call with
    | opening => exact ⟨_, follows.exists_run_opening found⟩
    | closing => exact ⟨_, follows.exists_run_closing found⟩
    | tokens tokens => exact absurd ⟨nofun, nofun⟩ informs
    | tokenIds ids => exact absurd ⟨nofun, nofun⟩ informs

/-- After any calls. -/
theorem exists_run_mapM (found : origin.fileLocation p = .ok l) (calls : List HookCall) :
    ∃ results w fs, ((calls.mapM (answer p) : StateT _ (StateM (FileSystem working)) _).run none).run origin =
        ((results, w), fs) ∧
      Follows origin l (session calls) w fs := by
  induction calls using List.reverseRecOn with
  | nil => exact ⟨[], none, origin, rfl, .unopened⟩
  | append_singleton calls call ih =>
    obtain ⟨results, w, fs, ran, follows⟩ := ih
    obtain ⟨r, w', fs', answered, follows'⟩ := follows.exists_run_answer found call
    rw [session_append_singleton]
    refine ⟨results ++ [r], w', fs', ?_, follows'⟩
    rw [List.mapM_append, run_run_bind ran, List.mapM_cons, bind_assoc, run_run_bind answered]
    rfl

/-- Giving up a file puts the rest of the text into it. -/
theorem Follows.exists_run_giveUp (follows : Follows origin l s w fs) (found : origin.fileLocation p = .ok l) :
    ∃ fs', (giveUp p w : StateM (FileSystem working) _).run fs = ((), fs') ∧
      ((s = none ∧ fs' = origin) ∨ ∃ session under, s = some session ∧
        under.length = session.unclosed.length ∧ Holds origin l (covered session.text under) fs') := by
  cases follows with
  | unopened => exact ⟨origin, rfl, .inl ⟨rfl, rfl⟩⟩
  | closed holds length => exact ⟨fs, rfl, .inr ⟨_, _, rfl, length, holds⟩⟩
  | opened holds length =>
    obtain ⟨fs', emptied, holds'⟩ := exists_run_flush found holds _
    exact ⟨fs', run_giveUp emptied, .inr ⟨_, _, rfl, length, holds'⟩⟩

end Runs

/-- What the last session leaves in the file: its text, and behind that what is left of the session before, if
that one was not closed. -/
theorem exists_run_lifetime (found : origin.fileLocation p = .ok l) (calls : List HookCall) :
    ∃ results final, (lifetime p calls : StateM (FileSystem working) _).run origin = (results, final) ∧
      ((session calls = none ∧ final = origin) ∨ ∃ s under, session calls = some s ∧
        under.length = s.unclosed.length ∧ Holds origin l (covered s.text under) final) := by
  obtain ⟨results, w, fs, ran, follows⟩ := exists_run_mapM found calls
  obtain ⟨final, gaveUp, left⟩ := follows.exists_run_giveUp found
  refine ⟨results, final, ?_, left⟩
  rw [lifetime, run_bind_of_run ran]
  show (giveUp p w >>= fun _ => pure results : StateM (FileSystem working) _).run fs = _
  rw [run_bind_of_run gaveUp]
  rfl

/-- After any calls, telling the file something fails exactly if it is not open, and then changes nothing. -/
theorem told_iff (found : fs.fileLocation p = .ok l) (calls : List HookCall) {call : HookCall}
    (informs : call.Informs) :
    let before := ((calls.mapM (answer p) : StateT _ (StateM (FileSystem working)) _).run none).run fs
    let step := ((answer p call : StateT _ (StateM (FileSystem working)) _).run before.1.2).run before.2
    (step.1.1 ≠ .ok () ↔ ¬ IsOpenAfter calls) ∧ (step.1.1 ≠ .ok () → step.2 = before.2) := by
  obtain ⟨_, w, fs₁, ran, follows⟩ := exists_run_mapM found calls
  simp only [ran]
  by_cases isOpen : IsOpenAfter calls
  · obtain ⟨s, last, isOpen'⟩ := isOpenAfter_iff.1 isOpen
    rw [last] at follows
    obtain ⟨w', fs₂, told, _⟩ := follows.exists_run_of_isOpen found informs isOpen'
    simp [told, isOpen]
  · have notOpen : ∀ s, session calls = some s → s.isOpen = false := by
      intro s last
      exact eq_false_of_ne_true fun isOpen' => isOpen (isOpenAfter_iff.2 ⟨s, last, isOpen'⟩)
    have refused := (follows.run_of_not_isOpen (p := p) informs notOpen).1
    simp [refused, isOpen]

/-- A token id file at a path where nothing is yet, after any calls.  Telling it something fails exactly if the
file has not been opened since it was last closed, and then changes nothing.  When the file is given up it is
there exactly if it was ever opened, and it begins with the lines that were written since.  It holds nothing
else exactly if the session before was closed or wrote no more bytes than the last one. -/
theorem holds_session_iff (found : fs.fileLocation p = .ok l) (fresh : fs.get? l = none)
    (calls : List HookCall) :
    (∀ front call back, calls = front ++ call :: back → call.Informs →
      let before := ((front.mapM (answer p) : StateT _ (StateM (FileSystem working)) _).run none).run fs
      let step := ((answer p call : StateT _ (StateM (FileSystem working)) _).run before.1.2).run before.2
      (step.1.1 ≠ .ok () ↔ ¬ IsOpenAfter front) ∧ (step.1.1 ≠ .ok () → step.2 = before.2)) ∧
    let final := ((lifetime p calls : StateM (FileSystem working) _).run fs).2
    (final.get? l = none ↔ .opening ∉ calls) ∧
    (∀ s, session calls = some s → ∃ bytes, final.get? l = some (.file bytes) ∧ s.text <+: bytes ∧
      (bytes = s.text ↔ s.unclosed.length ≤ s.text.length)) ∧
    ∀ place, place ≠ l → final.get? place = fs.get? place := by
  refine ⟨fun front call _ _ informs => told_iff found front informs, ?_⟩
  obtain ⟨results, final, ran, left⟩ := exists_run_lifetime found calls
  simp only [ran]
  rw [← session_eq_none_iff]
  rcases left with ⟨never, rfl⟩ | ⟨s, under, last, length, holds⟩
  · refine ⟨by simp [never, fresh], ?_, fun _ _ => rfl⟩
    intro s last
    rw [never] at last
    cases last
  · refine ⟨by simp [last, holds.file], ?_, holds.elsewhere⟩
    intro s' last'
    obtain rfl : s = s' := Option.some.inj (last.symm.trans last')
    refine ⟨covered s.text under, holds.file, List.prefix_append _ _, ?_⟩
    rw [covered_eq_left_iff, length]

/-- A single token. -/
def singleToken : TokenTable := ⟨[⟨0, 0, some "a", .keyword, "KEYWORD", 1, none, false, .api⟩]⟩

/-- The file is opened again without having been closed, and the new session writes over the one before. -/
theorem holds_session_iff_longer :
    let calls : List HookCall := [.opening, .tokens singleToken, .opening, .tokens singleToken,
      .tokenIds singleToken.categoryIds, .closing]
    session calls = some ⟨false, utf8 "KEYWORD = 1\nkeyword : [[\"KEYWORD\", 1]]\n", utf8 "KEYWORD = 1\n"⟩ ∧
      ((lifetime ⟨"ids"⟩ calls : StateM (FileSystem ["home"]) _).run ⟨[]⟩).2.get? ["home", "ids"] =
        some (.file (utf8 "KEYWORD = 1\nkeyword : [[\"KEYWORD\", 1]]\n")) := by
  intro calls
  have last : session calls =
      some ⟨false, utf8 "KEYWORD = 1\nkeyword : [[\"KEYWORD\", 1]]\n", utf8 "KEYWORD = 1\n"⟩ := by
    decide +kernel
  refine ⟨last, ?_⟩
  have found : (⟨[]⟩ : FileSystem ["home"]).fileLocation ⟨"ids"⟩ = .ok ["home", "ids"] := by decide +kernel
  obtain ⟨bytes, file, _, whole⟩ := (holds_session_iff found rfl calls).2.2.1 _ last
  rw [file, whole.2 (by decide +kernel)]

/-- The line of the first session is in the file although nothing has been written since it was opened again. -/
theorem unclosed_comesBack :
    let calls : List HookCall := [.opening, .tokens singleToken, .opening]
    session calls = some ⟨true, [], utf8 "KEYWORD = 1\n"⟩ ∧
      ((lifetime ⟨"ids"⟩ calls : StateM (FileSystem ["home"]) _).run ⟨[]⟩).2.get? ["home", "ids"] =
        some (.file (utf8 "KEYWORD = 1\n")) ∧
      utf8 "KEYWORD = 1\n" ≠ [] := by
  decide +kernel

end TokenIdFile

end ScannerGen
