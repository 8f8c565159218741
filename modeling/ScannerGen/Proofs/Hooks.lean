import Mathlib.Data.List.Nodup
import ScannerGen.Hooks

/-!
# The calls that hooks get

Hooks act on a world of their own: they are hooks over `StateM σ`, so that each call may fail or not
as it likes.  A run of them is watched by recording every call with its answer.

* `UpToFailure` — requests are made in order, up to the first one that fails.
* `HookDiscipline` — what every record of a run looks like: who is called when, who is closed, and
  which failure is reported.
* `Watches` — a watched run is the run itself, together with its record.
* `exists_watches_runHooks` — every run of hooks keeps the discipline.
-/

namespace ScannerGen

/-! ## Records of calls -/

/-- A call of the hook at some place of a list. -/
structure HookRequest where
  place : Nat
  name : String
  call : HookCall
  deriving DecidableEq

/-- A call that was made, and what came of it. -/
structure HookEvent where
  request : HookRequest
  answer : Except IoError Unit

/-- The error that an answer of a hook is reported as. -/
def report? (name : String) : Except IoError Unit → Option HookError
  | .ok () => none
  | .error failure => some ⟨name, failure⟩

namespace HookEvent

def error? (e : HookEvent) : Option HookError := report? e.request.name e.answer

/-- What a call that opened a hook leaves to be done. -/
def closing? (e : HookEvent) : Option HookRequest :=
  match e.request.call, e.answer with
  | .opening, .ok () => some { e.request with call := .closing }
  | _, _ => none

end HookEvent

/-- Requests are made in order, up to the first one that fails. -/
inductive UpToFailure : List HookRequest → List HookEvent → Prop
  | done : UpToFailure [] []
  | fails {request : HookRequest} {requests : List HookRequest} {failure : IoError} :
      UpToFailure (request :: requests) [⟨request, .error failure⟩]
  | goesOn {request : HookRequest} {requests : List HookRequest} {events : List HookEvent} :
      UpToFailure requests events → UpToFailure (request :: requests) (⟨request, .ok ()⟩ :: events)

/-- The requests by which hooks with the given names are opened and informed, from a place on. -/
def servingRequests (tokens : TokenTable) : Nat → List String → List HookRequest
  | _, [] => []
  | place, name :: names =>
    ⟨place, name, .opening⟩ :: ⟨place, name, .tokens tokens⟩ ::
      ⟨place, name, .tokenIds tokens.categoryIds⟩ :: servingRequests tokens (place + 1) names

/-- Whether the hook at a place was opened. -/
def Opened (trace : List HookEvent) (place : Nat) : Prop :=
  ∃ e ∈ trace, e.request.place = place ∧ e.request.call = .opening ∧ e.answer = .ok ()

/-- The error of the first call that failed. -/
def firstFailure (trace : List HookEvent) : Except HookError Unit :=
  match trace.findSome? HookEvent.error? with
  | none => .ok ()
  | some e => .error e

/-- How hooks with the given names are called, and the result that is reported. -/
structure HookDiscipline (tokens : TokenTable) (names : List String) (trace : List HookEvent)
    (result : Except HookError Unit) : Prop where
  /-- First hooks are opened and informed one after the other, up to the first failure.  Then those
  that were opened are closed, in the order of opening, and nothing else is done. -/
  order : ∃ serving closing, trace = serving ++ closing ∧
    UpToFailure (servingRequests tokens 0 names) serving ∧
    closing.map HookEvent.request = serving.filterMap HookEvent.closing?
  closedOnce : ∀ place, Opened trace place →
    trace.countP (fun e => e.request.place == place && e.request.call == .closing) = 1
  leftAlone : ∀ place, ¬ Opened trace place → ∀ e ∈ trace, e.request.place = place →
    e.request.call = .opening
  succeeds : result = .ok () ↔ ∀ e ∈ trace, e.answer = .ok ()
  reported : result = firstFailure trace

/-! ## Orderly records -/

namespace UpToFailure

variable {requests others : List HookRequest} {events later : List HookEvent}

theorem request_mem (made : UpToFailure requests events) : ∀ e ∈ events, e.request ∈ requests := by
  induction made with
  | done => exact List.forall_mem_nil _
  | fails => exact List.forall_mem_singleton.2 List.mem_cons_self
  | goesOn _ ih =>
    exact List.forall_mem_cons.2 ⟨List.mem_cons_self, fun e member => .tail _ (ih e member)⟩

/-- What would come behind a failure does not matter. -/
theorem append_of_failure (made : UpToFailure requests events) {e : HookError}
    (failed : events.findSome? HookEvent.error? = some e) : UpToFailure (requests ++ others) events := by
  induction made with
  | done => cases failed
  | fails => exact .fails
  | goesOn _ ih => exact .goesOn (ih failed)

theorem append (made : UpToFailure requests events) (faultless : events.findSome? HookEvent.error? = none)
    (next : UpToFailure others later) : UpToFailure (requests ++ others) (events ++ later) := by
  induction made with
  | done => exact next
  | fails => cases faultless
  | goesOn _ ih => exact .goesOn (ih faultless)

end UpToFailure

section Orderly

variable {tokens : TokenTable} {place : Nat} {name : String} {names : List String}
  {events : List HookEvent}

/-- The calls that a hook gets before the next one: it fails to open, or fails when it is informed,
or goes through all of it. -/
theorem UpToFailure.serving_cases
    (made : UpToFailure (servingRequests tokens place (name :: names)) events) :
    (∃ failure, events = [⟨⟨place, name, .opening⟩, .error failure⟩]) ∨
    (∃ failure, events = [⟨⟨place, name, .opening⟩, .ok ()⟩,
      ⟨⟨place, name, .tokens tokens⟩, .error failure⟩]) ∨
    (∃ failure, events = [⟨⟨place, name, .opening⟩, .ok ()⟩, ⟨⟨place, name, .tokens tokens⟩, .ok ()⟩,
      ⟨⟨place, name, .tokenIds tokens.categoryIds⟩, .error failure⟩]) ∨
    ∃ others, UpToFailure (servingRequests tokens (place + 1) names) others ∧
      events = ⟨⟨place, name, .opening⟩, .ok ()⟩ :: ⟨⟨place, name, .tokens tokens⟩, .ok ()⟩ ::
        ⟨⟨place, name, .tokenIds tokens.categoryIds⟩, .ok ()⟩ :: others := by
  cases made with
  | fails => exact .inl ⟨_, rfl⟩
  | goesOn made =>
    cases made with
    | fails => exact .inr (.inl ⟨_, rfl⟩)
    | goesOn made =>
      cases made with
      | fails => exact .inr (.inr (.inl ⟨_, rfl⟩))
      | goesOn made => exact .inr (.inr (.inr ⟨_, made, rfl⟩))

/-- What serving hooks leaves to be closed: one request for each place that was opened. -/
theorem UpToFailure.closing_places
    (made : UpToFailure (servingRequests tokens place names) events) :
    ((events.filterMap HookEvent.closing?).map HookRequest.place).Pairwise (· < ·) ∧
      ∀ opened ∈ (events.filterMap HookEvent.closing?).map HookRequest.place, place ≤ opened := by
  induction names generalizing place events with
  | nil =>
    cases made
    exact ⟨.nil, List.forall_mem_nil _⟩
  | cons name names ih =>
    rcases made.serving_cases with ⟨_, rfl⟩ | ⟨_, rfl⟩ | ⟨_, rfl⟩ | ⟨others, later, rfl⟩
    · exact ⟨.nil, List.forall_mem_nil _⟩
    · exact ⟨List.pairwise_singleton _ _, fun _ only => Nat.le_of_eq (List.mem_singleton.1 only).symm⟩
    · exact ⟨List.pairwise_singleton _ _, fun _ only => Nat.le_of_eq (List.mem_singleton.1 only).symm⟩
    · obtain ⟨ascending, behind⟩ := ih later
      refine ⟨List.pairwise_cons.2 ⟨fun opened member => behind opened member, ascending⟩, ?_⟩
      exact List.forall_mem_cons.2
        ⟨Nat.le_refl place, fun opened member => Nat.le_of_succ_le (behind opened member)⟩

/-- Nothing is closed before all other calls are made, and only an opened hook is informed. -/
theorem UpToFailure.forall_serving
    (made : UpToFailure (servingRequests tokens place names) events) :
    ∀ e ∈ events, e.request.call ≠ .closing ∧
      (e.request.call = .opening ∨ Opened events e.request.place) := by
  induction names generalizing place events with
  | nil =>
    cases made
    exact List.forall_mem_nil _
  | cons name names ih =>
    rcases made.serving_cases with ⟨_, rfl⟩ | ⟨_, rfl⟩ | ⟨_, rfl⟩ | ⟨others, later, rfl⟩
    · simp
    · simp [Opened]
    · simp [Opened]
    · intro e member
      simp only [List.mem_cons] at member
      rcases member with rfl | rfl | rfl | member
      · exact ⟨nofun, .inl rfl⟩
      · exact ⟨nofun, .inr ⟨_, .head _, rfl, rfl, rfl⟩⟩
      · exact ⟨nofun, .inr ⟨_, .head _, rfl, rfl, rfl⟩⟩
      · obtain ⟨notClosing, opened⟩ := ih later e member
        refine ⟨notClosing, opened.imp id ?_⟩
        rintro ⟨first, among, opens⟩
        exact ⟨first, .tail _ (.tail _ (.tail _ among)), opens⟩

theorem HookEvent.error?_eq_none {e : HookEvent} : e.error? = none ↔ e.answer = .ok () := by
  rw [error?]
  cases e.answer with
  | ok => exact iff_of_true rfl rfl
  | error failure => exact iff_of_false nofun nofun

theorem firstFailure_eq_ok_iff : firstFailure events = .ok () ↔ ∀ e ∈ events, e.answer = .ok () := by
  simp only [← HookEvent.error?_eq_none]
  rw [← List.findSome?_eq_none_iff, firstFailure]
  cases events.findSome? HookEvent.error? with
  | none => exact iff_of_true rfl rfl
  | some e => exact iff_of_false nofun nofun

theorem HookEvent.closing?_eq_some {e : HookEvent} {request : HookRequest} :
    e.closing? = some request ↔ e.request.call = .opening ∧ e.answer = .ok () ∧
      request = { e.request with call := .closing } := by
  rw [closing?]
  split
  · next opens succeeds => simp [opens, succeeds, eq_comm]
  · next other => simpa using fun opens succeeds => absurd succeeds (other opens)

variable {serving closing : List HookEvent}

theorem exists_opening (closes : closing.map HookEvent.request = serving.filterMap HookEvent.closing?)
    {e : HookEvent} (member : e ∈ closing) :
    ∃ first ∈ serving, first.request.call = .opening ∧ first.answer = .ok () ∧
      e.request = { first.request with call := .closing } := by
  have asked := List.mem_map_of_mem member (f := HookEvent.request)
  rw [closes, List.mem_filterMap] at asked
  obtain ⟨first, among, found⟩ := asked
  exact ⟨first, among, HookEvent.closing?_eq_some.1 found⟩

/-- The hooks that were opened are those that are left to be closed. -/
theorem opened_append_iff (closes : closing.map HookEvent.request = serving.filterMap HookEvent.closing?) :
    Opened (serving ++ closing) place ↔
      place ∈ (serving.filterMap HookEvent.closing?).map HookRequest.place := by
  simp only [Opened, List.mem_map, List.mem_filterMap, HookEvent.closing?_eq_some]
  constructor
  · rintro ⟨e, member, rfl, opens, succeeds⟩
    rcases List.mem_append.1 member with among | among
    · exact ⟨_, ⟨e, among, opens, succeeds, rfl⟩, rfl⟩
    · -- Calls at the end close hooks and open none.
      obtain ⟨_, _, _, _, closed⟩ := exists_opening closes among
      rw [closed] at opens
      cases opens
  · rintro ⟨_, ⟨e, among, opens, succeeds, rfl⟩, rfl⟩
    exact ⟨e, List.mem_append_left _ among, rfl, opens, succeeds⟩

/-- Serving hooks up to the first failure and then closing those that were opened is disciplined. -/
theorem HookDiscipline.of_order (made : UpToFailure (servingRequests tokens 0 names) serving)
    (closes : closing.map HookEvent.request = serving.filterMap HookEvent.closing?) :
    HookDiscipline tokens names (serving ++ closing) (firstFailure (serving ++ closing)) where
  order := ⟨serving, closing, rfl, made, closes⟩
  closedOnce place opened := by
    have member := (opened_append_iff closes).1 opened
    have distinct := made.closing_places.1.imp fun less => Nat.ne_of_lt less
    have before : serving.countP (fun e => e.request.place == place && e.request.call == .closing) = 0 :=
      List.countP_eq_zero.2 fun e among => by simp [(made.forall_serving e among).1]
    have after : closing.countP (fun e => e.request.place == place && e.request.call == .closing) =
        ((serving.filterMap HookEvent.closing?).map HookRequest.place).count place := by
      rw [List.count, List.countP_map, ← closes, List.countP_map]
      refine List.countP_congr fun e among => ?_
      obtain ⟨_, _, _, _, closed⟩ := exists_opening closes among
      simp [closed]
    rw [List.countP_append, before, after, List.count_eq_one_of_mem distinct member]
  leftAlone place unopened e member same := by
    rw [opened_append_iff closes] at unopened
    rcases List.mem_append.1 member with among | among
    · refine (made.forall_serving e among).2.resolve_right fun opened => unopened ?_
      obtain ⟨first, before, opens⟩ := opened
      rw [← opened_append_iff closes, ← same]
      exact ⟨first, List.mem_append_left _ before, opens⟩
    · refine absurd ?_ unopened
      rw [← closes, List.map_map, ← same]
      exact List.mem_map_of_mem among
  succeeds := firstFailure_eq_ok_iff
  reported := rfl

end Orderly

/-! ## Watched runs -/

variable {σ α β γ δ : Type}

/-- Runs that keep a record of the calls. -/
abbrev Watch (σ : Type) := StateT (List HookEvent) (StateM σ)

/-- A hook at a place whose calls are recorded. -/
def Hook.watched (hook : Hook (StateM σ)) (place : Nat) : Hook (Watch σ) where
  name := hook.name
  answer call := do
    let answer ← StateT.lift (hook.answer call)
    modify (· ++ [⟨⟨place, hook.name, call⟩, answer⟩])
    pure answer

/-- Hooks at the places from one on. -/
def watchedFrom : Nat → List (Hook (StateM σ)) → List (Hook (Watch σ))
  | _, [] => []
  | place, hook :: hooks => hook.watched place :: watchedFrom (place + 1) hooks

/-- A watched action and the action itself take a world to the same one; the events are what the
record grows by. -/
structure Watches (watched : Watch σ α) (plain : StateM σ β) (a : α) (b : β)
    (events : List HookEvent) (s s' : σ) : Prop where
  watched : ∀ log, (watched.run log).run s = ((a, log ++ events), s')
  plain : plain.run s = (b, s')

namespace Watches

theorem pure (a : α) (b : β) (s : σ) : Watches (Pure.pure a) (Pure.pure b) a b [] s s where
  watched log := by rw [List.append_nil]; rfl
  plain := rfl

theorem bind {watched : Watch σ α} {plain : StateM σ β} {a : α} {b : β} {c : γ} {d : δ}
    {f : α → Watch σ γ} {g : β → StateM σ δ} {events others : List HookEvent} {s s' s'' : σ}
    (first : Watches watched plain a b events s s') (second : Watches (f a) (g b) c d others s' s'') :
    Watches (watched >>= f) (plain >>= g) c d (events ++ others) s s'' where
  watched log := by
    rw [StateT.run_bind, StateT.run_bind, first.watched]
    show ((f a).run (log ++ events)).run s' = _
    rw [second.watched, List.append_assoc]
  plain := by
    rw [StateT.run_bind, first.plain]
    exact second.plain

theorem answer (hook : Hook (StateM σ)) (place : Nat) (call : HookCall) (s : σ) :
    ∃ answer s', Watches ((hook.watched place).answer call) (hook.answer call) answer answer
      [⟨⟨place, hook.name, call⟩, answer⟩] s s' :=
  ⟨((hook.answer call).run s).1, ((hook.answer call).run s).2, fun _ => rfl, rfl⟩

end Watches

/-- Requests for a hook are made up to the first that fails, and that failure is the result. -/
theorem exists_watches_answerAll (hook : Hook (StateM σ)) (place : Nat) (calls : List HookCall) (s : σ) :
    ∃ result events s', Watches ((hook.watched place).answerAll calls) (hook.answerAll calls)
        result result events s s' ∧
      UpToFailure (calls.map (⟨place, hook.name, ·⟩)) events ∧
      events.findSome? HookEvent.error? = report? hook.name result := by
  induction calls generalizing s with
  | nil => exact ⟨.ok (), [], s, .pure _ _ s, .done, rfl⟩
  | cons call calls ih =>
    obtain ⟨answer, s₁, called⟩ := Watches.answer hook place call s
    cases answer with
    | error failure => exact ⟨.error failure, _, s₁, called.bind (.pure _ _ s₁), .fails, rfl⟩
    | ok =>
      obtain ⟨result, events, s₂, others, made, reported⟩ := ih s₁
      exact ⟨result, _, s₂, called.bind others, .goesOn made, reported⟩

/-- Hooks with their places, as they are watched. -/
def watchedAll (hooks : List (Nat × Hook (StateM σ))) : List (Hook (Watch σ)) :=
  hooks.map fun (place, hook) => hook.watched place

/-- The requests that close hooks. -/
def closingRequests (hooks : List (Nat × Hook (StateM σ))) : List HookRequest :=
  hooks.map fun (place, hook) => ⟨place, hook.name, .closing⟩

/-- Serving hooks makes the requests for serving up to the first that fails.  The hooks that are open
afterwards are those that the events leave to be closed. -/
theorem exists_watches_serve (tokens : TokenTable) (opened : List (Nat × Hook (StateM σ))) (place : Nat)
    (hooks : List (Hook (StateM σ))) (s : σ) :
    ∃ others failure? events s',
      Watches (serve tokens (watchedAll opened) (watchedFrom place hooks))
        (serve tokens (opened.map Prod.snd) hooks) ⟨watchedAll (opened ++ others), failure?⟩
        ⟨(opened ++ others).map Prod.snd, failure?⟩ events s s' ∧
      UpToFailure (servingRequests tokens place (hooks.map Hook.name)) events ∧
      events.filterMap HookEvent.closing? = closingRequests others ∧
      events.findSome? HookEvent.error? = failure? := by
  induction hooks generalizing opened place s with
  | nil =>
    refine ⟨[], none, [], s, ?_, .done, rfl, rfl⟩
    rw [List.append_nil]
    exact .pure _ _ s
  | cons hook hooks ih =>
    obtain ⟨answer, s₁, called⟩ := Watches.answer hook place .opening s
    cases answer with
    | error failure =>
      refine ⟨[], some ⟨hook.name, failure⟩, _, s₁, called.bind ?_, .fails, rfl, rfl⟩
      rw [List.append_nil]
      exact .pure _ _ s₁
    | ok =>
      obtain ⟨result, events, s₂, informed, made, reported⟩ :=
        exists_watches_answerAll hook place (informing tokens) s₁
      have opensNothing : events.filterMap HookEvent.closing? = [] := by
        refine List.filterMap_eq_nil_iff.2 fun e member => ?_
        obtain ⟨call, informs, same⟩ := List.mem_map.1 (made.request_mem e member)
        rw [HookEvent.closing?, ← same]
        simp only [informing, List.mem_cons, List.not_mem_nil, or_false] at informs
        rcases informs with rfl | rfl <;> rfl
      have watchedMore : watchedAll (opened ++ [(place, hook)]) = watchedAll opened ++ [hook.watched place] :=
        List.map_append
      have plainMore : (opened ++ [(place, hook)]).map Prod.snd = opened.map Prod.snd ++ [hook] :=
        List.map_append
      cases result with
      | error failure =>
        refine ⟨[(place, hook)], some ⟨hook.name, failure⟩, ⟨⟨place, hook.name, .opening⟩, .ok ()⟩ :: events,
          s₂, ?_, .goesOn (made.append_of_failure reported), ?_, reported⟩
        · rw [watchedMore, plainMore, ← List.append_nil events]
          exact called.bind (informed.bind (.pure _ _ s₂))
        · exact congrArg (List.cons _) opensNothing
      | ok =>
        obtain ⟨others, failure?, later, s₃, served, laterMade, left, laterReported⟩ :=
          ih (opened ++ [(place, hook)]) (place + 1) s₂
        rw [watchedMore, plainMore] at served
        refine ⟨(place, hook) :: others, failure?,
          ⟨⟨place, hook.name, .opening⟩, .ok ()⟩ :: (events ++ later), s₃, ?_,
          .goesOn (made.append reported laterMade), ?_, ?_⟩
        · rw [List.append_cons]
          exact called.bind (informed.bind served)
        · refine congrArg (List.cons _) (Eq.trans ?_ left)
          rw [List.filterMap_append, opensNothing, List.nil_append]
        · rw [List.findSome?_cons, List.findSome?_append, reported, laterReported]
          rfl

/-- Closing hooks asks each of them, and the first failure is the result. -/
theorem exists_watches_closeAll (hooks : List (Nat × Hook (StateM σ))) (s : σ) :
    ∃ failure? events s', Watches (closeAll (watchedAll hooks)) (closeAll (hooks.map Prod.snd))
        failure? failure? events s s' ∧
      events.map HookEvent.request = closingRequests hooks ∧
      events.findSome? HookEvent.error? = failure? := by
  induction hooks generalizing s with
  | nil => exact ⟨none, [], s, .pure _ _ s, rfl, rfl⟩
  | cons hook hooks ih =>
    obtain ⟨answer, s₁, called⟩ := Watches.answer hook.2 hook.1 .closing s
    obtain ⟨failure?, events, s₂, closed, asked, reported⟩ := ih s₁
    have all := congrArg (List.cons (⟨hook.1, hook.2.name, .closing⟩ : HookRequest)) asked
    cases answer with
    | error failure =>
      refine ⟨some ⟨hook.2.name, failure⟩, ⟨⟨hook.1, hook.2.name, .closing⟩, .error failure⟩ :: events,
        s₂, ?_, all, rfl⟩
      rw [← List.append_nil events]
      exact called.bind (closed.bind (.pure _ _ s₂))
    | ok =>
      refine ⟨failure?, ⟨⟨hook.1, hook.2.name, .closing⟩, .ok ()⟩ :: events, s₂, ?_, all, reported⟩
      rw [← List.append_nil events]
      exact called.bind (closed.bind (.pure _ _ s₂))

theorem exists_watches_runHooks (tokens : TokenTable) (hooks : List (Hook (StateM σ))) (s : σ) :
    ∃ result trace s', Watches (runHooks (watchedFrom 0 hooks) tokens) (runHooks hooks tokens)
        result result trace s s' ∧
      HookDiscipline tokens (hooks.map Hook.name) trace result := by
  obtain ⟨opened, failure?, serving, s₁, served, made, left, reported⟩ :=
    exists_watches_serve tokens [] 0 hooks s
  obtain ⟨closingFailure?, closing, s₂, closed, asked, closingReported⟩ :=
    exists_watches_closeAll opened s₁
  have disciplined := HookDiscipline.of_order made (asked.trans left.symm)
  have first : firstFailure (serving ++ closing) =
      match failure?.or closingFailure? with
      | none => .ok ()
      | some e => .error e := by
    rw [firstFailure, List.findSome?_append, reported, closingReported]
  refine ⟨firstFailure (serving ++ closing), serving ++ (closing ++ []), s₂, served.bind (closed.bind ?_), ?_⟩
  · rw [first]
    cases failure? <;> cases closingFailure? <;> exact .pure _ _ s₂
  · rwa [List.append_nil]

end ScannerGen
