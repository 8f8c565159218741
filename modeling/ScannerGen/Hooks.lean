import ScannerGen.Files
import ScannerGen.Token

/-!
# Hooks

Hooks see the settled tokens of a generation that has succeeded.  Each hook is opened, told the
tokens, told the ids by category, and closed at the end.

* The first call that fails ends the calls that inform hooks.
* Every hook that was opened is closed, in the order of opening, after all other calls.
* The failure that is reported is the first one.
-/

namespace ScannerGen

/-- One call of a hook. -/
inductive HookCall where
  | opening
  | tokens (tokens : TokenTable)
  | tokenIds (ids : CategoryIds)
  | closing
  deriving DecidableEq, Repr

/-- A hook: how messages call it, and how it answers calls. -/
structure Hook (m : Type → Type) where
  name : String
  answer : HookCall → m (Except IoError Unit)

/-- A call that failed. -/
structure HookError where
  name : String
  failure : IoError
  deriving DecidableEq, Repr

def HookError.message (e : HookError) : String := s!"hook `{e.name}` failed: {e.failure.message}"

section Running

variable {m : Type → Type} [Monad m]

/-- Makes calls up to the first one that fails. -/
def Hook.answerAll (hook : Hook m) : List HookCall → m (Except IoError Unit)
  | [] => pure (.ok ())
  | call :: calls => do
    match ← hook.answer call with
    | .ok () => hook.answerAll calls
    | .error e => pure (.error e)

/-- The calls of an opened hook before it is closed. -/
def informing (tokens : TokenTable) : List HookCall :=
  [.tokens tokens, .tokenIds tokens.categoryIds]

/-- The hooks that were opened, in order, and the failure that ended the calls, if any. -/
structure Served (m : Type → Type) where
  opened : List (Hook m)
  failure? : Option HookError

/-- Opens and informs hooks behind those that are open. -/
def serve (tokens : TokenTable) (opened : List (Hook m)) : List (Hook m) → m (Served m)
  | [] => pure ⟨opened, none⟩
  | hook :: hooks => do
    match ← hook.answer .opening with
    | .error e => pure ⟨opened, some ⟨hook.name, e⟩⟩
    | .ok () =>
      match ← hook.answerAll (informing tokens) with
      | .error e => pure ⟨opened ++ [hook], some ⟨hook.name, e⟩⟩
      | .ok () => serve tokens (opened ++ [hook]) hooks

/-- Closes hooks in order; the first failure. -/
def closeAll : List (Hook m) → m (Option HookError)
  | [] => pure none
  | hook :: hooks => do
    let result ← hook.answer .closing
    let others ← closeAll hooks
    match result with
    | .ok () => pure others
    | .error e => pure (some ⟨hook.name, e⟩)

/-- Runs hooks on settled tokens. -/
def runHooks (hooks : List (Hook m)) (tokens : TokenTable) : m (Except HookError Unit) := do
  let served ← serve tokens [] hooks
  let closing ← closeAll served.opened
  match served.failure?, closing with
  | some e, _ => pure (.error e)
  | none, some e => pure (.error e)
  | none, none => pure (.ok ())

end Running

end ScannerGen
