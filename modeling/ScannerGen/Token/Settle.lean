import ScannerGen.Token

/-!
# Settling declarations

Declarations become tokens once their identifiers, ranks and numeric ids are settled.  This
module states what can be wrong with a list of declarations, finds the first fault, and
settles a list without one.

* Identifiers are those declared, or those of the categories; they have to be C identifiers
  and all different.
* The rank is the place in the order.  The catch-all, of which there may be one, ranks behind
  all others.
* Declared ids stay as they are; the rest get the smallest positive numbers that are left, in
  the order of the declarations.
-/

namespace ScannerGen

/-- Who has a numeric id already: the end of input has zero. -/
inductive IdHolder where
  | endOfInput
  | token (ref : TokenRef)
  deriving DecidableEq, Repr

def IdHolder.describe : IdHolder → String
  | endOfInput => "TOK_EOF"
  | token ref => ref.describe

/-- What is wrong with a list of declarations. -/
inductive TokenError where
  | noTokens
  | badIdentifier (ident : String) (origin : Origin)
  | patternRequired (ref : TokenRef)
  | secondCatchAll (first second : TokenRef)
  | ignoredWithAction (ident : String) (origin : Origin)
  | duplicateIdentifier (ident : String) (first second : TokenRef)
  | duplicateId (id : Nat) (first : IdHolder) (second : TokenRef)
  deriving DecidableEq, Repr

def TokenError.message : TokenError → String
  | noTokens => "no tokens declared; the scanner needs at least one rule"
  | badIdentifier ident origin =>
    s!"syntax error ({origin.text}): token identifier `{ident}` is not a valid C identifier"
  | patternRequired ref =>
    s!"invalid pattern for {ref.describe} at byte 0: " ++
      "only the `unknown` category may omit its pattern"
  | secondCatchAll first second =>
    s!"only one pattern-less catch-all token is allowed: {first.describe} and {second.describe}"
  | ignoredWithAction ident origin =>
    s!"syntax error ({origin.text}): token `{ident}` cannot be both ignored and carry an action"
  | duplicateIdentifier ident first second =>
    s!"identifier `{ident}` is claimed by {first.describe} and {second.describe}"
  | duplicateId id first second =>
    s!"numeric id {id} is claimed by {first.describe} and {second.describe}"

/-! ## Faults -/

/-- The fault of a single declaration, given the catch-all before it, if any. -/
def Declaration.fault? (d : Declaration) (index : Nat) (catchAll : Option TokenRef) :
    Option TokenError :=
  if Ascii.isIdentifier d.resolvedIdent = false then
    some (.badIdentifier d.resolvedIdent d.origin)
  else if d.pattern.isNone && d.category != .unknown then some (.patternRequired (d.ref index))
  else
    match d.pattern, catchAll with
    | none, some first => some (.secondCatchAll first (d.ref index))
    | _, _ =>
      if d.ignored && d.action.isSome then some (.ignoredWithAction d.resolvedIdent d.origin)
      else none

/-- The first fault of a declaration by itself, in order. -/
def firstFault? (index : Nat) (catchAll : Option TokenRef) : List Declaration → Option TokenError
  | [] => none
  | d :: ds =>
    match d.fault? index catchAll with
    | some fault => some fault
    | none =>
      firstFault? (index + 1) (if d.pattern.isNone then some (d.ref index) else catchAll) ds

/-- The first element of a list whose key an element before it has, behind that one. -/
def firstRepeat? {α κ : Type} [BEq κ] (key : α → κ) (before : List α) : List α → Option (α × α)
  | [] => none
  | x :: xs =>
    match before.find? fun y => key y == key x with
    | some y => some (y, x)
    | none => firstRepeat? key (before ++ [x]) xs

/-- How messages refer to each of a list of declarations. -/
def declarationRefs (ds : List Declaration) : List TokenRef := ds.mapIdx fun index d => d.ref index

def declaredIds (ds : List Declaration) : List (Nat × IdHolder) :=
  (ds.mapIdx fun index d => d.id.map fun id => (id, IdHolder.token (d.ref index))).filterMap
    (fun claim => claim)

/-- Two tokens with one identifier. -/
def identifierFault? (ds : List Declaration) : Option TokenError :=
  (firstRepeat? TokenRef.ident [] (declarationRefs ds)).map fun (first, second) =>
    .duplicateIdentifier second.ident first second

/-- Two holders of one id. -/
def idFault? (ds : List Declaration) : Option TokenError :=
  match firstRepeat? Prod.fst [(0, IdHolder.endOfInput)] (declaredIds ds) with
  | some ((_, first), (id, .token second)) => some (.duplicateId id first second)
  | _ => none

/-! ## Settled tokens -/

/-- The smallest positive numbers outside a list, `count` of them in ascending order. -/
def freeIds (taken : List Nat) (count : Nat) : List Nat :=
  ((List.range' 1 (count + taken.length)).filter fun id => !taken.contains id).take count

/-- The id of each declaration: its own, or the next of the free ones. -/
def assignIds : List Declaration → List Nat → List Nat
  | [], _ => []
  | d :: ds, free =>
    match d.id, free with
    | some id, _ => id :: assignIds ds free
    | none, id :: others => id :: assignIds ds others
    | none, [] => 0 :: assignIds ds []

def settledIds (ds : List Declaration) : List Nat :=
  assignIds ds (freeIds (ds.filterMap Declaration.id) ds.length)

/-- A declaration with its rank and id. -/
def Declaration.settle (d : Declaration) (index total id : Nat) : Token where
  index := index
  priority := if d.pattern.isNone then total else index
  pattern := d.pattern
  category := d.category
  ident := d.resolvedIdent
  id := id
  action := d.action
  ignored := d.ignored
  origin := d.origin

/-- The tokens of a list of declarations, or its first fault: first those of single
declarations, then identifiers, then ids. -/
def settle (ds : List Declaration) : Except TokenError TokenTable :=
  if ds = [] then .error .noTokens
  else
    match firstFault? 0 none ds with
    | some fault => .error fault
    | none =>
      match identifierFault? ds with
      | some fault => .error fault
      | none =>
        match idFault? ds with
        | some fault => .error fault
        | none =>
          .ok ⟨(ds.zip (settledIds ds)).mapIdx fun index (d, id) => d.settle index ds.length id⟩

end ScannerGen
