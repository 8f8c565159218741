import ScannerGen.Code.Item
import ScannerGen.Options
import ScannerGen.Tables
import ScannerGen.Token

/-!
# Tables as C arrays

The tables of a scanner and the facts about its tokens, as constant arrays.  An array that is
indexed by an action has an entry for "no token" in front: action `n + 1` is token `n`.
-/

namespace ScannerGen.Emit

open Code

def sizes (tables : Tables) (tokens : TokenTable) : List Item :=
  [.define "YY_NUM_STATES" (some (toString tables.stateCount)),
   .define "YY_NUM_CLASSES" (some (toString tables.classCount)),
   .define "YY_NUM_TOKENS" (some (toString tokens.size)),
   .define "YY_JAM_STATE" (some (toString tables.reject)),
   .define "YY_START_STATE" (some (toString tables.start)),
   .blank]

/-- The action of a state: the number of its token plus one, or zero. -/
def action (tables : Tables) (state : Nat) : Nat :=
  match tables.token? state with
  | some token => token + 1
  | none => 0

def flagValue (flag : Bool) : Nat := if flag then 1 else 0

def actions (tables : Tables) : List Nat := (List.range tables.stateCount).map (action tables)

/-- For each action, whether its token is ignored. -/
def skips (tokens : TokenTable) : List Nat :=
  0 :: tokens.tokens.map fun t => flagValue t.ignored

/-- For each action, whether its matches can contain a newline. -/
def lineEnds (tables : Tables) (tokens : TokenTable) : List Nat :=
  0 :: (List.range tokens.size).map fun index => flagValue (tables.endsLine index)

def tokenIds (tokens : TokenTable) : List Nat := 0 :: tokens.tokens.map Token.id

def tokenNames (tokens : TokenTable) : List String :=
  "TOK_EOF" :: tokens.tokens.map Token.constant

def arrays (tables : Tables) (tokens : TokenTable) (options : Options) : List Item :=
  [.array (.ofGreatest tables.classCount) "yy_ec" tables.classOf.toList, .blank,
   .matrix (.ofGreatest tables.stateCount) "yy_nxt" "YY_NUM_STATES" "YY_NUM_CLASSES"
     (tables.next.toList.map Array.toList), .blank,
   .array (.ofGreatest tokens.size) "yy_accept" (actions tables), .blank,
   .array .unsignedChar "yy_skip" (skips tokens), .blank] ++
    (if options.lineno then
      [.array .unsignedChar "yy_eol" (lineEnds tables tokens), .blank] else []) ++
    [.array .int "yy_token_id" (tokenIds tokens), .blank,
     .nameArray "yy_token_name" (tokenNames tokens), .blank]

end ScannerGen.Emit
