import ScannerGen.Automaton.Minimal
import ScannerGen.Automaton.Subset
import ScannerGen.Pattern.Parser
import ScannerGen.Tables
import ScannerGen.Token

/-!
# Building tables

From tokens and macros to scanner tables: every pattern is read, all of them are compiled into
one automaton, that one is made deterministic, minimized if asked for, and its columns are
compressed.

Two findings are reported beside the tables.  A token whose pattern matches the empty string
is told that such matches are ignored, and a token that wins no state is told so, with the
token that wins where it could have matched first.
-/

namespace ScannerGen

/-- A finding that does not stop the generation. -/
inductive Warning where
  /-- The token wins no state; the token that takes its matches, if it matches at all. -/
  | unreachable (token : TokenRef) (shadowedBy : Option TokenRef)
  /-- The pattern matches the empty string. -/
  | matchesEmpty (token : TokenRef)
  deriving DecidableEq, Repr

def Warning.message : Warning → String
  | unreachable token (some winner) =>
    s!"{token.describe} can never be matched; {winner.describe} always wins"
  | unreachable token none => s!"{token.describe} can never be matched"
  | matchesEmpty token =>
    s!"{token.describe} matches the empty string; empty matches are ignored"

/-- The tree of a token's pattern.  The catch-all matches any single byte. -/
def Token.tree (t : Token) (macros : MacroTable) : Except Pattern.Error Pattern :=
  match t.pattern with
  | some text => Pattern.parse macros (.token t.ref) text
  | none => .ok (.set .full)

/-- The trees of all tokens, or the first error. -/
def TokenTable.trees (tokens : TokenTable) (macros : MacroTable) :
    Except Pattern.Error (List Pattern) :=
  tokens.tokens.mapM fun t => t.tree macros

def TokenTable.rank (tokens : TokenTable) (index : Nat) : Nat :=
  ((tokens.get? index).map Token.priority).getD 0

namespace Tables

/-- The tables of a deterministic automaton, with one class for each distinct column. -/
def ofDfa (dfa : Dfa) (endsLines : Array Bool) : Tables :=
  let classes := dfa.columnClasses
  let representatives := classes.representatives.toArray
  { classOf := classes.classOf
    classCount := classes.size
    next := dfa.states.map fun state => representatives.map state.next
    tokenMap := dfa.states.map Dfa.State.token
    start := dfa.start
    reject := dfa.reject
    endsLines }

/-- Tables together with the findings on the way. -/
structure Built where
  tables : Tables
  warnings : List Warning
  deriving Inhabited

/-- The tokens whose patterns match the empty string. -/
def emptyWarnings (tokens : TokenTable) (trees : List Pattern) : List Warning :=
  (tokens.tokens.zip trees).filterMap fun (t, tree) =>
    if tree.nullable then some (.matchesEmpty t.ref) else none

/-- The winner of the first state, the start apart, in which a token is a candidate. -/
def shadow? (automaton : Nfa.Determinized) (token : Nat) : Option Nat :=
  (List.range automaton.dfa.size).find? (fun s =>
    s != automaton.dfa.start && (automaton.candidates.getD s []).contains token)
    |>.bind automaton.dfa.token?

/-- The tokens that win no state. -/
def unreachableWarnings (tokens : TokenTable) (automaton : Nfa.Determinized) : List Warning :=
  let winners := automaton.dfa.states.toList.filterMap Dfa.State.token
  tokens.tokens.filterMap fun t =>
    if winners.contains t.index then none
    else
      some (.unreachable t.ref
        ((shadow? automaton t.index).bind fun w => (tokens.get? w).map Token.ref))

/-- The tables for patterns that have been read. -/
def ofTrees (tokens : TokenTable) (trees : List Pattern) (minimize : Bool) : Built :=
  let automaton := (Nfa.ofPatterns trees).determinize tokens.rank
  let dfa := if minimize then automaton.dfa.minimize else automaton.dfa
  { tables := ofDfa dfa (trees.toArray.map (Pattern.mentions Ascii.newline))
    warnings := emptyWarnings tokens trees ++ unreachableWarnings tokens automaton }

/-- The tables of a scanner. -/
def build (tokens : TokenTable) (macros : MacroTable) (minimize : Bool) :
    Except Pattern.Error Built :=
  (tokens.trees macros).map fun trees => ofTrees tokens trees minimize

end Tables

end ScannerGen
