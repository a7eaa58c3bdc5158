import TolerantSql.Command.Options
import TolerantSql.Highlight.Theme
import TolerantSql.Json.Encode
import TolerantSql.Text.Utf8
import TolerantSql.Tree.Printer

/-!
# Running the command

What the command does with a source text: it parses it, writes one of four
formats, and reports how many statements there were and how many of them have
syntax errors. Syntax errors never stop it; only an input that is not text or a
theme that does not exist does.
-/

namespace TolerantSql.Command

/-- What stops the command. -/
inductive Failure where
  /-- The input cannot be read. -/
  | unreadable (path reason : String)
  /-- The input is not UTF-8 from an offset on. -/
  | invalidUtf8 (offset : Nat)
  /-- There is no such theme. -/
  | color (cause : ColorError)
  deriving DecidableEq

/-- The wording of each cause. -/
def Failure.message : Failure → String
  | unreadable path reason => "cannot read " ++ path ++ ": " ++ reason
  | invalidUtf8 offset =>
    "source is not valid UTF-8: invalid byte sequence at offset " ++ toString offset
  | color cause => cause.message

/-- **The source text in bytes.** -/
def decodeSource (bytes : List Nat) : Except Failure String :=
  match Utf8.decode bytes with
  | .ok chars => .ok (String.ofList chars)
  | .error offset => .error (.invalidUtf8 offset)

/-- **What the command has to show for itself.** -/
structure Report where
  output : String
  /-- Number of statements. -/
  statements : Nat
  /-- Number of statements with syntax errors. -/
  failed : Nat
  /-- What was logged, in order. -/
  events : List Event

namespace Report

/-- The exit code of the command. -/
def exitCode (r : Report) (failOnError : Bool) : Nat := if failOnError && r.failed > 0 then 1 else 0

/-- The log lines to show: more of them when asked to be verbose. -/
def logLines (r : Report) (verbose : Bool) : List String :=
  let least : LogLevel := if verbose then .debug else .info
  (r.events.filter fun e => least.rank ≤ e.level.rank).map Event.render

end Report

/-- The events of the statement with a number: that it is accepted, or each of
its errors. -/
def statementEvents (index : Nat) (s : Statement) : List Event :=
  match s.tree.errors with
  | [] => [.statementAccepted index]
  | errors => errors.map fun e => .statementError index e.message

/-- The events of all statements, the first of which has the given number. -/
def eventsFrom (index : Nat) : List Statement → List Event
  | [] => []
  | s :: rest => statementEvents index s ++ eventsFrom (index + 1) rest

/-- A token on a line of its own: place, kind and text. -/
def tokenLine (t : Token) : String :=
  t.span.render ++ "\t" ++ t.kind.render ++ "\t" ++ Quoted.string t.text ++ "\n"

/-- The text of each format. -/
def render (options : Options) (source : String) (color : Bool) (statements : List Statement) :
    Except Failure String :=
  match options.format with
  | .tokens =>
    .ok (String.join (((tokenize source).filter (·.kind != .whitespace)).map tokenLine))
  | .tree => .ok (String.join (statements.map fun s => s.tree.render ++ "\n"))
  | .json => .ok ((Json.array (statements.map Statement.toJson)).pretty ++ "\n")
  | .highlight =>
    match Theme.ofName options.theme with
    | .error cause => .error (.color cause)
    | .ok theme => .ok (if color then TolerantSql.highlight source theme else source)

/-- **Runs the command on a source text.** -/
def run (options : Options) (source : String) (color : Bool) : Except Failure Report := do
  let statements := parse source
  let failed := (statements.filter Statement.hasErrors).length
  let output ← render options source color statements
  return {
    output
    statements := statements.length
    failed
    events := parseLog source ++ eventsFrom 0 statements
      ++ [.parsedInput statements.length failed] }

end TolerantSql.Command
