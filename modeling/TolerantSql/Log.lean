import TolerantSql.Text.Quoted

/-!
# Log events

What parsing and the command report about their work, as data. `Event.render`
is the line a log shows: the level in five columns, the message, and the
event's fields with text in quotes and numbers plain. The report of a token that
does not fit is text of its own behind the fields, without a name or quotes.
-/

namespace TolerantSql

/-- How important an event is, least important first. -/
inductive LogLevel where
  | trace | debug | info | warn
  deriving DecidableEq

namespace LogLevel

/-- The level's name in five columns. -/
def render : LogLevel → String
  | trace => "TRACE"
  | debug => "DEBUG"
  | info => " INFO"
  | warn => " WARN"

/-- Position in the order of importance. -/
def rank : LogLevel → Nat
  | trace => 0
  | debug => 1
  | info => 2
  | warn => 3

end LogLevel

/-- **Something worth reporting.** Offsets are those of the current token. -/
inductive Event where
  /-- A statement begins. -/
  | parsingStatement (offset : Nat)
  /-- Something expected is absent. -/
  | missing (offset : Nat) (what : String)
  /-- The current token does not fit. -/
  | unexpectedToken (offset : Nat) (message : String)
  /-- Recovery passed over tokens. -/
  | skippedTokens (count offset : Nat)
  /-- An expression nested too deeply was passed over. -/
  | skippedNested (count offset : Nat)
  /-- A statement is complete; its kind is that of its first inner node. -/
  | parsedStatement (offset : Nat) (kind : String) (errors : Nat)
  /-- A statement of the input is free of errors. -/
  | statementAccepted (index : Nat)
  /-- A statement of the input has an error. -/
  | statementError (index : Nat) (message : String)
  /-- The whole input has been read. -/
  | parsedInput (statements failed : Nat)
  deriving DecidableEq

namespace Event

def level : Event → LogLevel
  | parsingStatement _ | missing .. | unexpectedToken .. => .trace
  | skippedTokens .. | skippedNested .. => .trace
  | parsedStatement .. | statementAccepted _ => .debug
  | statementError .. => .warn
  | parsedInput .. => .info

/-- A field with a number. -/
def number (name : String) (n : Nat) : String := " " ++ name ++ "=" ++ toString n

/-- A field with text. -/
def text (name value : String) : String := " " ++ name ++ "=" ++ Quoted.string value

/-- The message of an event with its fields. -/
def describe : Event → String
  | parsingStatement offset => "parsing statement" ++ number "offset" offset
  | missing offset what => "missing" ++ number "offset" offset ++ text "what" what
  | unexpectedToken offset message =>
    "unexpected token" ++ number "offset" offset ++ " " ++ message
  | skippedTokens count offset =>
    "skipped tokens" ++ number "tokens" count ++ number "offset" offset
  | skippedNested count offset =>
    "skipped nested expression" ++ number "tokens" count ++ number "offset" offset
  | parsedStatement offset kind errors =>
    "parsed statement" ++ number "offset" offset ++ text "kind" kind ++ number "errors" errors
  | statementAccepted index => "statement parsed" ++ number "statement" index
  | statementError index message => message ++ number "statement" index
  | parsedInput statements failed =>
    "parsed input" ++ number "statements" statements ++ number "failed" failed

/-- **The log line of an event.** -/
def render (e : Event) : String := e.level.render ++ " " ++ e.describe

end Event

end TolerantSql
