/-!
# Command-line options

The options of the command and how they are read from its arguments. Arguments
are read from left to right. A value that is an argument of its own is *pending*
until something else is read, and is checked only then: so an argument that is
not known at all is reported before a bad value to the left of it, while an
option that is known has the value before it checked first. What the arguments
leave open is taken from the environment, and what that leaves open has a
default.
-/

namespace TolerantSql.Command

/-- What to print. -/
inductive Format where
  | tokens | tree | json | highlight
  deriving DecidableEq

/-- When to use colors. -/
inductive ColorChoice where
  | auto | always | never
  deriving DecidableEq

/-- Whether to use colors on an output that is or is not a terminal. -/
def ColorChoice.enabled (choice : ColorChoice) (terminal : Bool) : Bool :=
  match choice with
  | auto => terminal
  | always => true
  | never => false

/-- The names of the formats. -/
def Format.named : List (String × Format) :=
  [("tokens", tokens), ("tree", tree), ("json", json), ("highlight", highlight)]

/-- The names of the choices. -/
def ColorChoice.named : List (String × ColorChoice) :=
  [("auto", auto), ("always", always), ("never", never)]

/-- Why arguments cannot be used, or are not meant to be. -/
inductive UsageError where
  /-- A value is absent or not one of those allowed. -/
  | invalidValue
  /-- An argument is not known. -/
  | unknownArgument
  /-- An option is given twice. -/
  | argumentConflict
  /-- A value is attached to an option that takes none. -/
  | tooManyValues
  /-- Help is asked for. -/
  | displayHelp
  /-- The version is asked for. -/
  | displayVersion
  deriving DecidableEq

/-- **What the command is asked to do.** -/
structure Options where
  /-- The input file, if one is named. -/
  file : Option String
  format : Format
  theme : String
  color : ColorChoice
  /-- Whether a syntax error makes the command fail. -/
  failOnError : Bool
  verbose : Bool
  deriving DecidableEq

/-- What the environment says about options that have a variable. -/
structure Environment where
  format : Option String
  color : Option String
  deriving DecidableEq

/-- What the arguments read so far say. -/
structure Given where
  file : Option String
  format : Option Format
  theme : Option String
  color : Option ColorChoice
  failOnError : Bool
  verbose : Bool
  deriving DecidableEq

/-- Arguments that take a value. -/
inductive Slot where
  | file | format | theme | color
  deriving DecidableEq

/-- Arguments that take none. -/
inductive Switch where
  | failOnError | verbose | help | version
  deriving DecidableEq

/-- An option is one or the other. -/
inductive Opt where
  | slot (slot : Slot)
  | switch (switch : Switch)
  deriving DecidableEq

namespace Opt

/-- The option with a long name. -/
def ofLong? (name : String) : Option Opt :=
  [("format", slot .format), ("theme", slot .theme), ("color", slot .color),
    ("fail-on-error", switch .failOnError), ("verbose", switch .verbose), ("help", switch .help),
    ("version", switch .version)].lookup name

/-- The option with a short name. -/
def ofShort? (name : Char) : Option Opt :=
  [('f', slot .format), ('v', switch .verbose), ('h', switch .help),
    ('V', switch .version)].lookup name

end Opt

/-- A place in the arguments. -/
structure Reading where
  given : Given
  /-- What takes the value that was read last, or takes the next one. -/
  pending : Option (Slot × Option String)
  /-- Whether only file names can follow. -/
  onlyFiles : Bool
  /-- Whether a file has been named. -/
  fileNamed : Bool
  deriving DecidableEq

/-- A format or a choice by its name. -/
def named {α : Type} (names : List (String × α)) (value : String) : Except UsageError α :=
  match names.lookup value with
  | some a => .ok a
  | none => .error .invalidValue

/-- Uses a value. An option that has one already is given twice. -/
def Given.assign (g : Given) (slot : Slot) (value : String) : Except UsageError Given :=
  match slot with
  | .file =>
    if value.isEmpty then .error .invalidValue else .ok { g with file := some value }
  | .format => do
    if g.format.isSome then throw .argumentConflict
    return { g with format := some (← named Format.named value) }
  | .theme =>
    if g.theme.isSome then .error .argumentConflict else .ok { g with theme := some value }
  | .color => do
    if g.color.isSome then throw .argumentConflict
    return { g with color := some (← named ColorChoice.named value) }

/-- Turns a switch on. -/
def Given.turnOn (g : Given) : Switch → Except UsageError Given
  | .failOnError =>
    if g.failOnError then .error .argumentConflict else .ok { g with failOnError := true }
  | .verbose => if g.verbose then .error .argumentConflict else .ok { g with verbose := true }
  | .help => .error .displayHelp
  | .version => .error .displayVersion

namespace Reading

/-- Nothing read yet. -/
def start : Reading := ⟨⟨none, none, none, none, false, false⟩, none, false, false⟩

/-- **Uses the pending value.** An option still without one lacks it. -/
def settle (r : Reading) : Except UsageError Reading :=
  match r.pending with
  | none => .ok r
  | some (_, none) => .error .invalidValue
  | some (slot, some value) => do
    return { r with given := ← r.given.assign slot value, pending := none }

/-- An option with a value attached to it. -/
def attach (r : Reading) (slot : Slot) (value : String) : Except UsageError Reading := do
  let r ← r.settle
  return { r with given := ← r.given.assign slot value }

/-- An option whose value is to follow. -/
def await (r : Reading) (slot : Slot) : Except UsageError Reading := do
  let r ← r.settle
  return { r with pending := some (slot, none) }

/-- A switch. -/
def turnOn (r : Reading) (switch : Switch) : Except UsageError Reading := do
  let r ← r.settle
  return { r with given := ← r.given.turnOn switch }

/-- An argument that is no option: the value of the option before it, or the
name of the file. -/
def plain (r : Reading) (arg : String) : Except UsageError Reading :=
  match r.pending with
  | some (slot, none) =>
    if r.onlyFiles then nameFile r arg else .ok { r with pending := some (slot, some arg) }
  | _ => nameFile r arg
where
  /-- The name of the file; there is only one. -/
  nameFile (r : Reading) (arg : String) : Except UsageError Reading := do
    if r.fileNamed then throw .unknownArgument
    let r ← r.settle
    return { r with pending := some (.file, some arg), fileNamed := true }

/-- An option by its long name, with the value attached to it if there is
one. -/
def long (r : Reading) (name : String) (value : Option String) : Except UsageError Reading :=
  match Opt.ofLong? name, value with
  | none, _ => .error .unknownArgument
  | some (.slot slot), some value => r.attach slot value
  | some (.slot slot), none => r.await slot
  | some (.switch _), some _ => .error .tooManyValues
  | some (.switch switch), none => r.turnOn switch

/-- Options by their short names. What stands behind an option that takes a
value is its value, with or without an equals sign. -/
def shorts (r : Reading) : List Char → Except UsageError Reading
  | [] => .ok r
  | name :: rest =>
    match Opt.ofShort? name with
    | none => .error .unknownArgument
    | some (.switch switch) => do shorts (← r.turnOn switch) rest
    | some (.slot slot) =>
      match rest with
      | [] => r.await slot
      | '=' :: value => r.attach slot (String.ofList value)
      | value => r.attach slot (String.ofList value)

/-- **Reads one argument.** -/
def read (r : Reading) (arg : String) : Except UsageError Reading :=
  if r.onlyFiles then r.plain arg
  else
    match arg.toList with
    | ['-', '-'] => .ok { r with onlyFiles := true }
    | '-' :: '-' :: option =>
      let name := String.ofList (option.takeWhile (· != '='))
      match option.dropWhile (· != '=') with
      | [] => r.long name none
      | _ :: value => r.long name (some (String.ofList value))
    | '-' :: name :: names => r.shorts (name :: names)
    | _ => r.plain arg

end Reading

/-- What the arguments say, then the environment, then the defaults. -/
def Given.complete (g : Given) (env : Environment) : Except UsageError Options := do
  let format ← match g.format, env.format with
    | some format, _ => pure format
    | none, some name => named Format.named name
    | none, none => pure .tree
  let color ← match g.color, env.color with
    | some color, _ => pure color
    | none, some name => named ColorChoice.named name
    | none, none => pure .auto
  return ⟨g.file, format, g.theme.getD "ansi", color, g.failOnError, g.verbose⟩

/-- **Reads the arguments of the command.** -/
def Options.parse (env : Environment) (args : List String) : Except UsageError Options := do
  let r ← args.foldlM Reading.read Reading.start
  let r ← r.settle
  r.given.complete env

end TolerantSql.Command
