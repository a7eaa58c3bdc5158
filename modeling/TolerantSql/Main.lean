import TolerantSql.Command.Run

/-!
# The command

Reads its arguments and environment, reads the input, runs, and prints: the
result to the standard output, the log to the standard error. Everything it
decides is decided by `TolerantSql.Command`.
-/

namespace TolerantSql.Command

/-- The text shown when help is asked for. -/
def usage : String :=
  "Inspect SQL: tokens, parse trees, JSON or highlighted source\n\n"
    ++ "Usage: [OPTIONS] [FILE]\n\n"
    ++ "  FILE                    Input file; standard input when absent or -\n"
    ++ "  -f, --format <FORMAT>   tokens, tree, json or highlight\n"
    ++ "      --theme <THEME>     ansi or rgb\n"
    ++ "      --color <COLOR>     auto, always or never\n"
    ++ "      --fail-on-error     Exit with status 1 on a syntax error\n"
    ++ "  -v, --verbose           Log more\n"
    ++ "  -h, --help              Print help\n"
    ++ "  -V, --version           Print version\n"

/-- What is wrong with the arguments. -/
def UsageError.message : UsageError → String
  | invalidValue => "error: a value is missing or not allowed"
  | unknownArgument => "error: unknown argument"
  | argumentConflict => "error: an option is given more than once"
  | tooManyValues => "error: an option takes no value"
  | displayHelp => usage
  | displayVersion => "0.1.0"

/-- Reads a stream to its end. -/
partial def readToEnd (stream : IO.FS.Stream) (read : ByteArray) : IO ByteArray := do
  let chunk ← stream.read 65536
  if chunk.isEmpty then return read else readToEnd stream (read ++ chunk)

/-- Why a file cannot be read. -/
def reasonOf : IO.Error → String
  | .noFileOrDirectory .. => "No such file or directory (os error 2)"
  | e => toString e

/-- The bytes of the input that the options name. -/
def readInput (file : Option String) : IO (Except Failure ByteArray) := do
  let path := file.getD "-"
  try
    if path == "-" then return .ok (← readToEnd (← IO.getStdin) .empty)
    else return .ok (← IO.FS.readBinFile path)
  catch e => return .error (.unreadable path (reasonOf e))

/-- Runs with options that have been read. -/
def runWith (options : Options) : IO UInt32 := do
  let stdout ← IO.getStdout
  let color := options.color.enabled (← stdout.isTty)
  let input ← readInput options.file
  let result : Except Failure Report := do
    let source ← decodeSource ((← input).toList.map UInt8.toNat)
    run options source color
  match result with
  | .error failure =>
    IO.eprintln failure.message
    return 1
  | .ok report =>
    for line in report.logLines options.verbose do
      IO.eprintln line
    stdout.putStr report.output
    stdout.flush
    return UInt32.ofNat (report.exitCode options.failOnError)

end TolerantSql.Command

open TolerantSql.Command in
/-- Runs the command. -/
def main (args : List String) : IO UInt32 := do
  let env : Environment := ⟨← IO.getEnv "SQLFRONT_FORMAT", ← IO.getEnv "SQLFRONT_COLOR"⟩
  match Options.parse env args with
  | .ok options => runWith options
  | .error .displayHelp => IO.print UsageError.displayHelp.message; return 0
  | .error .displayVersion => IO.println UsageError.displayVersion.message; return 0
  | .error cause => IO.eprintln cause.message; return 2
