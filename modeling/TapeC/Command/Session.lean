import TapeC.Command.Plan

namespace TapeC.Command

/-- What a call leaves behind: how it ended, what it printed, the files and the journal. -/
structure Effects where
  exit : Exit
  stdout : List UInt8
  files : Files
  journal : List Entry
deriving DecidableEq, Repr

/-- The report of a file that cannot be written. -/
def writeReport (path : String) (error : PathError) : Report :=
  ⟨"Failed to write " ++ path, some error.message⟩

/-- The report of an output that does not get through. -/
def printReport (error : StreamError) : Report := ⟨"Failed to write to stdout", some error.message⟩

/-- How files are read and written. A write that fails leaves the files as they are. -/
structure FileSystem where
  read : Files → String → Except PathError (List UInt8)
  write : Files → String → List UInt8 → Except PathError Files

/-- Files below a working directory, kept in memory. -/
def FileSystem.inMemory : FileSystem := ⟨Files.read, Files.write⟩

/-- Carries out actions on files. A file that cannot be written ends the call, and so does an output that
fails. -/
def perform (system : FileSystem) (stdout : Stdout) (exit : Exit) : List Action → Files → Effects
  | [], files => ⟨exit, [], files, []⟩
  | .log entry :: rest, files =>
    let effects := perform system stdout exit rest files
    { effects with journal := entry :: effects.journal }
  | .print bytes :: rest, files =>
    match stdout.error? bytes with
    | some error => ⟨.failure (printReport error), stdout.delivered bytes, files, []⟩
    | none =>
      let effects := perform system stdout exit rest files
      { effects with stdout := stdout.delivered bytes ++ effects.stdout }
  | .write path text :: rest, files =>
    match system.write files path text.toUTF8.toList with
    | .ok files => perform system stdout exit rest files
    | .error error => ⟨.failure (writeReport path error), [], files, []⟩

/-- What a call reads. -/
def Inputs.ofFiles (system : FileSystem) (options : Options) (files : Files)
    (stdin : Except StreamError (List UInt8)) : Inputs where
  settings := decodeText (system.read files (options.settings.getD ""))
  source := decodeText (system.read files options.input)
  stdin := stdin

def versionText : String := "bft 0.1.0\n"

def helpText : String :=
  "Translate Brainfuck to C with peephole optimizations\n\n" ++
  "Usage: bft [OPTIONS] <INPUT>\n\n" ++
  "Arguments:\n" ++
  "  <INPUT>  Brainfuck source file\n\n" ++
  "Options:\n" ++
  "  -o, --output <OUTPUT>  Write output here instead of stdout\n" ++
  "      --emit <EMIT>      What to produce [default: c] [possible values: c, ir, bf]\n" ++
  "      --passes <PASSES>  Comma separated passes, e.g. `pointer-moves,cell-adjusts,zero-idiom`\n" ++
  "      --no-opt           Skip all optimization passes\n" ++
  "      --run              Interpret the program with stdin as input instead of emitting code\n" ++
  "      --compare          Write `<stem>.unopt.c` and `<stem>.c` next to the input\n" ++
  "      --no-validate      Do not reject unbalanced loops before translating\n" ++
  "      --config <CONFIG>  JSON configuration file\n" ++
  "  -v, --verbose          Log pass statistics to stderr\n" ++
  "  -h, --help             Print help\n" ++
  "  -V, --version          Print version\n"

/-- A call of the tool on the files of a file system. Whether a text about the tool itself gets through
makes no difference to how the call ends. -/
def Request.callOn (system : FileSystem) (streams : Streams) (request : Request) (files : Files) :
    Effects :=
  match request with
  | .usageError => ⟨.usageError, [], files, []⟩
  | .help => ⟨.success, streams.stdout.delivered helpText.toUTF8.toList, files, []⟩
  | .version => ⟨.success, streams.stdout.delivered versionText.toUTF8.toList, files, []⟩
  | .work options =>
    let plan := plan options (.ofFiles system options files streams.stdin)
    perform system streams.stdout plan.exit plan.actions files

/-- A call of the tool on files in memory, with standard streams that do not fail. -/
def Request.call (request : Request) (files : Files) (stdin : List UInt8) : Effects :=
  request.callOn .inMemory ⟨.ok stdin, .endless⟩ files

/-- The lines of a text. -/
def textLines (text : String) : List String := (text.toList.splitOn '\n').map String.ofList

/-- The lines of a report, the cause indented. -/
def Report.lines (r : Report) : List String :=
  textLines ("Error: " ++ r.headline) ++
    match r.cause with
    | none => []
    | some cause => ["", "Caused by:"] ++ (textLines cause).map ("    " ++ ·)

/-- The lines that a call shows beside its output. A usage error and a crash have none of their own. -/
def Effects.diagnostics (effects : Effects) (threshold : Threshold) : Option (List String) :=
  let shown := (effects.journal.filter threshold.shows).flatMap fun e => textLines e.line
  match effects.exit with
  | .success => some shown
  | .failure report => some (shown ++ report.lines)
  | .usageError => none
  | .crash => none

end TapeC.Command
