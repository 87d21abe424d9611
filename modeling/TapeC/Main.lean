import TapeC.Command.Session

namespace TapeC.Command

/-- The number of a system error, which may come negated. -/
def systemNumber (code : UInt32) : UInt32 := min code (0 - code)

/-- The reason of a failed file operation, by the number that the system gives it. -/
def pathError : IO.Error → PathError
  | .permissionDenied .. => .denied
  | .inappropriateType _ code _ =>
    if systemNumber code == 20 then .notADirectory else .isADirectory
  | .invalidArgument _ code _ =>
    if systemNumber code == 36 then .nameTooLong else .notFound
  | _ => .notFound

/-- The reason of a failed stream. -/
def streamError : IO.Error → StreamError
  | .resourceVanished .. => ⟨"Broken pipe (os error 32)"⟩
  | .resourceExhausted .. => ⟨"No space left on device (os error 28)"⟩
  | .inappropriateType .. => ⟨"Is a directory (os error 21)"⟩
  | e => ⟨toString e⟩

def readBytes (path : String) : IO (Except PathError (List UInt8)) := do
  try
    return .ok (← IO.FS.readBinFile path).toList
  catch e => return .error (pathError e)

def readStdin : IO (Except StreamError (List UInt8)) := do
  try
    return .ok (← (← IO.getStdin).readBinToEnd).toList
  catch e => return .error (streamError e)

def writeStdout (bytes : List UInt8) : IO (Option StreamError) := do
  let stdout ← IO.getStdout
  try
    stdout.write bytes.toByteArray
    stdout.flush
    return none
  catch e => return some (streamError e)

def showLines (lines : List String) : IO Unit := lines.forM IO.eprintln

/-- Carries out a plan on real files. -/
def carryOut (threshold : Threshold) (exit : Exit) : List Action → IO Exit
  | [] => return exit
  | .log entry :: rest => do
    if threshold.shows entry then showLines (textLines entry.line)
    carryOut threshold exit rest
  | .print bytes :: rest => do
    match ← writeStdout (bytes.take (atOnce bytes)) with
    | some error => return .failure (printReport error)
    | none =>
      discard <| writeStdout (bytes.drop (atOnce bytes))
      carryOut threshold exit rest
  | .write path text :: rest => do
    let written ← try
        IO.FS.writeFile path text
        pure none
      catch e => pure (some (pathError e))
    match written with
    | none => carryOut threshold exit rest
    | some error => return .failure (writeReport path error)

def work (options : Options) : IO Exit := do
  let asked := (← IO.getEnv "RUST_LOG").bind Threshold.ofName?
  let settings ← readBytes (options.settings.getD "")
  let source ← readBytes options.input
  let stdin ← if options.run then readStdin else pure (.ok [])
  let plan := plan options ⟨decodeText settings, decodeText source, stdin⟩
  carryOut (.resolve asked options.verbose) plan.exit plan.actions

end TapeC.Command

open TapeC.Command

def main (arguments : List String) : IO UInt32 := do
  let exit ← match Request.ofArguments arguments with
    | .usageError => do
      IO.eprintln "Usage: bft [OPTIONS] <INPUT>"
      pure Exit.usageError
    | .help => do
      discard <| writeStdout helpText.toUTF8.toList
      pure Exit.success
    | .version => do
      discard <| writeStdout versionText.toUTF8.toList
      pure Exit.success
    | .work options => work options
  if let .failure report := exit then showLines report.lines
  return exit.code.toUInt32
