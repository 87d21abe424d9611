import TapeC.Command.Files
import TapeC.Command.Journal
import TapeC.Command.Options
import TapeC.Command.Streams
import TapeC.Program.Json
import TapeC.Settings.Json
import TapeC.Source

namespace TapeC.Command

/-- The report of a failed call. -/
structure Report where
  headline : String
  cause : Option String := none
deriving DecidableEq, Repr

/-- How a call ends. -/
inductive Exit where
  | success
  | failure (report : Report)
  | usageError
  /-- The call breaks off without a report. -/
  | crash
deriving DecidableEq, Repr

def Exit.code : Exit → Nat
  | .success => 0
  | .failure _ => 1
  | .usageError => 2
  | .crash => 101

inductive Action where
  | log (entry : Entry)
  | write (path text : String)
  | print (bytes : List UInt8)
deriving DecidableEq, Repr

structure Plan where
  actions : List Action
  exit : Exit
deriving DecidableEq, Repr

namespace Plan

def stop (exit : Exit) : Plan := ⟨[], exit⟩

def fail (headline : String) (cause : Option String) : Plan := stop (.failure ⟨headline, cause⟩)

/-- A plan with an action before it. -/
def after (action : Action) (plan : Plan) : Plan := { plan with actions := action :: plan.actions }

/-- A plan with a message before it. -/
def logged (level : Level) (scope text : String) (plan : Plan) : Plan :=
  plan.after (.log ⟨level, scope, text⟩)

end Plan

/-- Why a file gives no text. -/
inductive ReadError where
  | path (error : PathError)
  | notText
deriving DecidableEq, Repr

def ReadError.message : ReadError → String
  | .path error => error.message
  | .notText => "stream did not contain valid UTF-8"

/-- The text of what was read. -/
def decodeText : Except PathError (List UInt8) → Except ReadError String
  | .error error => .error (.path error)
  | .ok bytes =>
    match String.fromUTF8? bytes.toByteArray with
    | some text => .ok text
    | none => .error .notText

/-- What a call reads: the settings file, if there is one, the source file, and the standard
input. -/
structure Inputs where
  settings : Except ReadError String
  source : Except ReadError String
  stdin : Except StreamError (List UInt8)

/-- The settings of a call: those of the file or the standard ones, with the passes that the options
choose. -/
def loadSettings (options : Options) (inputs : Inputs) : Except Report Settings := do
  let settings ←
    match options.settings with
    | none => pure {}
    | some path =>
      match inputs.settings with
      | .error error => throw ⟨"Failed to read config " ++ path, some error.message⟩
      | .ok text =>
        match Settings.ofJson text with
        | .error error => throw ⟨"Invalid config " ++ path, some error.message⟩
        | .ok settings => pure settings
  if options.noPasses then return { settings with peephole.passes := [] }
  else
    match options.passes with
    | none => return settings
    | some list =>
      match Pass.parseList list with
      | .error error => throw ⟨error.message, none⟩
      | .ok passes => return { settings with peephole.passes := passes }

/-- Runs code on the standard input and prints its output. -/
def planRun (limits : Limits) (code : Code) (stdin : Except StreamError (List UInt8)) : Plan :=
  match stdin with
  | .error error => .fail "Failed to read stdin" (some error.message)
  | .ok input =>
    let (result, machine) := (Machine.new limits).run code input
    match result with
    | .error .illegalAccess => .stop .crash
    | .error error => .fail error.message none
    | .ok output =>
      .logged .debug "bft_runtime::machine"
        ("Run consumed " ++ toString machine.fuelUsed ++ " fuel, wrote " ++
          toString output.length ++ " bytes") <|
      .logged .info "bft" ("Executed " ++ toString machine.fuelUsed ++ " nodes") <|
      .after (.print output) <| .stop .success

/-- Goes on with the C text of code, or breaks off if it cannot be laid out. -/
def withCText (layout : CLayout) (code : Code) (next : String → Plan) : Plan :=
  match layout.emit code with
  | .error _ => .stop .crash
  | .ok text =>
    .logged .debug "bft_ir::emitter"
      ("Emitted " ++ toString code.length ++ " nodes as " ++
        toString (layout.lines code).length ++ " lines of C") (next text)

/-- Writes the C texts of code before and after optimisation, beside the input. -/
def planCompare (layout : CLayout) (input : String) (code optimized : Code) : Plan :=
  let before := withExtension input "unopt.c"
  let after := withExtension input "c"
  withCText layout code fun text =>
    .after (.write before text) <|
    withCText layout optimized fun text =>
      .after (.write after text) <|
      .logged .info "bft" ("Wrote " ++ before ++ " and " ++ after) <|
      .stop .success

/-- Hands over a text: to the output file, or to the standard output. -/
def planDelivery (output : Option String) (text : String) : Plan :=
  match output with
  | some path => .after (.write path text) <| .stop .success
  | none => .after (.print text.toUTF8.toList) <| .stop .success

/-- Writes optimised code in the format that is asked for. -/
def planText (options : Options) (layout : CLayout) (code : Code) : Plan :=
  match options.format with
  | .c => withCText layout code (planDelivery options.output)
  | .ir => planDelivery options.output ({ code } : Program).toJson
  | .source => planDelivery options.output (code.toSource ++ "\n")

/-- The messages about the passes that ran on code. -/
def passEntries (length : Nat) (tally : Tally) : List Action :=
  tally.passes.map fun p =>
    .log ⟨.debug, "optimize_with_stats\x7bnodes=" ++ toString length ++ "\x7d: bft_ir::optimizer",
      "Pass " ++ p.pass.name ++ " reduced " ++ toString p.before ++ " nodes to " ++
        toString p.after⟩

/-- Optimises code and does with it what the options ask for. -/
def planCode (options : Options) (settings : Settings) (code : Code)
    (stdin : Except StreamError (List UInt8)) : Plan :=
  let (optimized, tally) := settings.peephole.optimizeWithTally code
  let plan : Plan :=
    .logged .info "bft"
      ("Optimized " ++ toString tally.before ++ " nodes to " ++ toString tally.after ++ " (" ++
        toString tally.removed ++ " removed)") <|
    if options.run then planRun settings.limits optimized stdin
    else if options.compare then planCompare settings.layout options.input code optimized
    else planText options settings.layout optimized
  { plan with actions := passEntries code.length tally ++ plan.actions }

/-- Checks the loops of code, unless the options say not to, and goes on. -/
def planChecked (options : Options) (code : Code) (next : Plan) : Plan :=
  if options.noCheck then
    .logged .warn "bft" "Loop validation disabled; unbalanced input emits malformed C" next
  else
    match code.checkLoops with
    | .error error =>
      .fail (options.input ++ " is not a well-formed program") (some error.message)
    | .ok () => next

/-- The plan of a call. -/
def plan (options : Options) (inputs : Inputs) : Plan :=
  .logged .debug "bft::telemetry" "Telemetry initialized" <|
  match loadSettings options inputs with
  | .error report => .stop (.failure report)
  | .ok settings =>
    .logged .info "bft" ("Passes: " ++ ",".intercalate (settings.peephole.passes.map Pass.name)) <|
    match inputs.source with
    | .error error => .fail ("Failed to read " ++ options.input) (some error.message)
    | .ok text =>
      let code := Code.ofSource text
      planChecked options code (planCode options settings code inputs.stdin)

end TapeC.Command
