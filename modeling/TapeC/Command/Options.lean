namespace TapeC.Command

/-- What is produced. -/
inductive Format where
  | c
  | ir
  | source
deriving DecidableEq, Repr

def Format.ofName? : String → Option Format
  | "c" => some .c
  | "ir" => some .ir
  | "bf" => some .source
  | _ => none

/-- What a call of the tool asks for. -/
structure Options where
  input : String
  output : Option String
  format : Format
  passes : Option String
  noPasses : Bool
  run : Bool
  compare : Bool
  noCheck : Bool
  settings : Option String
  verbose : Bool
deriving DecidableEq, Repr

/-- How a list of arguments is understood. -/
inductive Request where
  | work (options : Options)
  | help
  | version
  | usageError
deriving DecidableEq, Repr

/-- Whether a request is for a verbose call. -/
def Request.isVerbose : Request → Bool
  | .work options => options.verbose
  | _ => false

/-- An option without a value. -/
inductive Flag where
  | noPasses
  | run
  | compare
  | noCheck
  | verbose
deriving DecidableEq, Repr

/-- An option with a value. -/
inductive Valued where
  | output
  | format
  | passes
  | settings
deriving DecidableEq, Repr

inductive Switch where
  | flag (flag : Flag)
  | valued (option : Valued)
  | help
  | version
deriving DecidableEq, Repr

def Switch.ofLongName? : String → Option Switch
  | "output" => some (.valued .output)
  | "emit" => some (.valued .format)
  | "passes" => some (.valued .passes)
  | "config" => some (.valued .settings)
  | "no-opt" => some (.flag .noPasses)
  | "run" => some (.flag .run)
  | "compare" => some (.flag .compare)
  | "no-validate" => some (.flag .noCheck)
  | "verbose" => some (.flag .verbose)
  | "help" => some .help
  | "version" => some .version
  | _ => none

def Switch.ofShortName? : Char → Option Switch
  | 'o' => some (.valued .output)
  | 'v' => some (.flag .verbose)
  | 'h' => some .help
  | 'V' => some .version
  | _ => none

/-- The options as far as they have been read. -/
structure Draft where
  input : Option String := none
  output : Option String := none
  format : Option Format := none
  passes : Option String := none
  settings : Option String := none
  noPasses : Bool := false
  run : Bool := false
  compare : Bool := false
  noCheck : Bool := false
  verbose : Bool := false
deriving DecidableEq, Repr

namespace Draft

/-- A value for something that has none yet. -/
def fresh {α : Type} (old : Option α) (value : Option α) : Option (Option α) :=
  match old, value with
  | none, some a => some (some a)
  | _, _ => none

/-- A path, which must not be empty. -/
def path? (text : String) : Option String := if text.isEmpty then none else some text

/-- Sets the input, unless there is one or the path is empty. -/
def setInput (d : Draft) (text : String) : Option Draft :=
  (fresh d.input (path? text)).map fun input => { d with input }

/-- Sets the value of an option, unless it has one or the value is not allowed. -/
def setValue (d : Draft) (option : Valued) (text : String) : Option Draft :=
  match option with
  | .output => (fresh d.output (path? text)).map fun output => { d with output }
  | .format => (fresh d.format (Format.ofName? text)).map fun format => { d with format }
  | .passes => (fresh d.passes (some text)).map fun passes => { d with passes }
  | .settings => (fresh d.settings (path? text)).map fun settings => { d with settings }

/-- Sets a flag, unless it is set already. -/
def setFlag (d : Draft) : Flag → Option Draft
  | .noPasses => if d.noPasses then none else some { d with noPasses := true }
  | .run => if d.run then none else some { d with run := true }
  | .compare => if d.compare then none else some { d with compare := true }
  | .noCheck => if d.noCheck then none else some { d with noCheck := true }
  | .verbose => if d.verbose then none else some { d with verbose := true }

/-- Whether two options were given that exclude each other. -/
def hasConflict (d : Draft) : Bool :=
  (d.passes.isSome && d.noPasses) || (d.run && (d.output.isSome || d.compare)) ||
    (d.compare && d.output.isSome)

/-- The request of a complete draft. -/
def finish (d : Draft) : Request :=
  match d.input with
  | none => .usageError
  | some input =>
    if d.hasConflict then .usageError
    else
      .work
        { input, output := d.output, format := d.format.getD .c, passes := d.passes,
          noPasses := d.noPasses, run := d.run, compare := d.compare, noCheck := d.noCheck,
          settings := d.settings, verbose := d.verbose }

end Draft

/-- What an argument of short options does. -/
inductive Cluster where
  | done (draft : Draft)
  /-- The value of an option is the next argument. -/
  | awaits (option : Valued) (draft : Draft)
  | help
  | version
  | usageError

/-- Reads short options that stand together. What follows an option with a value is its value, with
an equals sign before it or not. -/
def readCluster : Draft → List Char → Cluster
  | d, [] => .done d
  | d, c :: rest =>
    match Switch.ofShortName? c with
    | some (.flag flag) =>
      match d.setFlag flag with
      | some d => readCluster d rest
      | none => .usageError
    | some (.valued option) =>
      match rest with
      | [] => .awaits option d
      | '=' :: value =>
        ((d.setValue option (String.ofList value)).map Cluster.done).getD .usageError
      | value => ((d.setValue option (String.ofList value)).map Cluster.done).getD .usageError
    | some .help => .help
    | some .version => .version
    | none => .usageError

/-- Whether an argument begins like an option. A lone dash does not. -/
def isDashed (argument : String) : Bool :=
  match argument.toList with
  | '-' :: _ :: _ => true
  | _ => false

/-- A long option's name and the value after an equals sign. -/
def splitValue (cs : List Char) : String × Option String :=
  let name := cs.takeWhile (· != '=')
  match cs.dropWhile (· != '=') with
  | [] => (String.ofList name, none)
  | _ :: value => (String.ofList name, some (String.ofList value))

/-- Reads arguments of which none is an option. -/
def readInputs : Draft → List String → Request
  | d, [] => d.finish
  | d, argument :: rest =>
    match d.setInput argument with
    | some d => readInputs d rest
    | none => .usageError

/-- Reads arguments. An option may be waiting for its value, which cannot begin like an option. -/
def readArguments : Option Valued → Draft → List String → Request
  | none, d, [] => d.finish
  | some _, _, [] => .usageError
  | some option, d, argument :: rest =>
    if isDashed argument then .usageError
    else
      match d.setValue option argument with
      | some d => readArguments none d rest
      | none => .usageError
  | none, d, argument :: rest =>
    match argument.toList with
    | ['-', '-'] => readInputs d rest
    | '-' :: '-' :: cs =>
      let (name, value) := splitValue cs
      match Switch.ofLongName? name, value with
      | some .help, none => .help
      | some .version, none => .version
      | some (.flag flag), none =>
        match d.setFlag flag with
        | some d => readArguments none d rest
        | none => .usageError
      | some (.valued option), none => readArguments (some option) d rest
      | some (.valued option), some value =>
        match d.setValue option value with
        | some d => readArguments none d rest
        | none => .usageError
      | _, _ => .usageError
    | '-' :: c :: cs =>
      match readCluster d (c :: cs) with
      | .done d => readArguments none d rest
      | .awaits option d => readArguments (some option) d rest
      | .help => .help
      | .version => .version
      | .usageError => .usageError
    | _ =>
      match d.setInput argument with
      | some d => readArguments none d rest
      | none => .usageError

/-- How a list of arguments is understood. -/
def Request.ofArguments (arguments : List String) : Request := readArguments none {} arguments

end TapeC.Command
