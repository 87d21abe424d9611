import TapeC.Text.Quoted

namespace TapeC.Command

/-- How weighty a message is, the weightiest first. -/
inductive Level where
  | error
  | warn
  | info
  | debug
  | trace
deriving DecidableEq, Repr

def Level.rank : Level → Nat
  | .error => 1
  | .warn => 2
  | .info => 3
  | .debug => 4
  | .trace => 5

def Level.name : Level → String
  | .error => "ERROR"
  | .warn => "WARN"
  | .info => "INFO"
  | .debug => "DEBUG"
  | .trace => "TRACE"

/-- Which messages are shown. -/
inductive Threshold where
  | silent
  | upTo (level : Level)
deriving DecidableEq, Repr

def Threshold.ofName? : String → Option Threshold
  | "off" => some .silent
  | "error" => some (.upTo .error)
  | "warn" => some (.upTo .warn)
  | "info" => some (.upTo .info)
  | "debug" => some (.upTo .debug)
  | "trace" => some (.upTo .trace)
  | _ => none

/-- A message and where it comes from. -/
structure Entry where
  level : Level
  scope : String
  text : String
deriving DecidableEq, Repr

/-- A character of a message. Those that a terminal could take for a command are written as
escapes; line breaks and tabs are not among them. -/
def harmless (c : Char) : List Char :=
  match c with
  | '\x07' => ['\\', 'x', '0', '7']
  | '\x08' => ['\\', 'x', '0', '8']
  | '\x0c' => ['\\', 'x', '0', 'c']
  | '\x1b' => ['\\', 'x', '1', 'b']
  | '\x7f' => ['\\', 'x', '7', 'f']
  | c => if 0x80 ≤ c.toNat && c.toNat ≤ 0x9f then Text.codePoint c else [c]

def Entry.line (e : Entry) : String :=
  e.level.name ++ " " ++ e.scope ++ ": " ++ String.ofList (e.text.toList.flatMap harmless)

def Threshold.shows (t : Threshold) (e : Entry) : Bool :=
  match t with
  | .silent => false
  | .upTo level => e.level.rank ≤ level.rank

/-- The threshold in force: the one that is asked for, or else up to debugging
for a verbose call and up to warnings otherwise. -/
def Threshold.resolve (asked : Option Threshold) (verbose : Bool) : Threshold :=
  asked.getD (.upTo (if verbose then .debug else .warn))

end TapeC.Command
