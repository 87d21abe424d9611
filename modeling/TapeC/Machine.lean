import TapeC.Loops

namespace TapeC

/-- The size of the tape and the limit on executed instructions. -/
structure Limits where
  memorySize : Nat := 30000
  maxFuel : Nat := 100000000
deriving DecidableEq, Repr

/-- Why a run fails. -/
inductive RunError where
  | loops (error : LoopError)
  | outOfBounds (cell : Int) (cells : Nat)
  | fuelExhausted (executed : Nat)
  /-- A cell or a loop partner was asked for that does not exist: the tape has no cells at all. -/
  | illegalAccess
deriving DecidableEq, Repr

/-- The text of an error; an illegal access has none of its own. -/
def RunError.message : RunError → String
  | .loops error => error.message
  | .outOfBounds cell cells =>
    "Pointer moved out of bounds to cell " ++ toString cell ++ " (memory has " ++
      toString cells ++ " cells)"
  | .fuelExhausted executed => "Fuel exhausted after " ++ toString executed ++ " nodes"
  | .illegalAccess => "Illegal access"

/-- What is read when the input is used up. -/
def endOfInput : UInt8 := 0xff

/-- The low byte of a word. -/
def lowByte (word : Int32) : UInt8 := word.toUInt32.toUInt8

/-- A run in progress: the position in the code, the tape, the head, the input not yet read and the
output so far. -/
structure State where
  position : Nat
  tape : Array UInt8
  head : Nat
  input : List UInt8
  output : Array UInt8
deriving DecidableEq, Repr

/-- Why execution stops. -/
inductive Stop where
  | finished
  | outOfBounds (cell : Int)
  | outOfFuel
  | illegalAccess
deriving DecidableEq, Repr

/-- How a run ends: why, with how much fuel left, and in which state. -/
structure Ending where
  stop : Stop
  fuel : Nat
  state : State
deriving DecidableEq, Repr

namespace State

/-- The cell at an offset from the head, if it is on the tape. -/
def cellAt (s : State) (offset : Int32) : Except Stop Nat :=
  let cell := (s.head : Int) + offset.toInt
  if 0 ≤ cell ∧ cell < s.tape.size then .ok cell.toNat else .error (.outOfBounds cell)

/-- The effect of one instruction, given the table of loop partners. -/
@[inline] def step (partners : Array Nat) (i : Instr) (s : State) : Except Stop State :=
  match i with
  | .move count =>
    match s.cellAt count with
    | .ok cell => .ok { s with head := cell, position := s.position + 1 }
    | .error stop => .error stop
  | .adjust count =>
    match s.tape[s.head]? with
    | some byte =>
      .ok { s with
        tape := s.tape.setIfInBounds s.head (byte + lowByte count), position := s.position + 1 }
    | none => .error .illegalAccess
  | .output =>
    match s.tape[s.head]? with
    | some byte => .ok { s with output := s.output.push byte, position := s.position + 1 }
    | none => .error .illegalAccess
  | .input =>
    if s.head < s.tape.size then
      .ok { s with
        tape := s.tape.setIfInBounds s.head (s.input.headD endOfInput),
        input := s.input.tail, position := s.position + 1 }
    else .error .illegalAccess
  | .loopStart =>
    match s.tape[s.head]?, partners[s.position]? with
    | some byte, some partner =>
      .ok { s with position := if byte = 0 then partner + 1 else s.position + 1 }
    | _, _ => .error .illegalAccess
  | .loopEnd =>
    match s.tape[s.head]?, partners[s.position]? with
    | some byte, some partner =>
      .ok { s with position := if byte = 0 then s.position + 1 else partner + 1 }
    | _, _ => .error .illegalAccess
  | .assign value offset =>
    match s.cellAt (offset.getD 0) with
    | .ok cell =>
      .ok { s with
        tape := s.tape.setIfInBounds cell (lowByte value), position := s.position + 1 }
    | .error stop => .error stop

/-- Executes code until it ends, fails or runs out of fuel. -/
def exec (code : Array Instr) (partners : Array Nat) : Nat → State → Ending
  | 0, s => if s.position < code.size then ⟨.outOfFuel, 0, s⟩ else ⟨.finished, 0, s⟩
  | fuel + 1, s =>
    match code[s.position]? with
    | none => ⟨.finished, fuel + 1, s⟩
    | some i =>
      match s.step partners i with
      | .ok next => exec code partners fuel next
      | .error stop => ⟨stop, fuel, s⟩

end State

/-- A machine: its limits, its tape, its head, and how much fuel its last run used. -/
structure Machine where
  limits : Limits
  tape : Array UInt8
  head : Nat
  fuelUsed : Nat
deriving DecidableEq, Repr

namespace Machine

/-- A machine with a tape of zeros. -/
def new (limits : Limits) : Machine := ⟨limits, Array.replicate limits.memorySize 0, 0, 0⟩

/-- The machine with its tape zeroed and its head on the first cell. -/
def reset (m : Machine) : Machine :=
  { m with tape := m.tape.map fun _ => 0, head := 0, fuelUsed := 0 }

/-- The result of a run: the output, or the error of how it stopped. -/
def result (ending : Ending) (used : Nat) : Except RunError (List UInt8) :=
  match ending.stop with
  | .finished => .ok ending.state.output.toList
  | .outOfBounds cell => .error (.outOfBounds cell ending.state.tape.size)
  | .outOfFuel => .error (.fuelExhausted used)
  | .illegalAccess => .error .illegalAccess

/-- Runs code from a clean tape: the result, and the machine afterwards. -/
def run (m : Machine) (code : Code) (input : List UInt8) :
    Except RunError (List UInt8) × Machine :=
  let clean := m.reset
  match code.loopPartners with
  | .error error => (.error (.loops error), clean)
  | .ok partners =>
    let ending := State.exec code.toArray partners clean.limits.maxFuel
      ⟨0, clean.tape, clean.head, input, #[]⟩
    let used := clean.limits.maxFuel - ending.fuel
    (result ending used,
      { clean with tape := ending.state.tape, head := ending.state.head, fuelUsed := used })

end Machine

/-- Runs code on a new machine with the standard limits. -/
def runCode (code : Code) (input : List UInt8) : Except RunError (List UInt8) :=
  ((Machine.new {}).run code input).1

end TapeC
