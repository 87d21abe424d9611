namespace TapeC

/-- One instruction. -/
inductive Instr where
  /-- Moves the head; a positive count moves it to the right. -/
  | move (count : Int32)
  /-- Adds to the cell under the head. -/
  | adjust (count : Int32)
  /-- Writes the cell under the head. -/
  | output
  /-- Reads a byte into the cell under the head. -/
  | input
  /-- Opens a loop that runs while the cell under the head is not zero. -/
  | loopStart
  /-- Closes the innermost open loop. -/
  | loopEnd
  /-- Stores a constant, at an offset from the head if one is given. -/
  | assign (value : Int32) (offset : Option Int32)
deriving DecidableEq, Repr

/-- Code is a sequence of instructions; nothing says that its loops pair up. -/
abbrev Code := List Instr

namespace Instr

/-- A move by a count, or nothing for the count zero. -/
def move? (count : Int32) : Option Instr :=
  if count = 0 then none else some (move count)

/-- An adjustment by a count, or nothing for the count zero. -/
def adjust? (count : Int32) : Option Instr :=
  if count = 0 then none else some (adjust count)

/-- Stores zero in the cell under the head. -/
def clear : Instr := assign 0 none

def moveCount? : Instr → Option Int32
  | move count => some count
  | _ => none

def adjustCount? : Instr → Option Int32
  | adjust count => some count
  | _ => none

def isLoopStart : Instr → Bool
  | loopStart => true
  | _ => false

def isLoopEnd : Instr → Bool
  | loopEnd => true
  | _ => false

/-- Whether an instruction opens or closes a loop. -/
def isLoopMark (i : Instr) : Bool := i.isLoopStart || i.isLoopEnd

/-- Whether an instruction has no command character of its own, so that only a pass introduces it. -/
def isSynthetic : Instr → Bool
  | assign _ _ => true
  | _ => false

/-- The name of an instruction's kind. -/
def kind : Instr → String
  | move _ => "pointer-move"
  | adjust _ => "cell-adjust"
  | output => "output"
  | input => "input"
  | loopStart => "loop-start"
  | loopEnd => "loop-end"
  | assign _ _ => "assign"

/-- All kind names. -/
def kinds : List String :=
  ["pointer-move", "cell-adjust", "output", "input", "loop-start", "loop-end", "assign"]

end Instr

/-- How often each kind occurs, for the kinds that do occur. -/
def Code.census (code : Code) : List (String × Nat) :=
  (Instr.kinds.map fun k => (k, code.countP fun i => i.kind == k)).filter fun entry => entry.2 != 0

end TapeC
