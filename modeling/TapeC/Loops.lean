import TapeC.Instr

namespace TapeC

/-- Why loops do not pair up. -/
inductive LoopError where
  | unmatchedEnd (position : Nat)
  | unclosed (count : Nat)
deriving DecidableEq, Repr

def LoopError.message : LoopError → String
  | .unmatchedEnd position => "Unmatched ']' at node " ++ toString position
  | .unclosed count => toString count ++ " loop(s) left unclosed"

namespace Code

/-- The check from a position on, with some loops already open. -/
def checkLoopsFrom : Nat → Nat → Code → Except LoopError Unit
  | _, 0, [] => .ok ()
  | _, opened + 1, [] => .error (.unclosed (opened + 1))
  | position, opened, i :: rest =>
    match i, opened with
    | .loopStart, opened => checkLoopsFrom (position + 1) (opened + 1) rest
    | .loopEnd, 0 => .error (.unmatchedEnd position)
    | .loopEnd, opened + 1 => checkLoopsFrom (position + 1) opened rest
    | _, opened => checkLoopsFrom (position + 1) opened rest

/-- Checks that the loops of code pair up. -/
def checkLoops (code : Code) : Except LoopError Unit := checkLoopsFrom 0 0 code

/-- The deepest nesting that a loop start reaches, with some loops already open. A loop end that
closes nothing is ignored. -/
def loopDepthFrom : Nat → Code → Nat
  | _, [] => 0
  | opened, .loopStart :: rest => max (opened + 1) (loopDepthFrom (opened + 1) rest)
  | opened, .loopEnd :: rest => loopDepthFrom (opened - 1) rest
  | opened, _ :: rest => loopDepthFrom opened rest

/-- The deepest loop nesting of code. -/
def loopDepth (code : Code) : Nat := loopDepthFrom 0 code

/-- Fills in a table of partners from a position on, given the positions of the open loop starts,
innermost first. -/
def linkLoops : Nat → List Nat → Array Nat → Code → Except LoopError (Array Nat)
  | _, [], table, [] => .ok table
  | _, start :: opened, _, [] => .error (.unclosed (start :: opened).length)
  | position, opened, table, i :: rest =>
    match i, opened with
    | .loopStart, opened => linkLoops (position + 1) (position :: opened) table rest
    | .loopEnd, [] => .error (.unmatchedEnd position)
    | .loopEnd, start :: opened =>
      linkLoops (position + 1) opened
        ((table.setIfInBounds start position).setIfInBounds position start) rest
    | _, opened => linkLoops (position + 1) opened table rest

/-- At the position of each loop start the position of its loop end, and the other way round. -/
def loopPartners (code : Code) : Except LoopError (Array Nat) :=
  linkLoops 0 [] (Array.replicate code.length 0) code

def loopCount (code : Code) : Nat := code.countP Instr.isLoopStart

end Code

end TapeC
