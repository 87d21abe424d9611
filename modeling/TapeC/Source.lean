import TapeC.Instr

namespace TapeC

/-- The instruction of a command character. -/
def Instr.ofChar? : Char → Option Instr
  | '>' => some (.move 1)
  | '<' => some (.move (-1))
  | '+' => some (.adjust 1)
  | '-' => some (.adjust (-1))
  | '.' => some .output
  | ',' => some .input
  | '[' => some .loopStart
  | ']' => some .loopEnd
  | _ => none

/-- The code of a source text. -/
def Code.ofSource (source : String) : Code := source.toList.filterMap Instr.ofChar?

/-- A signed count in unary: as many characters as its magnitude, of the kind its sign chooses. -/
def strokes (count : Int32) (up down : Char) : List Char :=
  List.replicate count.toInt.natAbs (if 0 ≤ count then up else down)

/-- The command characters of an instruction. An assignment walks to its cell, clears it, counts to
the value and walks back. -/
def Instr.symbols : Instr → List Char
  | .move count => strokes count '>' '<'
  | .adjust count => strokes count '+' '-'
  | .output => ['.']
  | .input => [',']
  | .loopStart => ['[']
  | .loopEnd => [']']
  | .assign value offset =>
    strokes (offset.getD 0) '>' '<' ++ ['[', '-', ']'] ++ strokes value '+' '-' ++
      strokes (-offset.getD 0) '>' '<'

def Code.symbols (code : Code) : List Char := code.flatMap Instr.symbols

def Instr.toSource (i : Instr) : String := String.ofList i.symbols

/-- The source text of code. -/
def Code.toSource (code : Code) : String := String.ofList code.symbols

end TapeC
