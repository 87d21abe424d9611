import TapeC.Instr

namespace TapeC

/-- How a C text is laid out. -/
structure CLayout where
  /-- How many cells the array has. -/
  memorySize : Nat := 30000
  /-- How many blanks one level of nesting takes. -/
  indentWidth : Nat := 4
deriving DecidableEq, Repr

/-- A line that would have to be indented by more blanks than the widest line admits. -/
structure TooWide where
  width : Nat
deriving DecidableEq, Repr

/-- A line of C: the nesting it stands at, which loop ends without a start can make negative, and
its text. -/
structure CLine where
  depth : Int
  text : String
deriving DecidableEq, Repr

/-- A compound assignment that adds a count, or subtracts its magnitude if it is negative. -/
def compound (target : String) (count : Int32) : String :=
  if count < 0 then target ++ " -= " ++ toString count.toInt.natAbs ++ ";"
  else target ++ " += " ++ toString count.toInt.natAbs ++ ";"

/-- The C statement of an instruction. -/
def Instr.statement : Instr → String
  | .move count =>
    if count = 1 then "ptr++;" else if count = -1 then "ptr--;" else compound "ptr" count
  | .adjust count =>
    if count = 1 then "(*ptr)++;" else if count = -1 then "(*ptr)--;"
    else compound "(*ptr)" count
  | .output => "putchar(*ptr);"
  | .input => "*ptr = getchar();"
  | .loopStart => "while (*ptr) \x7b"
  | .loopEnd => "\x7d"
  | .assign value none => "*ptr = " ++ toString value.toInt ++ ";"
  | .assign value (some offset) =>
    "ptr[" ++ toString offset.toInt ++ "] = " ++ toString value.toInt ++ ";"

/-- The lines of code that starts at a depth. A loop end stands one level out, and what follows a
loop start one level in. -/
def Code.cLines : Int → Code → List CLine
  | _, [] => []
  | depth, i :: rest =>
    match i with
    | .loopStart => ⟨depth, i.statement⟩ :: cLines (depth + 1) rest
    | .loopEnd => ⟨depth - 1, i.statement⟩ :: cLines (depth - 1) rest
    | _ => ⟨depth, i.statement⟩ :: cLines depth rest

namespace CLayout

/-- The widest indentation that can be written. -/
def maxWidth : Nat := 65535

/-- The indentation of a line. -/
def width (layout : CLayout) (line : CLine) : Nat := line.depth.toNat * layout.indentWidth

/-- All lines of the C program of code. -/
def lines (layout : CLayout) (code : Code) : List CLine :=
  [⟨0, "#include <stdio.h>"⟩, ⟨0, ""⟩, ⟨0, "int main(void)"⟩, ⟨0, "\x7b"⟩,
    ⟨1, "char mem[" ++ toString layout.memorySize ++ "] = \x7b0\x7d;"⟩, ⟨1, "char *ptr = mem;"⟩] ++
  code.cLines 1 ++ [⟨1, "return 0;"⟩, ⟨0, "\x7d"⟩]

/-- A line as text, with its line break. -/
def renderLine (layout : CLayout) (line : CLine) : Except TooWide String :=
  let width := layout.width line
  if maxWidth < width then .error ⟨width⟩
  else .ok ("".pushn ' ' width ++ line.text ++ "\n")

/-- The C program of code, unless one of its lines is too wide. -/
def emit (layout : CLayout) (code : Code) : Except TooWide String := do
  return String.join (← (layout.lines code).mapM layout.renderLine)

end CLayout

end TapeC
