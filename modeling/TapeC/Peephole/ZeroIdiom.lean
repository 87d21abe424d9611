import TapeC.Instr

namespace TapeC.Peephole

/-- Whether a step in a loop of its own counts as the idiom. -/
def isZeroStep (acceptsIncrement : Bool) (step : Int32) : Bool :=
  step == -1 || (acceptsIncrement && step == 1)

/-- Whether the window holds the idiom. -/
def isZeroIdiom (acceptsIncrement : Bool) : Option Instr → Option Instr → Option Instr → Bool
  | some .loopStart, some (.adjust step), some .loopEnd => isZeroStep acceptsIncrement step
  | _, _, _ => false

/-- Slides the window over a sequence, the two older places given. An instruction is passed on when
it leaves the window. -/
def slideWindow (acceptsIncrement : Bool) :
    Option Instr → Option Instr → List (Option Instr) → Code
  | _, _, [] => []
  | oldest, middle, now :: rest =>
    if isZeroIdiom acceptsIncrement oldest middle now then
      Instr.clear :: slideWindow acceptsIncrement none none rest
    else
      oldest.toList ++ slideWindow acceptsIncrement middle now rest

/-- Replaces every zero idiom by an assignment of zero. Two empty places at the end push the last
instructions out of the window. -/
def collapseZeroIdiom (acceptsIncrement : Bool) (code : Code) : Code :=
  slideWindow acceptsIncrement none none (code.map some ++ [none, none])

end TapeC.Peephole
