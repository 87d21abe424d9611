import TapeC.Pass
import TapeC.Peephole.Runs
import TapeC.Peephole.ZeroIdiom

namespace TapeC

/-- A peephole optimiser: the passes it runs, in order, and how they work. -/
structure Peephole where
  passes : List Pass := Pass.standard
  /-- Whether merged adjustments are reduced to the range of a signed byte. -/
  wrapCells : Bool := true
  /-- Whether a loop around an increment is a zero idiom too. -/
  acceptsIncrement : Bool := false
deriving DecidableEq, Repr

/-- The length of code before and after one pass. -/
structure PassTally where
  pass : Pass
  before : Nat
  after : Nat
deriving DecidableEq, Repr

/-- The length of code before and after optimisation, and around each pass. -/
structure Tally where
  before : Nat
  after : Nat
  passes : List PassTally
deriving DecidableEq, Repr

/-- How many instructions were removed, zero if there are more than before. -/
def Tally.removed (t : Tally) : Nat := t.before - t.after

namespace Peephole

/-- An optimiser without passes. -/
def disabled : Peephole := { passes := [] }

/-- Runs one pass. -/
def runPass (p : Peephole) : Pass → Code → Code
  | .moves, code => mergeMoves code
  | .adjusts, code => mergeAdjusts p.wrapCells code
  | .zeroIdiom, code => collapseZeroIdiom p.acceptsIncrement code

/-- Runs some passes in order. -/
def runPasses (p : Peephole) : List Pass → Code → Code × List PassTally
  | [], code => (code, [])
  | pass :: passes, code =>
    let next := p.runPass pass code
    let (final, tallies) := p.runPasses passes next
    (final, ⟨pass, code.length, next.length⟩ :: tallies)

/-- Runs all passes in order and counts. -/
def optimizeWithTally (p : Peephole) (code : Code) : Code × Tally :=
  let (final, tallies) := p.runPasses p.passes code
  (final, ⟨code.length, final.length, tallies⟩)

/-- Runs all passes in order. -/
def optimize (p : Peephole) (code : Code) : Code := (p.optimizeWithTally code).1

end Peephole

end TapeC
