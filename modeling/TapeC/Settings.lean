import TapeC.CText
import TapeC.Machine
import TapeC.Peephole

namespace TapeC

/-- The settings of the optimiser, of the C text and of the machine. -/
structure Settings where
  peephole : Peephole := {}
  layout : CLayout := {}
  limits : Limits := {}
deriving DecidableEq, Repr

/-- A condition that settings do not meet. -/
inductive SettingsError where
  | emptyLayout
  | emptyTape
  | incrementWithoutWrap
deriving DecidableEq, Repr

def SettingsError.message : SettingsError → String
  | .emptyLayout => "Invalid configuration: emitter.memory_size must be positive"
  | .emptyTape => "Invalid configuration: runtime.memory_size must be positive"
  | .incrementWithoutWrap =>
    "Invalid configuration: zero_idiom_accepts_increment requires wrap_cells"

/-- Checks the conditions in order. -/
def Settings.check (s : Settings) : Except SettingsError Unit :=
  if s.layout.memorySize = 0 then .error .emptyLayout
  else if s.limits.memorySize = 0 then .error .emptyTape
  else if s.peephole.acceptsIncrement ∧ ¬s.peephole.wrapCells then .error .incrementWithoutWrap
  else .ok ()

end TapeC
