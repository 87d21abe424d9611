import TapeC.Instr

namespace TapeC

structure Program where
  code : Code := []
  version : UInt32 := 1
deriving DecidableEq, Repr

end TapeC
