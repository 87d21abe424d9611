import TapeC.Binary
import TapeC.Program

namespace TapeC

namespace Instr

/-- The number of an instruction's variant. -/
def variant : Instr → Nat
  | move _ => 0
  | adjust _ => 1
  | output => 2
  | input => 3
  | loopStart => 4
  | loopEnd => 5
  | assign _ _ => 6

/-- The binary form of an instruction's arguments. -/
def argumentBytes : Instr → List UInt8
  | move count => Binary.encodeInt32 count
  | adjust count => Binary.encodeInt32 count
  | assign value offset => Binary.encodeInt32 value ++ Binary.encodeOption offset
  | _ => []

def toBytes (i : Instr) : List UInt8 := Binary.encode 4 i.variant ++ i.argumentBytes

def decodeBytes : Binary.Reader Instr := fun bytes => do
  let (index, rest) ← Binary.decode 4 bytes
  match index with
  | 0 =>
    let (count, rest) ← Binary.decodeInt32 rest
    return (move count, rest)
  | 1 =>
    let (count, rest) ← Binary.decodeInt32 rest
    return (adjust count, rest)
  | 2 => return (output, rest)
  | 3 => return (input, rest)
  | 4 => return (loopStart, rest)
  | 5 => return (loopEnd, rest)
  | 6 =>
    let (value, rest) ← Binary.decodeInt32 rest
    let (offset, rest) ← Binary.decodeOption rest
    return (assign value offset, rest)
  | index => .error (.unknownVariant index 7)

end Instr

namespace Program

/-- The binary form of a program. -/
def toBytes (p : Program) : List UInt8 :=
  Binary.encode 8 p.code.length ++ p.code.flatMap Instr.toBytes ++ Binary.encodeUInt32 p.version

/-- Reads a program from the front of some bytes; what follows it is ignored. -/
def ofBytes (bytes : List UInt8) : Except Binary.Error Program := do
  let (count, rest) ← Binary.decode 8 bytes
  let (code, rest) ← Binary.decodeMany Instr.decodeBytes count rest
  let (version, _) ← Binary.decodeUInt32 rest
  return ⟨code, version⟩

end Program

end TapeC
