namespace TapeC.Binary

/-- Why bytes cannot be read. -/
inductive Error where
  | endOfData
  | unknownVariant (index : Nat) (variants : Nat)
  | badOptionTag (tag : UInt8)
deriving DecidableEq, Repr

/-- What is wrong, in words. -/
def Error.detail : Error → String
  | .endOfData => "io error: unexpected end of file"
  | .unknownVariant index variants =>
    "invalid value: integer `" ++ toString index ++ "`, expected variant index 0 <= i < " ++
      toString variants
  | .badOptionTag tag => "tag for enum is not valid, found " ++ toString tag.toNat

def Error.message (e : Error) : String := "Serialization error: " ++ e.detail

/-- A number in a given count of bytes; what does not fit is cut off. -/
def encode : Nat → Nat → List UInt8
  | 0, _ => []
  | width + 1, n => UInt8.ofNat (n % 256) :: encode width (n / 256)

abbrev Reader (α : Type) := List UInt8 → Except Error (α × List UInt8)

/-- Reads a number of a given count of bytes. -/
def decode : Nat → Reader Nat
  | 0, bytes => .ok (0, bytes)
  | _ + 1, [] => .error .endOfData
  | width + 1, byte :: rest => do
    let (n, rest) ← decode width rest
    return (byte.toNat + 256 * n, rest)

def encodeUInt32 (n : UInt32) : List UInt8 := encode 4 n.toNat

def decodeUInt32 : Reader UInt32 := fun bytes => do
  let (n, rest) ← decode 4 bytes
  return (UInt32.ofNat n, rest)

def encodeInt32 (n : Int32) : List UInt8 := encodeUInt32 n.toUInt32

def decodeInt32 : Reader Int32 := fun bytes => do
  let (n, rest) ← decodeUInt32 bytes
  return (n.toInt32, rest)

/-- An optional word: the byte 0, or the byte 1 and the word. -/
def encodeOption : Option Int32 → List UInt8
  | none => [0]
  | some n => 1 :: encodeInt32 n

def decodeOption : Reader (Option Int32)
  | [] => .error .endOfData
  | tag :: rest =>
    if tag = 0 then .ok (none, rest)
    else if tag = 1 then do
      let (n, rest) ← decodeInt32 rest
      return (some n, rest)
    else .error (.badOptionTag tag)

/-- Reads a given count of items. -/
def decodeMany {α : Type} (item : Reader α) : Nat → Reader (List α)
  | 0, bytes => .ok ([], bytes)
  | count + 1, bytes => do
    let (a, rest) ← item bytes
    let (as, rest) ← decodeMany item count rest
    return (a :: as, rest)

end TapeC.Binary
