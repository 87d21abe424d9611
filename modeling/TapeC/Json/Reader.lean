import TapeC.Json.Error
import TapeC.Json.Lexer
import TapeC.Json.Skip

namespace TapeC.Json

abbrev Reader (α : Type) := List Token → Except Error (α × List Token)

/-- The error where another kind of value was expected. -/
def mismatch (expected : String) : List Token → Error
  | [] => .fault .endInValue
  | .null :: _ => .wrongType .null expected
  | .bool value :: _ => .wrongType (.bool value) expected
  | .number (.integer value) :: _ => .wrongType (.integer value) expected
  | .number (.real value) :: _ => .wrongType (.real value) expected
  | .number .tooLarge :: _ => .fault .numberOutOfRange
  | .string text :: _ => .wrongType (.string text) expected
  | .faultyString fault :: _ => .fault fault
  | .broken _ whenRead _ :: _ => .fault whenRead
  | .bracketOpen :: _ => .wrongType .list expected
  | .braceOpen :: _ => .wrongType .object expected
  | _ => .fault .expectedValue

/-- Reads an integer within bounds. -/
def readInt (least greatest : Int) (expected : String) : Reader Int
  | .number (.integer value) :: rest =>
    if least ≤ value ∧ value ≤ greatest then .ok (value, rest)
    else .error (.outOfRange value expected)
  | tokens => .error (mismatch expected tokens)

def readInt32 : Reader Int32 := fun tokens => do
  let (value, rest) ← readInt (-0x80000000) 0x7fffffff "i32" tokens
  return (Int32.ofInt value, rest)

def readUInt32 : Reader UInt32 := fun tokens => do
  let (value, rest) ← readInt 0 0xffffffff "u32" tokens
  return (UInt32.ofNat value.toNat, rest)

/-- Reads a natural number of 64 bits; `expected` is what a message calls it. -/
def readNat64 (expected : String) : Reader Nat := fun tokens => do
  let (value, rest) ← readInt 0 0xffffffffffffffff expected tokens
  return (value.toNat, rest)

def readBool : Reader Bool
  | .bool value :: rest => .ok (value, rest)
  | tokens => .error (mismatch "a boolean" tokens)

/-- Reads the value null, which carries nothing. -/
def readUnit : Reader Unit
  | .null :: rest => .ok ((), rest)
  | tokens => .error (mismatch "unit" tokens)

/-- Reads null as nothing, and anything else as a value. -/
def readOption {α : Type} (item : Reader α) : Reader (Option α)
  | .null :: rest => .ok (none, rest)
  | tokens => do
    let (a, rest) ← item tokens
    return (some a, rest)

/-! ### Lists -/

/-- Where the next item of a list begins, or nothing at the closing bracket. -/
def nextItem : (first : Bool) → List Token → Except Error (Option (List Token))
  | _, [] => .error (.fault .endInList)
  | _, .bracketClose :: _ => .ok none
  | true, tokens => .ok (some tokens)
  | false, .comma :: [] => .error (.fault .endInValue)
  | false, .comma :: .bracketClose :: _ => .error (.fault .trailingComma)
  | false, .comma :: tokens => .ok (some tokens)
  | false, _ => .error (.fault .expectedListEnd)

/-- Reads items up to the closing bracket; there are at most as many as the bound says. -/
def readItems {α : Type} (item : Reader α) : (bound : Nat) → (first : Bool) → Reader (List α)
  | 0, _, _ => .error (.fault .endInList)
  | bound + 1, first, tokens => do
    match ← nextItem first tokens with
    | none => return ([], tokens.tail)
    | some tokens =>
      let (a, rest) ← item tokens
      let (as, rest) ← readItems item bound false rest
      return (a :: as, rest)

/-- Reads a list. -/
def readList {α : Type} (item : Reader α) : Reader (List α)
  | .bracketOpen :: tokens => readItems item (tokens.length + 1) true tokens
  | tokens => .error (mismatch "a sequence" tokens)

/-! ### Records -/

/-- A field of a record, read into a draft of it. -/
structure Field (δ : Type) where
  name : String
  given : δ → Bool
  read : δ → Reader δ

/-- A field that is kept in a draft as an option. -/
def Field.of {δ α : Type} (name : String) (get : δ → Option α) (set : δ → α → δ)
    (item : Reader α) : Field δ where
  name := name
  given draft := (get draft).isSome
  read draft tokens := do
    let (a, rest) ← item tokens
    return (set draft a, rest)

/-- How a record is read: what messages call it, its fields in order, an empty draft, what a draft
gives at the end of an object, and what it gives at the end of a list of so many items. -/
structure Record (δ α : Type) where
  expected : String
  fields : List (Field δ)
  draft : δ
  complete : δ → Except Error α
  shortened : Nat → δ → Except Error α

/-- Reads the field values of a record from a list, in order, and then the closing bracket. -/
def Record.readFields {δ α : Type} (r : Record δ α) :
    List (Field δ) → (count : Nat) → δ → Reader α
  | [], _, draft, tokens =>
    match tokens with
    | .bracketClose :: rest => do return (← r.complete draft, rest)
    | .comma :: .bracketClose :: _ => .error (.fault .trailingComma)
    | [] => .error (.fault .endInList)
    | _ => .error (.fault .trailingCharacters)
  | field :: fields, count, draft, tokens => do
    match ← nextItem (count == 0) tokens with
    | none => return (← r.shortened count draft, tokens.tail)
    | some tokens =>
      let (draft, rest) ← field.read draft tokens
      r.readFields fields (count + 1) draft rest

/-- Reads a key. -/
def readKey : Reader String
  | .string name :: rest => .ok (name, rest)
  | .faultyString fault :: _ => .error (.fault fault)
  | .broken .string whenRead _ :: _ => .error (.fault whenRead)
  | _ => .error (.fault .keyNotString)

/-- The next key of an object and what follows it, or nothing at the closing brace. -/
def nextKey : (first : Bool) → List Token → Except Error (Option (String × List Token))
  | _, [] => .error (.fault .endInObject)
  | _, .braceClose :: _ => .ok none
  | true, tokens => return some (← readKey tokens)
  | false, .comma :: [] => .error (.fault .endInValue)
  | false, .comma :: .braceClose :: _ => .error (.fault .trailingComma)
  | false, .comma :: tokens => return some (← readKey tokens)
  | false, _ => .error (.fault .expectedObjectEnd)

/-- Reads the colon after a key. -/
def readColon : List Token → Except Error (List Token)
  | .colon :: rest => .ok rest
  | [] => .error (.fault .endInObject)
  | _ => .error (.fault .expectedColon)

/-- Reads the members of an object up to the closing brace; there are at most as many as the bound
says. A member that is no field is skipped. -/
def Record.readMembers {δ α : Type} (r : Record δ α) :
    (bound : Nat) → (first : Bool) → δ → Reader α
  | 0, _, _, _ => .error (.fault .endInObject)
  | bound + 1, first, draft, tokens => do
    match ← nextKey first tokens with
    | none => return (← r.complete draft, tokens.tail)
    | some (name, rest) =>
      match r.fields.find? (·.name == name) with
      | some field =>
        if field.given draft then .error (.duplicateField name)
        else
          let (draft, rest) ← field.read draft (← readColon rest)
          r.readMembers bound false draft rest
      | none =>
        match skip (← readColon rest) with
        | .ok rest => r.readMembers bound false draft rest
        | .error fault => .error (.fault fault)

/-- Reads a record, from an object or from a list of its field values. -/
def Record.read {δ α : Type} (r : Record δ α) : Reader α
  | .bracketOpen :: tokens => r.readFields r.fields 0 r.draft tokens
  | .braceOpen :: tokens => r.readMembers (tokens.length + 1) true r.draft tokens
  | tokens => .error (mismatch r.expected tokens)

/-- A field that has to be given. -/
def required {α : Type} (name : String) : Option α → Except Error α
  | some a => .ok a
  | none => .error (.missingField name)

/-! ### Variants -/

/-- What a variant carries. -/
inductive Payload (α : Type) where
  | nothing (value : α)
  | single (reader : Reader α)
  | record (reader : Reader α)

/-- The variant of a name. -/
def findVariant {α : Type} (variants : List (String × Payload α)) (name : String) :
    Except Error (Payload α) :=
  match variants.lookup name with
  | some payload => .ok payload
  | none => .error (.unknownVariant name (variants.map Prod.fst))

/-- Reads the name of a variant inside an object, which must not be empty. -/
def readVariantName : Reader String
  | [] => .error (.fault .endInObject)
  | .braceClose :: _ => .error (.fault .expectedValue)
  | tokens => readKey tokens

def Payload.read {α : Type} : Payload α → Reader α
  | .nothing value, tokens => do
    let ((), rest) ← readUnit tokens
    return (value, rest)
  | .single reader, tokens => reader tokens
  | .record reader, tokens => reader tokens

/-- Reads one of some variants: its bare name if it carries nothing, or an object with its name as
the only key. -/
def readVariant {α : Type} (variants : List (String × Payload α)) : Reader α
  | [] => .error (.fault .endInValue)
  | .string name :: rest => do
    match ← findVariant variants name with
    | .nothing value => return (value, rest)
    | .single _ => .error (.wrongType .name "newtype variant")
    | .record _ => .error (.wrongType .name "struct variant")
  | .faultyString fault :: _ => .error (.fault fault)
  | .broken .string whenRead _ :: _ => .error (.fault whenRead)
  | .braceOpen :: tokens => do
    let (name, rest) ← readVariantName tokens
    let payload ← findVariant variants name
    let (a, rest) ← payload.read (← readColon rest)
    match rest with
    | .braceClose :: rest => return (a, rest)
    | [] => .error (.fault .endInObject)
    | _ => .error (.fault .expectedValue)
  | _ => .error (.fault .expectedValue)

/-- Reads a whole text. -/
def readText {α : Type} (reader : Reader α) (text : String) : Except Error α := do
  let (a, rest) ← reader (tokens text)
  if rest.isEmpty then return a else .error (.fault .trailingCharacters)

end TapeC.Json
