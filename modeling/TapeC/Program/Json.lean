import TapeC.Json.Layout
import TapeC.Json.Reader
import TapeC.Program

namespace TapeC

open Json (Token Field Record Payload)

/-! ### Writing -/

def Json.Token.key (name : String) : Token := .string name

def Json.Token.int32 (value : Int32) : Token := .number (.integer value.toInt)

/-- An object with one member, as tokens. -/
def Json.memberTokens (name : String) (value : List Token) : List Token :=
  [.braceOpen, .key name, .colon] ++ value ++ [.braceClose]

namespace Instr

def offsetToken : Option Int32 → Token
  | none => .null
  | some offset => .int32 offset

/-- The JSON tokens of an instruction. -/
def jsonTokens : Instr → List Token
  | move count => Json.memberTokens "PointerMove" [.int32 count]
  | adjust count => Json.memberTokens "CellAdjust" [.int32 count]
  | output => [.key "Output"]
  | input => [.key "Input"]
  | loopStart => [.key "LoopStart"]
  | loopEnd => [.key "LoopEnd"]
  | assign value offset =>
    Json.memberTokens "Assign"
      [.braceOpen, .key "value", .colon, .int32 value, .comma, .key "offset", .colon,
        offsetToken offset, .braceClose]

end Instr

/-- The JSON tokens of code, the instructions separated by commas. -/
def Code.jsonTokens : Code → List Token
  | [] => []
  | [i] => i.jsonTokens
  | i :: rest => i.jsonTokens ++ .comma :: Code.jsonTokens rest

namespace Program

/-- The JSON tokens of a program. -/
def jsonTokens (p : Program) : List Token :=
  [.braceOpen, .key "nodes", .colon, .bracketOpen] ++ p.code.jsonTokens ++
    [.bracketClose, .comma, .key "version", .colon, .number (.integer p.version.toNat),
      .braceClose]

/-- The JSON text of a program. -/
def toJson (p : Program) : String := Json.render p.jsonTokens

end Program

/-! ### Reading -/

/-- The fields of an assignment as far as they have been read. -/
structure AssignDraft where
  value : Option Int32 := none
  offset : Option (Option Int32) := none

/-- An assignment; in an object its offset may be left out. -/
def AssignDraft.record : Record AssignDraft Instr where
  expected := "struct variant Node::Assign"
  fields :=
    [.of "value" value (fun d v => { d with value := some v }) Json.readInt32,
      .of "offset" offset (fun d o => { d with offset := some o }) (Json.readOption Json.readInt32)]
  draft := {}
  complete d := do return .assign (← Json.required "value" d.value) (d.offset.getD none)
  shortened count _ := .error (.wrongLength count "struct variant Node::Assign with 2 elements")

def Instr.variants : List (String × Payload Instr) :=
  [("PointerMove", .single fun tokens => do
      let (count, rest) ← Json.readInt32 tokens
      return (move count, rest)),
    ("CellAdjust", .single fun tokens => do
      let (count, rest) ← Json.readInt32 tokens
      return (adjust count, rest)),
    ("Output", .nothing output), ("Input", .nothing input), ("LoopStart", .nothing loopStart),
    ("LoopEnd", .nothing loopEnd), ("Assign", .record AssignDraft.record.read)]

/-- Reads an instruction. -/
def Instr.readJson : Json.Reader Instr := Json.readVariant Instr.variants

/-- The fields of a program as far as they have been read. -/
structure ProgramDraft where
  code : Option Code := none
  version : Option UInt32 := none

def ProgramDraft.record : Record ProgramDraft Program where
  expected := "struct Program"
  fields :=
    [.of "nodes" code (fun d c => { d with code := some c }) (Json.readList Instr.readJson),
      .of "version" version (fun d v => { d with version := some v }) Json.readUInt32]
  draft := {}
  complete d := do
    return ⟨← Json.required "nodes" d.code, ← Json.required "version" d.version⟩
  shortened count _ := .error (.wrongLength count "struct Program with 2 elements")

/-- Reads a program from a JSON text. -/
def Program.ofJson (text : String) : Except Json.Error Program :=
  Json.readText ProgramDraft.record.read text

end TapeC
