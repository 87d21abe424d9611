import TapeC.Json.Reader
import TapeC.Peephole

namespace TapeC

open Json (Record Payload)

def Pass.variants : List (String × Payload Pass) :=
  standard.map fun p => (p.name, .nothing p)

/-- Reads the name of a pass. -/
def Pass.readJson : Json.Reader Pass := Json.readVariant Pass.variants

/-- The fields of an optimiser as far as they have been read. -/
structure PeepholeDraft where
  passes : Option (List Pass) := none
  wrapCells : Option Bool := none
  acceptsIncrement : Option Bool := none

/-- The optimiser of a draft. -/
def PeepholeDraft.toPeephole (d : PeepholeDraft) : Peephole where
  passes := d.passes.getD ({} : Peephole).passes
  wrapCells := d.wrapCells.getD ({} : Peephole).wrapCells
  acceptsIncrement := d.acceptsIncrement.getD ({} : Peephole).acceptsIncrement

def PeepholeDraft.record : Record PeepholeDraft Peephole where
  expected := "struct OptimizerConfig"
  fields :=
    [.of "passes" passes (fun d p => { d with passes := some p }) (Json.readList Pass.readJson),
      .of "wrap_cells" wrapCells (fun d b => { d with wrapCells := some b }) Json.readBool,
      .of "zero_idiom_accepts_increment" acceptsIncrement
        (fun d b => { d with acceptsIncrement := some b }) Json.readBool]
  draft := {}
  complete d := .ok d.toPeephole
  shortened _ d := .ok d.toPeephole

/-- The fields of the tally of one pass as far as they have been read. -/
structure PassTallyDraft where
  pass : Option Pass := none
  before : Option Nat := none
  after : Option Nat := none

def PassTallyDraft.record : Record PassTallyDraft PassTally where
  expected := "struct PassStats"
  fields :=
    [.of "pass" pass (fun d p => { d with pass := some p }) Pass.readJson,
      .of "nodes_before" before (fun d n => { d with before := some n })
        (Json.readNat64 "usize"),
      .of "nodes_after" after (fun d n => { d with after := some n }) (Json.readNat64 "usize")]
  draft := {}
  complete d := do
    return ⟨← Json.required "pass" d.pass, ← Json.required "nodes_before" d.before,
      ← Json.required "nodes_after" d.after⟩
  shortened count _ := .error (.wrongLength count "struct PassStats with 3 elements")

/-- The fields of a tally as far as they have been read. -/
structure TallyDraft where
  before : Option Nat := none
  after : Option Nat := none
  passes : Option (List PassTally) := none

def TallyDraft.record : Record TallyDraft Tally where
  expected := "struct OptimizationStats"
  fields :=
    [.of "nodes_before" before (fun d n => { d with before := some n })
        (Json.readNat64 "usize"),
      .of "nodes_after" after (fun d n => { d with after := some n }) (Json.readNat64 "usize"),
      .of "passes" passes (fun d p => { d with passes := some p })
        (Json.readList PassTallyDraft.record.read)]
  draft := {}
  complete d := do
    return ⟨← Json.required "nodes_before" d.before, ← Json.required "nodes_after" d.after,
      ← Json.required "passes" d.passes⟩
  shortened count _ := .error (.wrongLength count "struct OptimizationStats with 3 elements")

/-- Reads a tally from a JSON text. -/
def Tally.ofJson (text : String) : Except Json.Error Tally :=
  Json.readText TallyDraft.record.read text

end TapeC
