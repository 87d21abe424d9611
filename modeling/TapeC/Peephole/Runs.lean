import TapeC.Instr

namespace TapeC.Peephole

/-- Scans code with an instruction held back. Where the held one and the next both have a count,
the merge of the two counts is held instead, and nothing is held if they cancel. -/
def mergeRuns (count? : Instr → Option Int32) (merge : Int32 → Int32 → Option Instr) :
    Option Instr → Code → Code
  | held, [] => held.toList
  | held, now :: rest =>
    match held.bind count?, count? now with
    | some a, some b => mergeRuns count? merge (merge a b) rest
    | _, _ => held.toList ++ mergeRuns count? merge (some now) rest

/-- Reduces a count modulo 256 into the range of a signed byte. -/
def wrapCell (count : Int32) : Int32 := count.toInt8.toInt32

/-- Merges runs of moves. -/
def mergeMoves (code : Code) : Code :=
  mergeRuns Instr.moveCount? (fun a b => Instr.move? (a + b)) none code

/-- Merges runs of adjustments; each sum is reduced to the range of a signed byte if cells wrap. -/
def mergeAdjusts (wrapCells : Bool) (code : Code) : Code :=
  mergeRuns Instr.adjustCount?
    (fun a b => Instr.adjust? (if wrapCells then wrapCell (a + b) else a + b)) none code

end TapeC.Peephole
