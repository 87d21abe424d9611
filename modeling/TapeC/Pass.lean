import TapeC.Text.Blank

namespace TapeC

/-- One optimisation pass. -/
inductive Pass where
  /-- Merges runs of moves. -/
  | moves
  /-- Merges runs of adjustments. -/
  | adjusts
  /-- Turns a loop that counts its cell down to zero into an assignment. -/
  | zeroIdiom
deriving DecidableEq, Repr

/-- A name that belongs to no pass. -/
structure UnknownPass where
  name : String
deriving DecidableEq, Repr

def UnknownPass.message (e : UnknownPass) : String := "Unknown optimization pass: " ++ e.name

namespace Pass

def name : Pass → String
  | moves => "pointer-moves"
  | adjusts => "cell-adjusts"
  | zeroIdiom => "zero-idiom"

/-- The standard order: the zero idiom is looked for after adjustments have been merged, since it
has a single adjustment in it. -/
def standard : List Pass := [moves, adjusts, zeroIdiom]

/-- The pass of a name, spelt exactly. -/
def ofName (name : String) : Except UnknownPass Pass :=
  if name = moves.name then .ok moves
  else if name = adjusts.name then .ok adjusts
  else if name = zeroIdiom.name then .ok zeroIdiom
  else .error ⟨name⟩

/-- The pieces of a list: the texts between commas, trimmed, the empty ones left out. -/
def pieces (list : String) : List String :=
  (((list.toList.splitOn ',').map Text.trim).filter (!·.isEmpty)).map String.ofList

/-- The passes that a list names, or the first of its pieces that is no name. -/
def parseList (list : String) : Except UnknownPass (List Pass) := (pieces list).mapM ofName

end Pass

end TapeC
