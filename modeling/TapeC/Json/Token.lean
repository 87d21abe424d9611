import TapeC.Json.Fault
import TapeC.Json.Number

namespace TapeC.Json

/-- What a broken token began as. -/
inductive Start where
  | word
  | number
  | string
deriving DecidableEq, Repr

inductive Token where
  | braceOpen
  | braceClose
  | bracketOpen
  | bracketClose
  | colon
  | comma
  | null
  | bool (value : Bool)
  | number (value : Number)
  | string (text : String)
  /-- A whole string that is no text. -/
  | faultyString (fault : Fault)
  /-- A token that cannot be completed; nothing is known of what follows. -/
  | broken (start : Start) (whenRead whenSkipped : Fault)
  /-- A character with which no token begins. -/
  | other
deriving DecidableEq, Repr

end TapeC.Json
