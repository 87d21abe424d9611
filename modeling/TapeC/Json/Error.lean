import TapeC.Decimal.Layout
import TapeC.Json.Token
import TapeC.Text.Quoted

namespace TapeC.Json

/-- What stands where something else was expected. -/
inductive Found where
  | null
  | bool (value : Bool)
  | integer (value : Int)
  | real (value : Binary64)
  | string (text : String)
  | list
  | object
  /-- The bare name of a variant. -/
  | name
deriving DecidableEq, Repr

/-- Floating-point numbers in messages are written positionally from 10^-5 up to 10^15. -/
def realLayout : DecimalLayout := ⟨-5, 15⟩

def Found.message : Found → String
  | .null => "null"
  | .bool value => "boolean `" ++ (if value then "true" else "false") ++ "`"
  | .integer value => "integer `" ++ toString value ++ "`"
  | .real value => "floating point `" ++ value.render realLayout ++ "`"
  | .string text => "string " ++ Text.quote text
  | .list => "sequence"
  | .object => "map"
  | .name => "unit variant"

/-- Why a value cannot be read. -/
inductive Error where
  | fault (fault : Fault)
  | wrongType (found : Found) (expected : String)
  | outOfRange (value : Int) (expected : String)
  | unknownVariant (name : String) (variants : List String)
  | missingField (name : String)
  | duplicateField (name : String)
  | wrongLength (length : Nat) (expected : String)
deriving DecidableEq, Repr

/-- What is wrong, in words. -/
def Error.detail : Error → String
  | .fault f => f.message
  | .wrongType found expected => "invalid type: " ++ found.message ++ ", expected " ++ expected
  | .outOfRange value expected =>
    "invalid value: " ++ (Found.integer value).message ++ ", expected " ++ expected
  | .unknownVariant name variants =>
    "unknown variant `" ++ name ++ "`, expected one of " ++
      ", ".intercalate (variants.map fun v => "`" ++ v ++ "`")
  | .missingField name => "missing field `" ++ name ++ "`"
  | .duplicateField name => "duplicate field `" ++ name ++ "`"
  | .wrongLength length expected =>
    "invalid length " ++ toString length ++ ", expected " ++ expected

def Error.message (e : Error) : String := "Serialization error: " ++ e.detail

end TapeC.Json
