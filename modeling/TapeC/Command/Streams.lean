namespace TapeC.Command

/-- Why a standard stream fails, in the words of the operating system. -/
structure StreamError where
  message : String
deriving DecidableEq, Repr

/-- How much the standard output takes. -/
inductive Stdout where
  | endless
  /-- It fails behind so many bytes. -/
  | limited (limit : Nat) (error : StreamError)
deriving DecidableEq, Repr

/-- The standard streams of a call: what the input gives, and the output. -/
structure Streams where
  stdin : Except StreamError (List UInt8)
  stdout : Stdout

/-- How much of an output is written at once: all up to the last line end, and what follows it as well if
that is long. The rest is written when the call is over, and nobody asks whether this fails. -/
def atOnce (bytes : List UInt8) : Nat :=
  let rest := (bytes.reverse.takeWhile (· != 10)).length
  if rest < 1024 then bytes.length - rest else bytes.length

namespace Stdout

/-- The part of an output that gets through. -/
def delivered : Stdout → List UInt8 → List UInt8
  | endless, bytes => bytes
  | limited limit _, bytes => bytes.take limit

/-- The failure of an output, if it is noticed. -/
def error? : Stdout → List UInt8 → Option StreamError
  | endless, _ => none
  | limited limit error, bytes => if limit < atOnce bytes then some error else none

end Stdout

end TapeC.Command
