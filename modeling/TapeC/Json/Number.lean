import TapeC.Decimal.Binary64

namespace TapeC.Json

/-- What a numeral denotes. -/
inductive Number where
  /-- An integer from -2^63 up to 2^64 - 1. -/
  | integer (value : Int)
  | real (value : Binary64)
  /-- A numeral beyond the largest floating-point number. -/
  | tooLarge
deriving DecidableEq, Repr

/-- A numeral as written; the digits stand last first. -/
structure Numeral where
  negative : Bool := false
  whole : List Nat := []
  fraction : List Nat := []
  smallExponent : Bool := false
  exponent : List Nat := []
deriving DecidableEq, Repr

namespace Numeral

/-- The largest significand that is kept exactly. -/
def maxSignificand : Nat := 0xffffffffffffffff

/-- The number that digits spell, the last digit first. -/
def ofDigits : List Nat → Nat
  | [] => 0
  | digit :: digits => ofDigits digits * 10 + digit

/-- Appends digits to a significand while it fits: the significand, and how many digits were left
over from the first that did not fit. -/
def extend : Nat → List Nat → Nat × Nat
  | significand, [] => (significand, 0)
  | significand, digit :: digits =>
    let next := significand * 10 + digit
    if next ≤ maxSignificand then extend next digits else (significand, digits.length + 1)

/-- The significand and the power of ten of a numeral with a fraction or an exponent, or with too
many digits. Digits that do not fit are dropped, and those before the point count for the power. -/
def parts (n : Numeral) : Nat × Int :=
  let (significand, dropped) := extend 0 n.whole.reverse
  let (significand, ignored) := extend significand n.fraction.reverse
  let kept := n.fraction.length - ignored
  let exponent : Int := ofDigits n.exponent
  (significand, dropped - kept + if n.smallExponent then -exponent else exponent)

/-- The floating-point number of a numeral. -/
def toReal (n : Numeral) : Number :=
  let (significand, exponent) := n.parts
  match Binary64.ofDecimal? n.negative significand exponent with
  | some x => .real x
  | none => .tooLarge

/-- What a numeral denotes. Minus zero is no integer. -/
def toNumber (n : Numeral) : Number :=
  if n.fraction.isEmpty ∧ n.exponent.isEmpty then
    let magnitude := ofDigits n.whole
    if n.negative then
      if 0 < magnitude ∧ magnitude ≤ 0x8000000000000000 then .integer (-magnitude) else n.toReal
    else if magnitude ≤ maxSignificand then .integer magnitude
    else n.toReal
  else n.toReal

end Numeral

end TapeC.Json
