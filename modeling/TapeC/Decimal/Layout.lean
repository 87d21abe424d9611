import TapeC.Decimal.Shortest

namespace TapeC

/-- The exponents of the first digit for which a decimal is written positionally. -/
structure DecimalLayout where
  least : Int
  greatest : Int
deriving DecidableEq, Repr

namespace DecimalLayout

/-- Digits with the point after a given count of them, at least one digit on either side. -/
def positional (digits : List Char) (point : Int) : List Char :=
  if point ≤ 0 then
    ['0', '.'] ++ List.replicate point.natAbs '0' ++ digits
  else
    let whole := digits.take point.toNat ++ List.replicate (point.toNat - digits.length) '0'
    let rest := digits.drop point.toNat
    whole ++ ['.'] ++ (if rest.isEmpty then ['0'] else rest)

/-- Digits with the point after the first of them, and an exponent with its sign. -/
def scientific (digits : List Char) (exponent : Int) : List Char :=
  let rest := digits.drop 1
  digits.take 1 ++ (if rest.isEmpty then [] else '.' :: rest) ++
    ['e', if exponent < 0 then '-' else '+'] ++ Nat.toDigits 10 exponent.natAbs

/-- The text of a decimal; zeros at its end are not written. -/
def render (layout : DecimalLayout) (negative : Bool) (d : Decimal) : String :=
  let all := Nat.toDigits 10 d.digits
  let digits := (all.reverse.dropWhile (· == '0')).reverse
  let exponent := all.length + d.exponent - 1
  let text :=
    if d.digits = 0 then ['0', '.', '0']
    else if layout.least ≤ exponent ∧ exponent ≤ layout.greatest then
      positional digits (exponent + 1)
    else scientific digits exponent
  String.ofList (if negative then '-' :: text else text)

end DecimalLayout

/-- The text of a finite number, in its shortest form. -/
def Binary64.render (x : Binary64) (layout : DecimalLayout) : String :=
  layout.render x.isNegative x.shortest

end TapeC
