import TapeC.Decimal.Binary64

namespace TapeC

/-- Digits times a power of ten. -/
structure Decimal where
  digits : Nat
  exponent : Int
deriving DecidableEq, Repr

namespace Decimal

/-- The exponent of the first digit of a positive fraction. -/
def leadingExponent (num den : Nat) : Int :=
  if den ≤ num then (Nat.toDigits 10 (num / den)).length - 1
  else -((List.range 400).find? fun j => den ≤ num * Nat.pow 10 j).getD 0

/-- A value between two bounds, all over one denominator; `closed` says whether the bounds
themselves count. -/
structure Interval where
  low : Nat
  value : Nat
  high : Nat
  den : Nat
  closed : Bool

/-- Whether an integer lies between the bounds. -/
def Interval.holds (i : Interval) (d : Nat) : Bool :=
  let n := d * i.den
  if i.closed then i.low ≤ n && n ≤ i.high else i.low < n && n < i.high

/-- The interval in units of a power of ten. -/
def Interval.inUnits (i : Interval) (exponent : Int) : Interval :=
  if 0 ≤ exponent then { i with den := i.den * Nat.pow 10 exponent.toNat }
  else
    let f := Nat.pow 10 exponent.natAbs
    { i with low := i.low * f, value := i.value * f, high := i.high * f }

/-- The integer between the bounds that is closest to the value, if there is one; of two equally
close ones the even. -/
def Interval.closest? (i : Interval) : Option Nat :=
  let d := i.value / i.den
  match i.holds d, i.holds (d + 1) with
  | true, true =>
    let twice := 2 * i.value
    let middle := (2 * d + 1) * i.den
    if twice < middle then some d
    else if middle < twice then some (d + 1)
    else some (if d % 2 = 0 then d else d + 1)
  | true, false => some d
  | false, true => some (d + 1)
  | false, false => none

end Decimal

namespace Binary64

/-- The decimals that round to the magnitude of a finite number, in quarters of its last place. The
place below a power of two is half as wide. -/
def interval (x : Binary64) : Decimal.Interval :=
  let m := 4 * x.significand
  let below := if x.fractionField = 0 ∧ 1 < x.exponentField then 1 else 2
  let up := Nat.pow 2 (x.exponent - 2).toNat
  let down := Nat.pow 2 (2 - x.exponent).toNat
  ⟨(m - below) * up, m * up, (m + 2) * up, down, x.significand % 2 = 0⟩

/-- The shortest decimal of the magnitude of a finite number. Seventeen digits always suffice. -/
def shortest (x : Binary64) : Decimal :=
  if x.significand = 0 then ⟨0, 0⟩
  else
    let i := x.interval
    let lead := Decimal.leadingExponent i.value i.den
    ((List.range 17).findSome? fun (places : Nat) =>
      let exponent := lead - places
      (i.inUnits exponent).closest?.map fun d => ⟨d, exponent⟩).getD ⟨0, 0⟩

end Binary64

end TapeC
