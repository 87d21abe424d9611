import TapeC.Source

namespace TapeC

/-- The step by one in the direction of a count. -/
def stride (count : Int32) : Int32 := if 0 ≤ count then 1 else -1

theorem stride_cases (count : Int32) :
    0 ≤ count.toInt ∧ stride count = 1 ∨ count.toInt < 0 ∧ stride count = -1 := by
  have sign := @Int32.le_iff_toInt_le 0 count
  rw [Int32.toInt_zero] at sign
  unfold stride
  split
  next h => exact .inl ⟨sign.mp h, rfl⟩
  next h =>
    have := mt sign.mpr h
    exact .inr ⟨by omega, rfl⟩

theorem stride_toInt (count : Int32) :
    0 ≤ count.toInt ∧ (stride count).toInt = 1 ∨ count.toInt < 0 ∧ (stride count).toInt = -1 := by
  have one : (1 : Int32).toInt = 1 := by decide
  have minus : (-1 : Int32).toInt = -1 := by decide
  rcases stride_cases count with ⟨h, hs⟩ | ⟨h, hs⟩
  · exact .inl ⟨h, by rw [hs, one]⟩
  · exact .inr ⟨h, by rw [hs, minus]⟩

/-- A count is as many strides as its magnitude. -/
theorem toInt_eq_strides (count : Int32) :
    count.toInt = count.toInt.natAbs * (stride count).toInt := by
  rcases stride_toInt count with ⟨h, hs⟩ | ⟨h, hs⟩
  · rw [hs]
    omega
  · rw [hs]
    omega

theorem strides_succ (count : Nat) (unit : Int) :
    ((count + 1 : Nat) : Int) * unit = unit + count * unit := by
  rw [Int.natCast_add, Int.add_mul, Int.natCast_one, Int.one_mul, Int.add_comm]

/-- The instructions that the command characters of an instruction stand for. -/
def Instr.units (i : Instr) : Code := i.symbols.filterMap Instr.ofChar?

/-- The unit steps of a selected instruction, and any other one as it is. -/
def Instr.expandIf (select : Instr → Bool) (i : Instr) : Code :=
  if select i then i.units else [i]

theorem Code.ofSource_toSource (code : Code) :
    Code.ofSource code.toSource = code.flatMap Instr.units := by
  rw [ofSource, toSource, String.toList_ofList, symbols, List.filterMap_flatMap]
  rfl

/-- Strokes stand for strides, where each of the two characters stands for a step of its kind. -/
theorem filterMap_strokes {up down : Char} {step : Int32 → Instr}
    (hup : Instr.ofChar? up = some (step 1)) (hdown : Instr.ofChar? down = some (step (-1)))
    (count : Int32) :
    (strokes count up down).filterMap Instr.ofChar? =
      List.replicate count.toInt.natAbs (step (stride count)) := by
  unfold strokes stride
  split
  next => rw [List.filterMap_replicate_of_some hup]
  next => rw [List.filterMap_replicate_of_some hdown]

namespace Instr

theorem units_move (count : Int32) :
    (move count).units = List.replicate count.toInt.natAbs (move (stride count)) :=
  filterMap_strokes rfl rfl count

theorem units_adjust (count : Int32) :
    (adjust count).units = List.replicate count.toInt.natAbs (adjust (stride count)) :=
  filterMap_strokes rfl rfl count

theorem units_assign (value : Int32) (offset : Option Int32) :
    (assign value offset).units =
      (move (offset.getD 0)).units ++ [loopStart, adjust (-1), loopEnd] ++ (adjust value).units ++
        (move (-offset.getD 0)).units := by
  simp only [units, symbols, List.filterMap_append]
  rfl

end Instr

end TapeC
