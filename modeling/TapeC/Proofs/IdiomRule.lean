import TapeC.Proofs.Reoptimize

namespace TapeC

/-- Rewrites zero idioms from the front. -/
def Code.clearIdioms (acceptsIncrement : Bool) : Code → Code
  | .loopStart :: .adjust step :: .loopEnd :: rest =>
    if step = -1 ∨ acceptsIncrement = true ∧ step = 1 then
      .clear :: clearIdioms acceptsIncrement rest
    else .loopStart :: clearIdioms acceptsIncrement (.adjust step :: .loopEnd :: rest)
  | i :: rest => i :: clearIdioms acceptsIncrement rest
  | [] => []

/-- A part of code that the rule takes at once. -/
inductive IdiomPart (acceptsIncrement : Bool) where
  | kept (i : Instr)
  | idiom (step : Int32) (zero : step = -1 ∨ acceptsIncrement = true ∧ step = 1)

namespace IdiomPart

variable {acceptsIncrement : Bool}

def code : IdiomPart acceptsIncrement → Code
  | kept i => [i]
  | idiom step _ => [.loopStart, .adjust step, .loopEnd]

/-- The instruction that takes the place of a part. -/
def result : IdiomPart acceptsIncrement → Instr
  | kept i => i
  | idiom _ _ => .clear

end IdiomPart

namespace Peephole

variable {acceptsIncrement : Bool}

theorem isZeroStep_iff {step : Int32} :
    isZeroStep acceptsIncrement step = true ↔ step = -1 ∨ acceptsIncrement = true ∧ step = 1 := by
  simp [isZeroStep]

theorem collapseZeroIdiom_eq_clearIdioms (acceptsIncrement : Bool) (code : Code) :
    collapseZeroIdiom acceptsIncrement code = code.clearIdioms acceptsIncrement := by
  fun_induction Code.clearIdioms acceptsIncrement code with
  | case1 step rest zero ih => rw [collapseZeroIdiom_idiom (isZeroStep_iff.mpr zero), ih]
  | case2 step rest nonzero ih =>
    have window : isZeroIdiom acceptsIncrement (some .loopStart)
        (Instr.adjust step :: .loopEnd :: rest)[0]? (Instr.adjust step :: .loopEnd :: rest)[1]? =
          false :=
      Bool.eq_false_iff.mpr (mt isZeroStep_iff.mp nonzero)
    rw [collapseZeroIdiom_cons window, ih]
  | case3 i rest other ih =>
    have window : isZeroIdiom acceptsIncrement (some i) rest[0]? rest[1]? = false := by
      refine Bool.eq_false_iff.mpr fun h => ?_
      obtain ⟨step, more, rfl, rfl, _⟩ := eq_of_isZeroIdiom h
      exact other step more rfl rfl
    rw [collapseZeroIdiom_cons window, ih]
  | case4 => rfl

end Peephole

namespace Code

variable {acceptsIncrement : Bool}

theorem clearIdioms_idiom {step : Int32} (zero : step = -1 ∨ acceptsIncrement = true ∧ step = 1)
    (rest : Code) :
    clearIdioms acceptsIncrement (.loopStart :: .adjust step :: .loopEnd :: rest) =
      .clear :: clearIdioms acceptsIncrement rest := by
  rw [clearIdioms, if_pos zero]

theorem clearIdioms_cons {i : Instr} {rest : Code}
    (other : ∀ step more, i = .loopStart → rest = .adjust step :: .loopEnd :: more →
      ¬(step = -1 ∨ acceptsIncrement = true ∧ step = 1)) :
    clearIdioms acceptsIncrement (i :: rest) = i :: clearIdioms acceptsIncrement rest := by
  rw [clearIdioms.eq_def]
  split
  next step more h =>
    cases h
    exact if_neg (other step more rfl rfl)
  next j more _ h =>
    cases h
    rfl
  next h => cases h

theorem exists_idiomParts (code : Code) :
    ∃ parts : List (IdiomPart acceptsIncrement), code = parts.flatMap IdiomPart.code ∧
      code.clearIdioms acceptsIncrement = parts.map IdiomPart.result := by
  have extend : ∀ (part : IdiomPart acceptsIncrement) {rest : Code},
      (∃ parts : List (IdiomPart acceptsIncrement), rest = parts.flatMap IdiomPart.code ∧
        rest.clearIdioms acceptsIncrement = parts.map IdiomPart.result) →
      ∃ parts : List (IdiomPart acceptsIncrement), part.code ++ rest = parts.flatMap IdiomPart.code ∧
        part.result :: rest.clearIdioms acceptsIncrement = parts.map IdiomPart.result := by
    rintro part rest ⟨parts, given, left⟩
    exact ⟨part :: parts, by rw [List.flatMap_cons, ← given], by rw [List.map_cons, ← left]⟩
  fun_induction Code.clearIdioms acceptsIncrement code with
  | case1 step rest zero ih => exact extend (.idiom step zero) ih
  | case2 step rest nonzero ih => exact extend (.kept .loopStart) ih
  | case3 i rest other ih => exact extend (.kept i) ih
  | case4 => exact ⟨[], rfl, rfl⟩

end Code

open Peephole

/-- The window scan gives what the rule gives. So the parts of code leave one instruction each, in their
order: a zero idiom an assignment of zero, and any other instruction itself. -/
theorem window_scan_follows_rule (acceptsIncrement : Bool) (code : Code) :
    collapseZeroIdiom acceptsIncrement code = code.clearIdioms acceptsIncrement ∧
    ∃ parts : List (IdiomPart acceptsIncrement), code = parts.flatMap IdiomPart.code ∧
      collapseZeroIdiom acceptsIncrement code = parts.map IdiomPart.result := by
  rw [collapseZeroIdiom_eq_clearIdioms]
  exact ⟨rfl, code.exists_idiomParts⟩

end TapeC
