import TapeC.Proofs.NormalForm

namespace TapeC

/-- Whether no two neighbours in code have a count. -/
def Code.Apart (count? : Instr → Option Int32) (code : Code) : Prop :=
  code.IsChain fun i j => ¬((count? i).isSome = true ∧ (count? j).isSome = true)

/-- Whether code has no zero idiom. -/
def Code.IdiomFree (acceptsIncrement : Bool) (code : Code) : Prop :=
  ∀ step, (step = -1 ∨ acceptsIncrement = true ∧ step = 1) →
    ¬[.loopStart, .adjust step, .loopEnd] <:+: code

/-- Whether there is no place in code where a pass has something to do. -/
def Peephole.Settled (p : Peephole) : Pass → Code → Prop
  | .moves, code => code.Apart Instr.moveCount?
  | .adjusts, code => code.Apart Instr.adjustCount?
  | .zeroIdiom, code => code.IdiomFree p.acceptsIncrement

theorem Code.Apart.mergeRuns_eq {count? : Instr → Option Int32}
    {merge : Int32 → Int32 → Option Instr} {code : Code} (apart : code.Apart count?) :
    Peephole.mergeRuns count? merge none code = code := by
  induction code with
  | nil => rfl
  | cons i rest ih =>
    obtain ⟨next, later⟩ := List.isChain_cons.mp apart
    have hrest := ih later
    cases hi : count? i with
    | none => rw [Peephole.mergeRuns_uncounted hi, hrest]
    | some a =>
      cases rest with
      | nil => rfl
      | cons j rest =>
        have hj : count? j = none := by
          have separate := next j rfl
          simpa [hi] using separate
        rw [Peephole.mergeRuns_before_uncounted hj, hrest]

theorem Code.IdiomFree.tail {acceptsIncrement : Bool} {i : Instr} {rest : Code}
    (free : Code.IdiomFree acceptsIncrement (i :: rest)) : rest.IdiomFree acceptsIncrement := by
  intro step zero inside
  exact free step zero (List.infix_cons inside)

theorem Code.IdiomFree.clearIdioms_eq {acceptsIncrement : Bool} {code : Code}
    (free : code.IdiomFree acceptsIncrement) : code.clearIdioms acceptsIncrement = code := by
  fun_induction Code.clearIdioms acceptsIncrement code with
  | case1 step rest zero ih =>
    have first : [.loopStart, .adjust step, .loopEnd] <+:
        Instr.loopStart :: .adjust step :: .loopEnd :: rest := ⟨rest, rfl⟩
    exact absurd first.isInfix (free step zero)
  | case2 step rest nonzero ih => rw [ih free.tail]
  | case3 i rest other ih => rw [ih free.tail]
  | case4 => rfl

namespace Peephole

variable (p : Peephole) (pass : Pass)

theorem settled_runPass (code : Code) : p.Settled pass (p.runPass pass code) := by
  cases pass with
  | moves => exact mergeRuns_apart none code
  | adjusts => exact mergeRuns_apart none code
  | zeroIdiom =>
    intro step zero
    rw [runPass, collapseZeroIdiom_eq_clearIdioms]
    exact Code.idiom_not_infix_clearIdioms zero code

/-- Settled code is exactly what a pass leaves alone. -/
theorem runPass_eq_self_iff {code : Code} :
    p.runPass pass code = code ↔ p.Settled pass code := by
  constructor
  · intro h
    have settled := p.settled_runPass pass code
    rwa [h] at settled
  · intro settled
    cases pass with
    | moves => exact settled.mergeRuns_eq
    | adjusts => exact settled.mergeRuns_eq
    | zeroIdiom =>
      rw [runPass, collapseZeroIdiom_eq_clearIdioms]
      exact Code.IdiomFree.clearIdioms_eq settled

end Peephole

/-- A pass leaves nothing to do for itself: its result is settled, and to run it again changes nothing. -/
theorem pass_idempotent (p : Peephole) (pass : Pass) (code : Code) :
    p.Settled pass (p.runPass pass code) ∧
      p.runPass pass (p.runPass pass code) = p.runPass pass code := by
  have settled := p.settled_runPass pass code
  exact ⟨settled, (p.runPass_eq_self_iff pass).mpr settled⟩

/-- The passes together do leave something to do: adjustments that cancel bring moves together. -/
example :
    let once := Peephole.optimize {} [.move 1, .adjust 1, .adjust (-1), .move 2]
    once = [.move 1, .move 2] ∧ Peephole.optimize {} once = [.move 3] := by
  decide

end TapeC
