import TapeC.Proofs.Nesting
import TapeC.Proofs.Store

namespace TapeC

/-- Why structured execution stops. -/
inductive Verdict where
  | finished
  | outOfBounds (place : Int)
  | outOfFuel
deriving DecidableEq, Repr

/-- How structured execution ends: why, with how much fuel left, and with which data. -/
structure Halt (size : Nat) where
  verdict : Verdict
  fuel : Nat
  store : Store size

variable {size : Nat}

/-- An end of structured execution that has no more fuel left than there was. -/
abbrev HaltWithin (size fuel : Nat) := { h : Halt size // h.fuel ≤ fuel }

/-- Goes on with the data and the fuel that are left, unless execution has stopped already. -/
def Halt.andThen (h : Halt size) (next : (fuel : Nat) → Store size → HaltWithin size fuel) :
    Halt size :=
  match h.verdict with
  | .finished => (next h.fuel h.store).1
  | _ => h

theorem Halt.andThen_fuel_le (h : Halt size)
    (next : (fuel : Nat) → Store size → HaltWithin size fuel) :
    (h.andThen next).fuel ≤ h.fuel := by
  unfold andThen
  split
  next => exact (next h.fuel h.store).2
  next => exact Nat.le_refl _

/-- Repeats a loop body until the cell under the head is zero at the loop's end. The bound on the
fuel that a run of the body leaves is what ends the repetition. -/
def repeatBody (body : (fuel : Nat) → Store size → HaltWithin size fuel)
    (fuel : Nat) (s : Store size) : HaltWithin size fuel :=
  match body fuel s with
  | ⟨⟨.finished, 0, t⟩, _⟩ => ⟨⟨.outOfFuel, 0, t⟩, Nat.zero_le _⟩
  | ⟨⟨.finished, left + 1, t⟩, bound⟩ =>
    if t.cell = 0 then ⟨⟨.finished, left, t⟩, Nat.le_of_succ_le bound⟩
    else
      let again := repeatBody body left t
      ⟨again.1, Nat.le_trans again.2 (Nat.le_of_succ_le bound)⟩
  | ⟨⟨.outOfBounds place, left, t⟩, bound⟩ => ⟨⟨.outOfBounds place, left, t⟩, bound⟩
  | ⟨⟨.outOfFuel, left, t⟩, bound⟩ => ⟨⟨.outOfFuel, left, t⟩, bound⟩
termination_by fuel

namespace Block

/-- Evaluates a block with a limit of fuel, with the bound on what is left. -/
def evalWithin : Block → (fuel : Nat) → Store size → HaltWithin size fuel
  | .done, fuel, s => ⟨⟨.finished, fuel, s⟩, Nat.le_refl _⟩
  | .step _ _ _, 0, s => ⟨⟨.outOfFuel, 0, s⟩, Nat.le_refl _⟩
  | .step i _ next, fuel + 1, s =>
    match s.perform i with
    | .ok t =>
      let rest := next.evalWithin fuel t
      ⟨rest.1, Nat.le_succ_of_le rest.2⟩
    | .error place => ⟨⟨.outOfBounds place, fuel, s⟩, Nat.le_succ _⟩
  | .loop _ _, 0, s => ⟨⟨.outOfFuel, 0, s⟩, Nat.le_refl _⟩
  | .loop body next, fuel + 1, s =>
    if s.cell = 0 then
      let rest := next.evalWithin fuel s
      ⟨rest.1, Nat.le_succ_of_le rest.2⟩
    else
      let repeated := repeatBody body.evalWithin fuel s
      ⟨repeated.1.andThen next.evalWithin,
        Nat.le_succ_of_le (Nat.le_trans (repeated.1.andThen_fuel_le _) repeated.2)⟩

/-- Evaluates a block with a limit of fuel. -/
def eval (block : Block) (fuel : Nat) (s : Store size) : Halt size := (block.evalWithin fuel s).1

theorem eval_step_zero (i : Instr) (unmarked : i.isLoopMark = false) (next : Block)
    (s : Store size) : (Block.step i unmarked next).eval 0 s = ⟨.outOfFuel, 0, s⟩ := rfl

theorem eval_step_ok {i : Instr} {s t : Store size} (unmarked : i.isLoopMark = false)
    (next : Block) (fuel : Nat) (h : s.perform i = .ok t) :
    (Block.step i unmarked next).eval (fuel + 1) s = next.eval fuel t := by
  simp only [eval, evalWithin, h]

theorem eval_step_error {i : Instr} {s : Store size} {place : Int}
    (unmarked : i.isLoopMark = false) (next : Block) (fuel : Nat)
    (h : s.perform i = .error place) :
    (Block.step i unmarked next).eval (fuel + 1) s = ⟨.outOfBounds place, fuel, s⟩ := by
  simp only [eval, evalWithin, h]

theorem eval_loop_zero (body next : Block) (s : Store size) :
    (Block.loop body next).eval 0 s = ⟨.outOfFuel, 0, s⟩ := rfl

theorem eval_loop_skip {s : Store size} (body next : Block) (fuel : Nat) (h : s.cell = 0) :
    (Block.loop body next).eval (fuel + 1) s = next.eval fuel s := by
  simp only [eval, evalWithin, if_pos h]

theorem eval_loop_enter {s : Store size} (body next : Block) (fuel : Nat) (h : s.cell ≠ 0) :
    (Block.loop body next).eval (fuel + 1) s =
      (repeatBody body.evalWithin fuel s).1.andThen next.evalWithin := by
  simp only [eval, evalWithin, if_neg h]

theorem evalWithin_of_eval {block : Block} {fuel : Nat} {s : Store size} {h : Halt size}
    (he : block.eval fuel s = h) : ∃ bound, block.evalWithin fuel s = ⟨h, bound⟩ :=
  ⟨he ▸ (block.evalWithin fuel s).2, Subtype.ext he⟩

/-- After a run of the body a loop goes on as if it were reached anew: the charge at its end is the
one that its start would make. -/
theorem eval_loop_again {s t : Store size} {body : Block} {fuel left : Nat} (next : Block)
    (h : s.cell ≠ 0) (hb : body.eval fuel s = ⟨.finished, left, t⟩) :
    (Block.loop body next).eval (fuel + 1) s = (Block.loop body next).eval left t := by
  obtain ⟨bound, hw⟩ := evalWithin_of_eval hb
  rw [eval_loop_enter body next fuel h, repeatBody, hw]
  cases left with
  | zero => rfl
  | succ left =>
    by_cases ht : t.cell = 0
    · rw [eval_loop_skip body next left ht]
      simp only [if_pos ht]
      rfl
    · rw [eval_loop_enter body next left ht]
      simp only [if_neg ht]

theorem eval_loop_failed {s t : Store size} {body : Block} {fuel left : Nat} {verdict : Verdict}
    (next : Block) (h : s.cell ≠ 0) (hb : body.eval fuel s = ⟨verdict, left, t⟩)
    (hv : verdict ≠ .finished) :
    (Block.loop body next).eval (fuel + 1) s = ⟨verdict, left, t⟩ := by
  obtain ⟨bound, hw⟩ := evalWithin_of_eval hb
  rw [eval_loop_enter body next fuel h, repeatBody, hw]
  cases verdict with
  | finished => exact absurd rfl hv
  | outOfBounds place => rfl
  | outOfFuel => rfl

end Block

end TapeC
