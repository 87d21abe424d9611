import TapeC.Proofs.CodeRefinement
import TapeC.Proofs.PeepholeRules

namespace TapeC

open Peephole

theorem Code.refines_zeroIdiom {size : Nat} {acceptsIncrement : Bool} {step : Int32}
    (h : isZeroStep acceptsIncrement step = true) (after : Code) :
    Code.Refines size (.loopStart :: .adjust step :: .loopEnd :: after) (.clear :: after) := by
  refine refines_of_nest after (fun next => .loop (.step (.adjust step) rfl .done) next) _ ?_
    (nest_cons_unmarked rfl after) fun next => .zeroIdiom h next
  simp only [Code.nest]
  cases after.nest with
  | none => rfl
  | some nested => rfl

namespace Peephole

variable {size : Nat} {p : Peephole} {code other : Code}

/-- Every rule refines the code it is applied to. -/
theorem Rewrites.refines (short : size ≤ 0x80000000) (h : p.Rewrites code other) :
    code.Refines size other := by
  cases h with
  | moves before after a b =>
    refine .append_left before (.keep rfl (Code.refines_merge rfl rfl rfl after (.moves short a b)) ?_)
    unfold Instr.move?
    split
    next hz => exact .inr ⟨rfl, hz ▸ Store.perform_move_zero⟩
    next => exact .inl rfl
  | adjusts before after a b =>
    refine .append_left before (.keep rfl (Code.refines_merge rfl rfl rfl after (.adjusts p a b)) ?_)
    unfold Instr.adjust?
    split
    next hz => exact .inr ⟨rfl, hz ▸ Store.perform_adjust_zero⟩
    next => exact .inl rfl
  | zeroIdiom before after h => exact .append_left before (Code.refines_zeroIdiom h after)

theorem optimize_refines (short : size ≤ 0x80000000) (p : Peephole) (code : Code) :
    code.Refines size (p.optimize code) := by
  have h := optimize_rewrites p code
  generalize p.optimize code = other at h ⊢
  induction h with
  | refl => exact .refl code
  | tail _ hr ih => exact ih.trans (hr.refines short)

end Peephole

theorem State.step_of_empty_tape {s : State} (empty : s.tape = #[]) (partners : Array Nat)
    (i : Instr) : ∃ stop, s.step partners i = .error stop ∧ stop ≠ .finished := by
  have hcell : ∀ offset : Int32, ∃ place, s.cellAt offset = .error (.outOfBounds place) := by
    intro offset
    refine ⟨(s.head : Int) + offset.toInt, ?_⟩
    simp only [State.cellAt, empty, Array.size_empty]
    rw [if_neg (by omega)]
  cases i with
  | move count =>
    obtain ⟨place, hp⟩ := hcell count
    exact ⟨.outOfBounds place, by simp [State.step, hp], by simp⟩
  | assign value offset =>
    obtain ⟨place, hp⟩ := hcell (offset.getD 0)
    exact ⟨.outOfBounds place, by simp [State.step, hp], by simp⟩
  | _ => exact ⟨.illegalAccess, by simp [State.step, empty], by simp⟩

/-- Without a cell only empty code has a clean run. -/
theorem Machine.code_eq_nil_of_run {limits : Limits} (none : limits.memorySize = 0) {code : Code}
    {input out : List UInt8} (h : ((Machine.new limits).run code input).1 = .ok out) :
    code = [] := by
  cases code with
  | nil => rfl
  | cons i rest =>
    cases hp : Code.loopPartners (i :: rest) with
    | error error =>
      rw [Machine.run_of_loopPartners_error hp] at h
      cases h
    | ok partners =>
      rw [Machine.run_of_loopPartners_ok hp] at h
      have first : (i :: rest)[(State.initial limits.memorySize input).position]? = some i := rfl
      have empty : (State.initial limits.memorySize input).tape = #[] := by
        simp [State.initial, none]
      cases hf : limits.maxFuel with
      | zero =>
        rw [hf, State.exec_zero first] at h
        cases h
      | succ fuel =>
        obtain ⟨stop, hs, hne⟩ := State.step_of_empty_tape empty partners i
        rw [hf, State.exec_error fuel first hs] at h
        cases stop with
        | finished => exact absurd rfl hne
        | _ => cases h

/-- Optimised code repeats every clean run: the output, the tape and the head are the same, and no
more fuel is used. -/
theorem optimize_clean_run (p : Peephole) (code : Code) (input : List UInt8) (limits : Limits)
    (short : limits.memorySize ≤ 0x80000000) {out : List UInt8}
    (clean : ((Machine.new limits).run code input).1 = .ok out) :
    ((Machine.new limits).run (p.optimize code) input).1 = .ok out ∧
      ((Machine.new limits).run (p.optimize code) input).2.tape =
        ((Machine.new limits).run code input).2.tape ∧
      ((Machine.new limits).run (p.optimize code) input).2.head =
        ((Machine.new limits).run code input).2.head ∧
      ((Machine.new limits).run (p.optimize code) input).2.fuelUsed ≤
        ((Machine.new limits).run code input).2.fuelUsed := by
  rcases Nat.eq_zero_or_pos limits.memorySize with none | positive
  · have hnil : code = [] := Machine.code_eq_nil_of_run none clean
    have hopt : p.optimize [] = [] := by
      have h := optimize_rewrites p []
      rcases h.cases_head with h | ⟨other, h, _⟩
      · exact h.symm
      · generalize hc : ([] : Code) = code at h
        cases h <;> simp at hc
    rw [hnil] at clean ⊢
    rw [hopt]
    exact ⟨clean, rfl, rfl, Nat.le_refl _⟩
  · obtain ⟨block, n, s, hb, fits, hr⟩ := Machine.finished_of_run limits positive clean
    obtain ⟨other, ho, href⟩ := (optimize_refines short p code).block hb
    obtain ⟨m, hm, hr'⟩ := href.finishes hr
    have before := Machine.run_of_runs limits positive hb hr fits
    have after := Machine.run_of_runs limits positive ho hr' (by omega)
    rw [before] at clean ⊢
    rw [after]
    exact ⟨clean, rfl, rfl, hm⟩

/-- Moves that merge, adjustments that wrap and a zero idiom in a loop. -/
theorem optimize_clean_run_nested_idiom :
    let code : Code := [.move 1, .move 1, .move (-1), .adjust 200, .adjust 59, .loopStart, .output,
      .loopStart, .adjust (-1), .loopEnd, .loopEnd, .input, .output]
    let before := (Machine.new ⟨3, 17⟩).run code [7]
    let after := (Machine.new ⟨3, 17⟩).run (Peephole.optimize {} code) [7]
    before.1 = .ok [3, 7] ∧ after.1 = .ok [3, 7] ∧ after.2.tape = before.2.tape ∧
      after.2.head = before.2.head ∧ after.2.fuelUsed ≤ before.2.fuelUsed := by
  intro code before after
  have clean : before.1 = .ok [3, 7] := by decide +kernel
  exact ⟨clean, optimize_clean_run {} code [7] ⟨3, 17⟩ (by decide) clean⟩

/-- Optimised code runs for ever if the given code does, and leaves the tape only if the given code
does. -/
theorem optimize_diverges_and_escapes (p : Peephole) (code : Code) (input : List UInt8)
    (size : Nat) (positive : 0 < size) (short : size ≤ 0x80000000) :
    ((∀ fuel, ∃ used,
        ((Machine.new ⟨size, fuel⟩).run code input).1 = .error (.fuelExhausted used)) →
      ∀ fuel, ∃ used,
        ((Machine.new ⟨size, fuel⟩).run (p.optimize code) input).1 =
          .error (.fuelExhausted used)) ∧
    ((∃ fuel place cells,
        ((Machine.new ⟨size, fuel⟩).run (p.optimize code) input).1 =
          .error (.outOfBounds place cells)) →
      ∃ fuel place cells,
        ((Machine.new ⟨size, fuel⟩).run code input).1 = .error (.outOfBounds place cells)) := by
  have refines := optimize_refines short p code
  constructor
  · intro forever
    obtain ⟨block, hb, none⟩ := (Machine.exhausted_iff positive code input).mp forever
    obtain ⟨other, ho, href⟩ := refines.block hb
    refine (Machine.exhausted_iff positive _ input).mpr ⟨other, ho, fun n r hr => ?_⟩
    obtain ⟨m, q, hq, _⟩ := href.reflects hr
    exact none m q hq
  · rintro ⟨fuel, place, cells, h⟩
    obtain ⟨other, n, s, ho, fits, hr⟩ := Machine.escaped_of_run _ positive h
    obtain ⟨block, hb, href⟩ := refines.block_of_block ho
    obtain ⟨m, q, hq, hqr⟩ := href.reflects hr
    cases q with
    | finished t => cases hqr.resolve_right id
    | escaped found t =>
      have hrun := Machine.run_of_runs ⟨size, m⟩ positive hb hq (Nat.le_refl _)
      exact ⟨m, found, size, congrArg Prod.fst hrun⟩

/-- A loop whose body undoes itself has no execution from a cell that is not zero. -/
theorem Block.undoing_loop_not_runs {size : Nat} {hi hd} {next : Block} {s : Store size} {n : Nat}
    {r : Outcome size} (nonzero : s.cell ≠ 0)
    (h : (Block.loop (.step (.adjust 1) hi (.step (.adjust (-1)) hd .done)) next).Runs s n r) :
    False := by
  induction h using Runs.loop_induction with
  | skip hz => exact nonzero hz
  | again _ hbody _ ih =>
    cases hbody with
    | step hp hrest =>
      cases hrest with
      | step hq hdone =>
        cases hdone
        have hsum := Store.perform_adjust_sum {} hp hq
        have hzero : Peephole.sumAdjusts {} 1 (-1) = 0 := by decide
        rw [hzero, Store.perform_adjust_zero] at hsum
        cases hsum
        exact ih nonzero
  | escapeBody _ hbody =>
    cases hbody with
    | step hp hrest =>
      cases hrest with
      | step hq hdone => cases hdone
      | escape hq => cases hq
    | escape hp => cases hp

/-- A loop that is emptied and still never ends, and two moves that leave the tape as one. -/
theorem optimize_diverges_and_escapes_cancelled_body :
    let undoing : Code := [.adjust 1, .loopStart, .adjust 1, .adjust (-1), .loopEnd]
    ((∀ fuel, ∃ used,
        ((Machine.new ⟨1, fuel⟩).run undoing []).1 = .error (.fuelExhausted used)) ∧
      ∀ fuel, ∃ used,
        ((Machine.new ⟨1, fuel⟩).run (Peephole.optimize {} undoing) []).1 =
          .error (.fuelExhausted used)) ∧
    (∃ fuel place cells,
        ((Machine.new ⟨4, fuel⟩).run (Peephole.optimize {} [.move 3, .move 2]) []).1 =
          .error (.outOfBounds place cells)) ∧
      ∃ fuel place cells,
        ((Machine.new ⟨4, fuel⟩).run [.move 3, .move 2] []).1 =
          .error (.outOfBounds place cells) := by
  intro undoing
  have exhausted : ∀ fuel, ∃ used,
      ((Machine.new ⟨1, fuel⟩).run undoing []).1 = .error (.fuelExhausted used) := by
    refine (Machine.exhausted_iff (by decide) _ _).mpr ⟨_, rfl, fun n r hr => ?_⟩
    cases hr with
    | step hp hr =>
      cases hp
      exact Block.undoing_loop_not_runs (by decide) hr
    | escape hp => cases hp
  have escapes : ((Machine.new ⟨4, 1⟩).run (Peephole.optimize {} [.move 3, .move 2]) []).1 =
      .error (.outOfBounds 5 4) := by decide +kernel
  have diverges := optimize_diverges_and_escapes {} undoing [] 1 (by decide) (by decide)
  have leaves := optimize_diverges_and_escapes {} [.move 3, .move 2] [] 4 (by decide) (by decide)
  exact ⟨⟨exhausted, diverges.1 exhausted⟩, ⟨1, 5, 4, escapes⟩, leaves.2 ⟨1, 5, 4, escapes⟩⟩

end TapeC
