import TapeC.Proofs.BigStep
import TapeC.Proofs.History

namespace TapeC

namespace Machine

variable {code : Code} {block : Block} {limits : Limits} {input : List UInt8}

/-- A run that runs out of fuel has used up its limit, and its error and the machine say so. -/
theorem run_exhausted (positive : 0 < limits.memorySize) {executed : Nat}
    (h : ((new limits).run code input).1 = .error (.fuelExhausted executed)) :
    executed = limits.maxFuel ∧ ((new limits).run code input).2.fuelUsed = limits.maxFuel := by
  have all := (run_sound positive code input).2.2 executed h
  refine ⟨all, ?_⟩
  rw [← all]
  cases hp : code.loopPartners with
  | error error => simp [run_of_loopPartners_error hp] at h
  | ok partners =>
    rw [run_of_loopPartners_ok hp] at h ⊢
    exact (result_eq_fuelExhausted_iff.mp h).2

/-- An execution that does not fit into the limit exhausts it. -/
theorem run_of_runs_of_lt (positive : 0 < limits.memorySize) (hb : code.block? = some block)
    {n : Nat} {r : Outcome limits.memorySize}
    (hr : block.Runs (Store.initial limits.memorySize positive input) n r)
    (short : limits.maxFuel < n) :
    ((new limits).run code input).1 = .error (.fuelExhausted limits.maxFuel) ∧
      ((new limits).run code input).2.fuelUsed = limits.maxFuel := by
  rcases block.runs_or_outOfFuel limits.maxFuel (Store.initial limits.memorySize positive input)
    with ⟨m, left, q, hf, hq⟩ | ho
  · obtain ⟨same, _⟩ := hr.unique hq
    omega
  · obtain ⟨used, h⟩ := run_of_outOfFuel limits positive hb ho
    obtain ⟨rfl, hused⟩ := run_exhausted positive h
    exact ⟨h, hused⟩

end Machine

open Machine

/-- If a run ends with anything but exhausted fuel, then the fuel that it used is a sharp threshold: with
that much or more the run ends in the same way with the same tape, head and fuel used, and with any less
it uses up what it has. -/
theorem fuel_threshold {size : Nat} (positive : 0 < size) (code : Code) (input : List UInt8)
    {fuel : Nat}
    (ends : ∀ executed, ((new ⟨size, fuel⟩).run code input).1 ≠ .error (.fuelExhausted executed)) :
    let ended := (new ⟨size, fuel⟩).run code input
    (∀ other, ended.2.fuelUsed ≤ other →
      let run := (new ⟨size, other⟩).run code input
      run.1 = ended.1 ∧ run.2.tape = ended.2.tape ∧ run.2.head = ended.2.head ∧
        run.2.fuelUsed = ended.2.fuelUsed) ∧
    ∀ other, other < ended.2.fuelUsed →
      let run := (new ⟨size, other⟩).run code input
      run.1 = .error (.fuelExhausted other) ∧ run.2.fuelUsed = other := by
  intro ended
  cases hp : code.loopPartners with
  | error error =>
    have hended : ended = (.error (.loops error), new ⟨size, fuel⟩) :=
      run_of_loopPartners_error hp ⟨size, fuel⟩ input
    rw [hended]
    refine ⟨fun other _ => ?_, fun other less => ?_⟩
    · rw [run_of_loopPartners_error hp]
      exact ⟨rfl, rfl, rfl, rfl⟩
    · exact absurd less (Nat.not_lt_zero other)
  | ok partners =>
    obtain ⟨block, hb⟩ := Code.block?_of_loopPartners hp
    rcases block.runs_or_outOfFuel fuel (Store.initial size positive input)
      with ⟨n, left, r, hf, hr⟩ | ho
    · have hended : ended = (r.result, ⟨⟨size, fuel⟩, r.store.cells.toArray, r.store.head, n⟩) :=
        run_of_runs ⟨size, fuel⟩ positive hb hr (by simp only; omega)
      rw [hended]
      refine ⟨fun other enough => ?_, fun other short => ?_⟩
      · rw [run_of_runs ⟨size, other⟩ positive hb hr enough]
        exact ⟨rfl, rfl, rfl, rfl⟩
      · exact run_of_runs_of_lt positive hb hr short
    · obtain ⟨used, exhausted⟩ := run_of_outOfFuel ⟨size, fuel⟩ positive hb ho
      exact absurd exhausted (ends used)

/-- A loop that counts down, and then a move off the tape: the move is charged too, so that seven units are
needed for the error. -/
theorem fuel_threshold_escape :
    let code : Code := [.adjust 2, .loopStart, .adjust (-1), .loopEnd, .move (-1)]
    let ended := (new ⟨1, 50⟩).run code []
    0 < 1 ∧ (∀ executed, ended.1 ≠ .error (.fuelExhausted executed)) ∧ ended.2.fuelUsed = 7 ∧
      ((new ⟨1, 7⟩).run code []).1 = .error (.outOfBounds (-1) 1) ∧
      ((new ⟨1, 6⟩).run code []).1 = .error (.fuelExhausted 6) := by
  intro code ended
  have escaped : ended.1 = .error (.outOfBounds (-1) 1) := by decide +kernel
  have used : ended.2.fuelUsed = 7 := by decide +kernel
  have ends : ∀ executed, ended.1 ≠ .error (.fuelExhausted executed) := by
    intro executed h
    cases escaped.symm.trans h
  obtain ⟨enough, short⟩ := fuel_threshold (by decide) code [] ends
  have same := (enough 7 (Nat.le_of_eq used)).1
  have less : 6 < ended.2.fuelUsed := by omega
  exact ⟨by decide, ends, used, same.trans escaped, (short 6 less).1⟩

end TapeC
