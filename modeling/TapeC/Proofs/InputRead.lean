import Mathlib.Control.Monad.Basic
import Mathlib.Data.List.GetD
import TapeC.Proofs.Simulation

namespace TapeC

/-- The byte at a place of the stream that an input stands for. -/
def inputByte (input : List UInt8) (place : Nat) : UInt8 := input.getD place endOfInput

theorem inputByte_zero (input : List UInt8) : inputByte input 0 = input.headD endOfInput := by
  cases input with
  | nil => rfl
  | cons byte rest => rfl

theorem inputByte_tail (input : List UInt8) (place : Nat) :
    inputByte input.tail place = inputByte input (place + 1) := by
  cases input with
  | nil => rfl
  | cons byte rest => rfl

/-- End marks that are written out stand for nothing new. -/
theorem inputByte_append_endOfInput (input : List UInt8) (count place : Nat) :
    inputByte (input ++ List.replicate count endOfInput) place = inputByte input place := by
  unfold inputByte
  rcases Nat.lt_or_ge place input.length with inside | behind
  · exact List.getD_append _ _ _ _ inside
  · have nothing := List.getElem?_eq_none behind
    rw [List.getD_append_right _ _ _ _ behind, List.getD_eq_getElem?_getD, List.getElem?_replicate,
      List.getD_eq_getElem?_getD, nothing]
    split
    next => rfl
    next => rfl

/-- The same run in progress with another input ahead. -/
def State.withInput (s : State) (input : List UInt8) : State := { s with input := input }

/-- The same ending with another input left over. -/
def Ending.withInput (e : Ending) (input : List UInt8) : Ending :=
  { e with state := e.state.withInput input }

namespace State

/-- The instructions that `exec` executes, in order; the last of them may have been refused. -/
def trace (code : Array Instr) (partners : Array Nat) : Nat → State → List Instr
  | 0, _ => []
  | fuel + 1, s =>
    match code[s.position]? with
    | none => []
    | some i =>
      match s.step partners i with
      | .ok next => i :: trace code partners fuel next
      | .error _ => [i]

variable {code : Code} {partners : Array Nat} {s next : State} {i : Instr}

theorem trace_end (h : code[s.position]? = none) (fuel : Nat) :
    trace code.toArray partners fuel s = [] := by
  cases fuel with
  | zero => rfl
  | succ fuel =>
    have ha : code.toArray[s.position]? = none := by simpa using h
    simp only [trace, ha]

theorem trace_ok (fuel : Nat) (h : code[s.position]? = some i) (hs : s.step partners i = .ok next) :
    trace code.toArray partners (fuel + 1) s = i :: trace code.toArray partners fuel next := by
  have ha : code.toArray[s.position]? = some i := by simpa using h
  simp only [trace, ha, hs]

theorem trace_error {stop : Stop} (fuel : Nat) (h : code[s.position]? = some i)
    (hs : s.step partners i = .error stop) :
    trace code.toArray partners (fuel + 1) s = [i] := by
  have ha : code.toArray[s.position]? = some i := by simpa using h
  simp only [trace, ha, hs]

/-- Each executed instruction is paid for, and nothing else is. -/
theorem length_trace (code : Code) (partners : Array Nat) (fuel : Nat) (s : State) :
    (trace code.toArray partners fuel s).length + (exec code.toArray partners fuel s).fuel =
      fuel := by
  induction fuel generalizing s with
  | zero =>
    cases hi : code[s.position]? with
    | none =>
      rw [exec_end hi]
      rfl
    | some i =>
      rw [exec_zero hi]
      rfl
  | succ fuel ih =>
    cases hi : code[s.position]? with
    | none =>
      rw [trace_end hi, exec_end hi]
      exact Nat.zero_add _
    | some i =>
      cases hs : s.step partners i with
      | ok next =>
        have := ih next
        rw [trace_ok fuel hi hs, exec_ok fuel hi hs, List.length_cons]
        omega
      | error stop =>
        rw [trace_error fuel hi hs, exec_error fuel hi hs]
        exact Nat.add_comm 1 fuel

/-! ### Two inputs -/

/-- What an instruction leaves of the input. -/
def inputAfter (i : Instr) (input : List UInt8) : List UInt8 :=
  if i = .input then input.tail else input

theorem input_of_step (h : s.step partners i = .ok next) : next.input = inputAfter i s.input := by
  cases i
  all_goals
    simp only [step] at h
    split at h
    next => cases h; rfl
    next => cases h

/-- One instruction ahead of two inputs: it does the same, if the two begin with the same byte in case
that it reads one. -/
theorem step_withInput (s : State) (partners : Array Nat) (i : Instr) {other : List UInt8}
    (same : i = .input → inputByte s.input 0 = inputByte other 0) :
    (s.withInput other).step partners i =
      (s.step partners i).map (·.withInput (inputAfter i other)) := by
  cases i with
  | move count =>
    have hc : (s.withInput other).cellAt count = s.cellAt count := rfl
    simp only [step, hc]
    cases s.cellAt count with
    | ok cell => rfl
    | error stop => rfl
  | adjust count =>
    simp only [step, withInput]
    cases s.tape[s.head]? with
    | some byte => rfl
    | none => rfl
  | output =>
    simp only [step, withInput]
    cases s.tape[s.head]? with
    | some byte => rfl
    | none => rfl
  | input =>
    have hb := same rfl
    rw [inputByte_zero, inputByte_zero] at hb
    have head : (s.withInput other).input.headD endOfInput = s.input.headD endOfInput := hb.symm
    simp only [step]
    by_cases bound : s.head < s.tape.size
    · have bound' : (s.withInput other).head < (s.withInput other).tape.size := bound
      rw [if_pos bound, if_pos bound', head]
      rfl
    · have bound' : ¬(s.withInput other).head < (s.withInput other).tape.size := bound
      rw [if_neg bound, if_neg bound']
      rfl
  | loopStart =>
    simp only [step, withInput]
    cases s.tape[s.head]? with
    | some byte =>
      cases partners[s.position]? with
      | some partner => rfl
      | none => rfl
    | none => rfl
  | loopEnd =>
    simp only [step, withInput]
    cases s.tape[s.head]? with
    | some byte =>
      cases partners[s.position]? with
      | some partner => rfl
      | none => rfl
    | none => rfl
  | assign value offset =>
    have hc : (s.withInput other).cellAt (offset.getD 0) = s.cellAt (offset.getD 0) := rfl
    simp only [step, hc]
    cases s.cellAt (offset.getD 0) with
    | ok cell => rfl
    | error stop => rfl

/-- What two inputs have to have in common behind an instruction. -/
theorem inputByte_inputAfter {input other : List UInt8} {reads : Nat}
    (agree : ∀ place < (if i = .input then 1 else 0) + reads,
      inputByte input place = inputByte other place) :
    ∀ place < reads,
      inputByte (inputAfter i input) place = inputByte (inputAfter i other) place := by
  intro place less
  unfold inputAfter
  by_cases reading : i = .input
  · rw [if_pos reading] at agree
    rw [if_pos reading, if_pos reading, inputByte_tail, inputByte_tail]
    exact agree (place + 1) (by omega)
  · rw [if_neg reading] at agree
    rw [if_neg reading, if_neg reading]
    exact agree place (by omega)

/-- Two inputs that agree on what a run reads keep the run in step: the same instructions are executed,
and the ending differs in what is left of the input only. -/
theorem exec_withInput (fuel : Nat) {s : State} {other : List UInt8}
    (agree : ∀ place < (trace code.toArray partners fuel s).count .input,
      inputByte s.input place = inputByte other place) :
    trace code.toArray partners fuel (s.withInput other) = trace code.toArray partners fuel s ∧
      ∃ rest, exec code.toArray partners fuel (s.withInput other) =
        (exec code.toArray partners fuel s).withInput rest := by
  induction fuel generalizing s other with
  | zero =>
    refine ⟨rfl, other, ?_⟩
    cases hi : code[s.position]? with
    | none => rw [exec_end hi, exec_end (s := s.withInput other) hi]; rfl
    | some i => rw [exec_zero hi, exec_zero (s := s.withInput other) hi]; rfl
  | succ fuel ih =>
    cases hi : code[s.position]? with
    | none =>
      rw [trace_end hi, trace_end (s := s.withInput other) hi, exec_end hi,
        exec_end (s := s.withInput other) hi]
      exact ⟨rfl, other, rfl⟩
    | some i =>
      cases hs : s.step partners i with
      | ok next =>
        rw [trace_ok fuel hi hs] at agree ⊢
        rw [exec_ok fuel hi hs]
        have counted : (i :: trace code.toArray partners fuel next).count .input =
            (if i = .input then 1 else 0) +
              (trace code.toArray partners fuel next).count .input := by
          rw [List.count_cons, Nat.add_comm]
          simp only [beq_iff_eq]
        rw [counted] at agree
        have first : i = .input → inputByte s.input 0 = inputByte other 0 := by
          intro reading
          exact agree 0 (by rw [if_pos reading]; omega)
        have hother : (s.withInput other).step partners i =
            .ok (next.withInput (inputAfter i other)) := by
          rw [step_withInput s partners i first, hs]
          rfl
        have later := inputByte_inputAfter agree
        rw [← input_of_step hs] at later
        obtain ⟨same, rest, ending⟩ := ih later
        rw [trace_ok fuel (s := s.withInput other) hi hother, same,
          exec_ok fuel (s := s.withInput other) hi hother]
        exact ⟨rfl, rest, ending⟩
      | error stop =>
        rw [trace_error fuel hi hs] at agree ⊢
        rw [exec_error fuel hi hs]
        have first : i = .input → inputByte s.input 0 = inputByte other 0 := by
          rintro rfl
          exact agree 0 (by simp)
        have hother : (s.withInput other).step partners i = .error stop := by
          rw [step_withInput s partners i first, hs]
          rfl
        rw [trace_error fuel (s := s.withInput other) hi hother,
          exec_error fuel (s := s.withInput other) hi hother]
        exact ⟨rfl, other, rfl⟩

end State

namespace Machine

/-- The instructions that a run executes, in order; none if the loops do not pair up. -/
def executed (m : Machine) (code : Code) (input : List UInt8) : List Instr :=
  match code.loopPartners with
  | .error _ => []
  | .ok partners =>
    State.trace code.toArray partners m.limits.maxFuel ⟨0, m.reset.tape, m.reset.head, input, #[]⟩

theorem length_executed (m : Machine) (code : Code) (input : List UInt8) :
    (m.executed code input).length = (m.run code input).2.fuelUsed := by
  unfold executed run
  cases code.loopPartners with
  | error error => rfl
  | ok partners =>
    have paid := State.length_trace code partners m.limits.maxFuel
      ⟨0, m.reset.tape, m.reset.head, input, #[]⟩
    have hlimits : m.reset.limits = m.limits := rfl
    simp only [hlimits]
    omega

theorem run_of_agreement (m : Machine) (code : Code) {input other : List UInt8}
    (agree : ∀ place < (m.executed code input).count .input,
      inputByte input place = inputByte other place) :
    m.run code other = m.run code input ∧ m.executed code other = m.executed code input := by
  unfold executed at agree ⊢
  unfold run
  cases hp : code.loopPartners with
  | error error => exact ⟨rfl, rfl⟩
  | ok partners =>
    simp only [hp] at agree
    obtain ⟨same, rest, ending⟩ := State.exec_withInput m.limits.maxFuel agree
    refine ⟨?_, same⟩
    have hother : State.exec code.toArray partners m.limits.maxFuel
        ⟨0, m.reset.tape, m.reset.head, other, #[]⟩ = _ := ending
    have hlimits : m.reset.limits = m.limits := rfl
    simp only [hlimits, hother]
    rfl

end Machine

/-- A run depends only on the input that it reads. The instructions that it executes are as many as the
fuel that it uses; and every input whose stream begins with as many bytes of the given one as there are
input instructions among them gives the same run: the same result, machine afterwards and executed
instructions. In particular, end marks behind the input change nothing. -/
theorem run_determined_by_input_read (m : Machine) (code : Code) (input : List UInt8) :
    (m.executed code input).length = (m.run code input).2.fuelUsed ∧
    (∀ other, (∀ place < (m.executed code input).count .input,
        inputByte input place = inputByte other place) →
      m.run code other = m.run code input ∧ m.executed code other = m.executed code input) ∧
    ∀ count, m.run code (input ++ List.replicate count endOfInput) = m.run code input := by
  refine ⟨m.length_executed code input, fun other => m.run_of_agreement code, fun count => ?_⟩
  have agree : ∀ place < (m.executed code input).count .input,
      inputByte input place = inputByte (input ++ List.replicate count endOfInput) place :=
    fun place _ => (inputByte_append_endOfInput input count place).symm
  exact (m.run_of_agreement code agree).1

/-- A loop that echoes its input up to the end mark. It reads two bytes, of which one input has the
second and the other has not. -/
theorem run_determined_by_input_read_echo :
    let code : Code := [.input, .adjust 1, .loopStart, .adjust (-1), .output, .input, .adjust 1,
      .loopEnd]
    let m := Machine.new ⟨1, 50⟩
    (m.executed code [3]).count .input = 2 ∧
      (∀ place < 2, inputByte [3] place = inputByte [3, 0xff, 9] place) ∧
      m.run code [3, 0xff, 9] = m.run code [3] ∧ (m.run code [3, 0xff, 9]).1 = .ok [3] := by
  intro code m
  have reads : (m.executed code [3]).count .input = 2 := by decide +kernel
  have agree : ∀ place < 2, inputByte [3] place = inputByte [3, 0xff, 9] place := by decide
  have same := ((run_determined_by_input_read m code [3]).2.1 [3, 0xff, 9] (reads ▸ agree)).1
  have echoed : (m.run code [3]).1 = .ok [3] := by decide +kernel
  exact ⟨reads, agree, same, same ▸ echoed⟩

end TapeC
