import TapeC.Proofs.History
import TapeC.Proofs.Simulation

namespace TapeC

/-- The same run in progress with more cells behind the tape. -/
def State.widen (extra : Nat) (s : State) : State :=
  { s with tape := s.tape ++ Array.replicate extra 0 }

/-- The same ending with more cells behind the tape. -/
def Ending.widen (extra : Nat) (e : Ending) : Ending := { e with state := e.state.widen extra }

/-- The same machine with more cells behind its tape. -/
def Machine.widen (extra : Nat) (m : Machine) : Machine :=
  { m with
    limits := { m.limits with memorySize := m.limits.memorySize + extra },
    tape := m.tape ++ Array.replicate extra 0 }

/-- The same error with more cells behind the tape. -/
def RunError.widen (extra : Nat) : RunError → RunError
  | .outOfBounds cell cells => .outOfBounds cell (cells + extra)
  | error => error

/-- Whether a stop would be one on a tape of some cells too. -/
def Stop.Lasts (cells : Nat) : Stop → Prop
  | .finished => True
  | .outOfBounds cell => cell < 0 ∨ cells ≤ cell
  | .outOfFuel => True
  | .illegalAccess => False

/-- Whether a result would be one on a tape of some cells too. -/
def Machine.ResultLasts (cells : Nat) : Except RunError (List UInt8) → Prop
  | .ok _ => True
  | .error (.loops _) => True
  | .error (.outOfBounds cell _) => cell < 0 ∨ cells ≤ cell
  | .error (.fuelExhausted _) => True
  | .error .illegalAccess => False

namespace State

variable {s next : State} {partners : Array Nat} {i : Instr} {offset : Int32} {extra : Nat}

/-! ### One instruction -/

theorem size_widen : (s.widen extra).tape.size = s.tape.size + extra := by
  simp [widen]

theorem getElem?_widen {byte : UInt8} (h : s.tape[s.head]? = some byte) :
    (s.widen extra).tape[s.head]? = some byte := by
  obtain ⟨bound, _⟩ := Array.getElem?_eq_some_iff.mp h
  rw [widen, Array.getElem?_append_left bound, h]

theorem set_widen {cell : Nat} (bound : cell < s.tape.size) (byte : UInt8) :
    (s.widen extra).tape.setIfInBounds cell byte =
      s.tape.setIfInBounds cell byte ++ Array.replicate extra 0 :=
  Array.setIfInBounds_append_left bound

theorem cellAt_widen {cell : Nat} (h : s.cellAt offset = .ok cell) :
    (s.widen extra).cellAt offset = .ok cell := by
  simp only [cellAt] at h ⊢
  split at h
  next inside =>
    have wider : 0 ≤ (s.head : Int) + offset.toInt ∧
        (s.head : Int) + offset.toInt < (s.widen extra).tape.size := by
      rw [size_widen]
      omega
    exact (if_pos wider).trans h
  next => cases h

theorem cellAt_widen_error {stop : Stop} (h : s.cellAt offset = .error stop)
    (lasts : stop.Lasts (s.tape.size + extra)) : (s.widen extra).cellAt offset = .error stop := by
  simp only [cellAt] at h ⊢
  split at h
  next => cases h
  next outside =>
    cases h
    have farther : ¬(0 ≤ (s.head : Int) + offset.toInt ∧
        (s.head : Int) + offset.toInt < (s.widen extra).tape.size) := by
      rw [size_widen]
      simp only [Stop.Lasts] at lasts
      omega
    exact if_neg farther

/-- One instruction on both tapes: it takes the same effect, or it is refused on the smaller tape, and then
on the larger one too if the reason lasts. -/
theorem step_widen (s : State) (partners : Array Nat) (i : Instr) (extra : Nat) :
    (∃ next, s.step partners i = .ok next ∧ next.tape.size = s.tape.size ∧
        (s.widen extra).step partners i = .ok (next.widen extra)) ∨
      ∃ stop, s.step partners i = .error stop ∧
        (stop.Lasts (s.tape.size + extra) → (s.widen extra).step partners i = .error stop) := by
  have position : (s.widen extra).position = s.position := rfl
  have head : (s.widen extra).head = s.head := rfl
  cases i with
  | move count =>
    simp only [step]
    cases hc : s.cellAt count with
    | ok cell =>
      rw [cellAt_widen hc]
      exact .inl ⟨_, rfl, rfl, rfl⟩
    | error stop =>
      refine .inr ⟨stop, rfl, fun lasts => ?_⟩
      rw [cellAt_widen_error hc lasts]
  | adjust count =>
    simp only [step, head]
    cases hb : s.tape[s.head]? with
    | some byte =>
      obtain ⟨bound, _⟩ := Array.getElem?_eq_some_iff.mp hb
      rw [getElem?_widen hb]
      simp only [set_widen bound]
      exact .inl ⟨_, rfl, by simp, rfl⟩
    | none => exact .inr ⟨_, rfl, False.elim⟩
  | output =>
    simp only [step, head]
    cases hb : s.tape[s.head]? with
    | some byte =>
      rw [getElem?_widen hb]
      exact .inl ⟨_, rfl, rfl, rfl⟩
    | none => exact .inr ⟨_, rfl, False.elim⟩
  | input =>
    simp only [step, head]
    by_cases bound : s.head < s.tape.size
    · have wider : s.head < (s.widen extra).tape.size := by
        rw [size_widen]
        omega
      rw [if_pos bound, if_pos wider, set_widen bound]
      exact .inl ⟨_, rfl, by simp, rfl⟩
    · rw [if_neg bound]
      exact .inr ⟨_, rfl, False.elim⟩
  | loopStart =>
    simp only [step, head, position]
    cases hb : s.tape[s.head]? with
    | some byte =>
      rw [getElem?_widen hb]
      cases partners[s.position]? with
      | some partner => exact .inl ⟨_, rfl, rfl, rfl⟩
      | none => exact .inr ⟨_, rfl, False.elim⟩
    | none => exact .inr ⟨_, rfl, False.elim⟩
  | loopEnd =>
    simp only [step, head, position]
    cases hb : s.tape[s.head]? with
    | some byte =>
      rw [getElem?_widen hb]
      cases partners[s.position]? with
      | some partner => exact .inl ⟨_, rfl, rfl, rfl⟩
      | none => exact .inr ⟨_, rfl, False.elim⟩
    | none => exact .inr ⟨_, rfl, False.elim⟩
  | assign value offset =>
    simp only [step]
    cases hc : s.cellAt (offset.getD 0) with
    | ok cell =>
      rw [cellAt_widen hc]
      simp only [set_widen (lt_of_cellAt hc)]
      exact .inl ⟨_, rfl, by simp, rfl⟩
    | error stop =>
      refine .inr ⟨stop, rfl, fun lasts => ?_⟩
      rw [cellAt_widen_error hc lasts]

/-! ### Whole runs -/

/-- A run that stops for a reason that lasts is the same on both tapes. -/
theorem exec_widen {code : Code} (fuel : Nat) {s : State} {size : Nat} (hsize : s.tape.size = size)
    (lasts : (exec code.toArray partners fuel s).stop.Lasts (size + extra)) :
    exec code.toArray partners fuel (s.widen extra) =
      (exec code.toArray partners fuel s).widen extra := by
  -- No instruction changes the size of the tape, so that what lasts is the same at every step.
  induction fuel generalizing s with
  | zero =>
    cases hi : code[s.position]? with
    | none =>
      rw [exec_end hi, exec_end (s := s.widen extra) hi]
      rfl
    | some i =>
      rw [exec_zero hi, exec_zero (s := s.widen extra) hi]
      rfl
  | succ fuel ih =>
    cases hi : code[s.position]? with
    | none =>
      rw [exec_end hi, exec_end (s := s.widen extra) hi]
      rfl
    | some i =>
      rcases s.step_widen partners i extra with ⟨next, hs, hnext, hw⟩ | ⟨stop, hs, hw⟩
      · rw [exec_ok fuel hi hs] at lasts ⊢
        rw [exec_ok fuel (s := s.widen extra) hi hw]
        exact ih (hnext.trans hsize) lasts
      · rw [exec_error fuel hi hs] at lasts ⊢
        rw [exec_error fuel (s := s.widen extra) hi (hw (hsize ▸ lasts))]
        rfl

theorem initial_widen (size extra : Nat) (input : List UInt8) :
    (initial size input).widen extra = initial (size + extra) input := by
  simp only [initial, widen, Array.replicate_append_replicate]

end State

namespace Machine

variable {code : Code} {size fuel extra : Nat} {input : List UInt8}

theorem new_widen : (new ⟨size, fuel⟩).widen extra = new ⟨size + extra, fuel⟩ := by
  simp only [new, widen, Array.replicate_append_replicate]

theorem result_widen (ending : Ending) (used extra : Nat) :
    result (ending.widen extra) used = (result ending used).mapError (RunError.widen extra) := by
  have hstop : (ending.widen extra).stop = ending.stop := rfl
  have hsize : (ending.widen extra).state.tape.size = ending.state.tape.size + extra :=
    State.size_widen
  cases hs : ending.stop with
  | outOfBounds cell =>
    simp only [result, hstop, hs, hsize]
    rfl
  | _ =>
    simp only [result, hstop, hs]
    rfl

theorem lasts_of_result {ending : Ending} {used cells : Nat}
    (lasts : ResultLasts cells (result ending used)) : ending.stop.Lasts cells := by
  cases hs : ending.stop with
  | finished => trivial
  | outOfBounds cell =>
    simp only [result, hs] at lasts
    exact lasts
  | outOfFuel => trivial
  | illegalAccess => simp only [result, hs, ResultLasts] at lasts

/-- A run whose result lasts is the same run on the larger tape. -/
theorem run_widen (lasts : ResultLasts (size + extra) ((new ⟨size, fuel⟩).run code input).1) :
    (new ⟨size + extra, fuel⟩).run code input =
      (((new ⟨size, fuel⟩).run code input).1.mapError (RunError.widen extra),
        ((new ⟨size, fuel⟩).run code input).2.widen extra) := by
  cases hp : code.loopPartners with
  | error error =>
    rw [run_of_loopPartners_error hp, run_of_loopPartners_error hp, new_widen]
    rfl
  | ok partners =>
    rw [run_of_loopPartners_ok hp] at lasts ⊢
    rw [run_of_loopPartners_ok hp]
    have hsize : (State.initial size input).tape.size = size := by simp [State.initial]
    have wider := State.exec_widen fuel hsize (lasts_of_result lasts)
    rw [State.initial_widen] at wider
    simp only [wider, result_widen]
    rfl

/-- Where the tape is left, the error has the size of the tape. -/
theorem cells_of_run (positive : 0 < size) {cell : Int} {cells : Nat}
    (h : ((new ⟨size, fuel⟩).run code input).1 = .error (.outOfBounds cell cells)) : cells = size := by
  have sound : ((new ⟨size, fuel⟩).run code input).2.Sound ⟨size, fuel⟩ :=
    (run_sound positive code input).1
  cases hp : code.loopPartners with
  | error error =>
    rw [run_of_loopPartners_error hp] at h
    cases h
  | ok partners =>
    have hsize := sound.size_eq
    rw [run_of_loopPartners_ok hp] at h hsize
    exact (result_eq_outOfBounds_iff.mp h).2.symm.trans hsize

end Machine

/-- A run on a larger tape is the run on the smaller one, unless that one left its tape for a cell that
the larger tape has. The result is the same, but that an error about the tape has the larger size; and the
machine afterwards is the same, with cells of zero behind its tape. -/
theorem larger_tape_run {size larger : Nat} (positive : 0 < size) (le : size ≤ larger) (code : Code)
    (input : List UInt8) (fuel : Nat) :
    let small := (Machine.new ⟨size, fuel⟩).run code input
    let large := (Machine.new ⟨larger, fuel⟩).run code input
    let after := small.2.widen (larger - size)
    (∀ out, small.1 = .ok out → large = (.ok out, after)) ∧
    (∀ executed, small.1 = .error (.fuelExhausted executed) →
      large = (.error (.fuelExhausted executed), after)) ∧
    (∀ cell cells, small.1 = .error (.outOfBounds cell cells) → cell < 0 ∨ (larger : Int) ≤ cell →
      large = (.error (.outOfBounds cell larger), after)) ∧
    ∀ error, small.1 = .error (.loops error) → large = (.error (.loops error), after) := by
  obtain ⟨extra, rfl⟩ := Nat.exists_eq_add_of_le le
  intro small large after
  have hafter : after = small.2.widen extra := by
    simp only [after, Nat.add_sub_cancel_left]
  have same : ∀ {result : Except RunError (List UInt8)}, small.1 = result →
      Machine.ResultLasts (size + extra) result →
      large = (result.mapError (RunError.widen extra), after) := by
    rintro result rfl lasts
    rw [hafter]
    exact Machine.run_widen lasts
  refine ⟨fun out h => same h trivial, fun executed h => same h trivial, fun cell cells h far => ?_,
    fun error h => same h trivial⟩
  obtain rfl := Machine.cells_of_run positive h
  exact same h far

/-- Input into the second of two cells, and then an assignment that no tape of four cells has room for. -/
theorem larger_tape_run_far_assignment :
    let echo : Code := [.move 1, .input, .output]
    let far : Code := echo ++ [.assign 9 (some 6)]
    0 < 2 ∧ 2 ≤ 4 ∧ ((Machine.new ⟨2, 20⟩).run echo [3]).1 = .ok [3] ∧
      (Machine.new ⟨4, 20⟩).run echo [3] = (.ok [3], ⟨⟨4, 20⟩, #[0, 3, 0, 0], 1, 3⟩) ∧
      ((Machine.new ⟨2, 20⟩).run far [3]).1 = .error (.outOfBounds 7 2) ∧ (4 : Int) ≤ 7 ∧
      (Machine.new ⟨4, 20⟩).run far [3] =
        (.error (.outOfBounds 7 4), ⟨⟨4, 20⟩, #[0, 3, 0, 0], 1, 4⟩) := by
  intro echo far
  have clean : ((Machine.new ⟨2, 20⟩).run echo [3]).1 = .ok [3] := by decide +kernel
  have escaped : ((Machine.new ⟨2, 20⟩).run far [3]).1 = .error (.outOfBounds 7 2) := by
    decide +kernel
  have echoed := (larger_tape_run (by decide) (by decide : 2 ≤ 4) echo [3] 20).1 [3] clean
  have failed := (larger_tape_run (by decide) (by decide : 2 ≤ 4) far [3] 20).2.2.1 7 2 escaped
    (.inr (by decide))
  refine ⟨by decide, by decide, clean, echoed.trans ?_, escaped, by decide, failed.trans ?_⟩
  · decide +kernel
  · decide +kernel

end TapeC
