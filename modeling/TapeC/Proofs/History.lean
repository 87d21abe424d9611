import Mathlib.Control.Monad.Basic
import TapeC.Machine

namespace TapeC

/-! ### The table of loop partners -/

namespace Code

/-- Linking as `linkLoops` does it, with nothing as the result as soon as a place is to be written that
the table does not have. -/
def linkChecked : Nat → List Nat → Array Nat → Code → Option (Except LoopError (Array Nat))
  | _, [], table, [] => some (.ok table)
  | _, start :: opened, _, [] => some (.error (.unclosed (start :: opened).length))
  | position, opened, table, i :: rest =>
    match i, opened with
    | .loopStart, opened => linkChecked (position + 1) (position :: opened) table rest
    | .loopEnd, [] => some (.error (.unmatchedEnd position))
    | .loopEnd, start :: opened =>
      if start < table.size ∧ position < table.size then
        linkChecked (position + 1) opened
          ((table.setIfInBounds start position).setIfInBounds position start) rest
      else none
    | _, opened => linkChecked (position + 1) opened table rest

theorem linkChecked_eq_linkLoops {position : Nat} {opened : List Nat} {table : Array Nat} {code : Code}
    (behind : ∀ start ∈ opened, start < position) (room : position + code.length ≤ table.size) :
    linkChecked position opened table code = some (linkLoops position opened table code) := by
  induction code generalizing position opened table with
  | nil => cases opened <;> rfl
  | cons i rest ih =>
    have here : position < table.size := by
      simp only [List.length_cons] at room
      omega
    have room' : position + 1 + rest.length ≤ table.size := by
      simp only [List.length_cons] at room
      omega
    have behind' : ∀ start ∈ opened, start < position + 1 := fun start h =>
      Nat.lt_succ_of_lt (behind start h)
    cases i with
    | loopStart =>
      have behindStart : ∀ start ∈ position :: opened, start < position + 1 := by
        intro start h
        rcases List.mem_cons.mp h with h | h
        · omega
        · exact behind' start h
      have h := ih behindStart room'
      cases opened <;> exact h
    | loopEnd =>
      cases opened with
      | nil => rfl
      | cons start opened =>
        have hs : start < table.size := Nat.lt_trans (behind start List.mem_cons_self) here
        rw [linkChecked, if_pos ⟨hs, here⟩, linkLoops]
        exact ih (fun other h => behind' other (List.mem_cons_of_mem _ h))
          (by simpa only [Array.size_setIfInBounds] using room')
    | _ =>
      have h := ih behind' room'
      cases opened <;> exact h

theorem size_of_linkLoops {position : Nat} {opened : List Nat} {table partners : Array Nat}
    {code : Code} (h : linkLoops position opened table code = .ok partners) :
    partners.size = table.size := by
  induction code generalizing position opened table with
  | nil =>
    cases opened with
    | nil =>
      cases h
      rfl
    | cons start opened => cases h
  | cons i rest ih =>
    cases i with
    | loopStart => cases opened <;> exact ih h
    | loopEnd =>
      cases opened with
      | nil => cases h
      | cons start opened =>
        have hs := ih h
        simpa only [Array.size_setIfInBounds] using hs
    | _ => cases opened <;> exact ih h

end Code

/-! ### Runs -/

/-- Whether a run in progress has a tape of a size with the head on it. -/
def State.OnTape (size : Nat) (s : State) : Prop := s.tape.size = size ∧ s.head < size

variable {size : Nat} {partners : Array Nat}

theorem State.lt_of_cellAt {s : State} {offset : Int32} {cell : Nat}
    (h : s.cellAt offset = .ok cell) : cell < s.tape.size := by
  simp only [State.cellAt] at h
  split at h
  next inside =>
    cases h
    omega
  next => cases h

theorem State.cellAt_error {s : State} {offset : Int32} {stop : Stop}
    (h : s.cellAt offset = .error stop) : ∃ cell, stop = .outOfBounds cell := by
  simp only [State.cellAt] at h
  split at h
  next => cases h
  next =>
    cases h
    exact ⟨_, rfl⟩

/-- With the head on the tape and a partner at the position, an instruction leaves the head on the tape,
or it is refused because it asks for a cell off the tape. -/
theorem State.step_cases {s : State} (on : s.OnTape size) (linked : s.position < partners.size)
    (i : Instr) :
    (∃ next, s.step partners i = .ok next ∧ next.OnTape size) ∨
      ∃ cell, s.step partners i = .error (.outOfBounds cell) := by
  obtain ⟨hsize, hhead⟩ := on
  have bound : s.head < s.tape.size := by omega
  obtain ⟨byte, hbyte⟩ : ∃ byte, s.tape[s.head]? = some byte :=
    ⟨_, Array.getElem?_eq_getElem bound⟩
  obtain ⟨partner, hpartner⟩ : ∃ partner, partners[s.position]? = some partner :=
    ⟨_, Array.getElem?_eq_getElem linked⟩
  cases i with
  | move count =>
    simp only [State.step]
    cases hc : s.cellAt count with
    | ok cell =>
      have inside := State.lt_of_cellAt hc
      exact .inl ⟨_, rfl, hsize, hsize ▸ inside⟩
    | error stop =>
      obtain ⟨cell, rfl⟩ := State.cellAt_error hc
      exact .inr ⟨cell, rfl⟩
  | adjust count =>
    simp only [State.step, hbyte]
    exact .inl ⟨_, rfl, by simp [hsize], hhead⟩
  | output =>
    simp only [State.step, hbyte]
    exact .inl ⟨_, rfl, hsize, hhead⟩
  | input =>
    simp only [State.step, if_pos bound]
    exact .inl ⟨_, rfl, by simp [hsize], hhead⟩
  | loopStart =>
    simp only [State.step, hbyte, hpartner]
    exact .inl ⟨_, rfl, hsize, hhead⟩
  | loopEnd =>
    simp only [State.step, hbyte, hpartner]
    exact .inl ⟨_, rfl, hsize, hhead⟩
  | assign value offset =>
    simp only [State.step]
    cases hc : s.cellAt (offset.getD 0) with
    | ok cell => exact .inl ⟨_, rfl, by simp [hsize], hhead⟩
    | error stop =>
      obtain ⟨cell, rfl⟩ := State.cellAt_error hc
      exact .inr ⟨cell, rfl⟩

/-- What holds of the ending of every run that began with some fuel on a tape of a size. -/
structure Ending.Sound (size fuel : Nat) (e : Ending) : Prop where
  onTape : e.state.OnTape size
  fuel_le : e.fuel ≤ fuel
  legal : e.stop ≠ .illegalAccess
  exhausted : e.stop = .outOfFuel → e.fuel = 0

theorem State.exec_sound {code : Array Instr} (linked : partners.size = code.size) (fuel : Nat)
    {s : State} (on : s.OnTape size) : (State.exec code partners fuel s).Sound size fuel := by
  induction fuel generalizing s with
  | zero =>
    rw [State.exec]
    split
    next => exact ⟨on, Nat.le_refl 0, by simp, by simp⟩
    next => exact ⟨on, Nat.le_refl 0, by simp, by simp⟩
  | succ fuel ih =>
    rw [State.exec]
    split
    next => exact ⟨on, Nat.le_refl _, by simp, by simp⟩
    next i hi =>
      obtain ⟨inside, _⟩ := Array.getElem?_eq_some_iff.mp hi
      rcases State.step_cases on (linked ▸ inside) i with ⟨next, hs, hn⟩ | ⟨cell, hs⟩
      · rw [hs]
        have h := ih hn
        exact ⟨h.onTape, Nat.le_succ_of_le h.fuel_le, h.legal, h.exhausted⟩
      · rw [hs]
        exact ⟨on, Nat.le_succ fuel, by simp, by simp⟩

namespace Machine

/-- What holds of a machine after every call. -/
structure Sound (limits : Limits) (m : Machine) : Prop where
  limits_eq : m.limits = limits
  size_eq : m.tape.size = limits.memorySize
  head_lt : m.head < limits.memorySize
  fuelUsed_le : m.fuelUsed ≤ limits.maxFuel

variable {limits : Limits} {m : Machine}

theorem new_sound (positive : 0 < limits.memorySize) : (new limits).Sound limits :=
  ⟨rfl, by simp [new], positive, Nat.zero_le _⟩

/-- Resetting a machine leaves nothing of what was done with it. -/
theorem Sound.reset_eq_new (h : m.Sound limits) : m.reset = new limits := by
  have tape : m.tape.map (fun _ => (0 : UInt8)) = Array.replicate limits.memorySize 0 := by
    rw [← h.size_eq]
    apply Array.ext
    · simp
    · simp
  simp only [reset, new, tape, h.limits_eq]

theorem run_sound (positive : 0 < limits.memorySize) (code : Code) (input : List UInt8) :
    ((new limits).run code input).2.Sound limits ∧
    ((new limits).run code input).1 ≠ .error .illegalAccess ∧
    ∀ executed, ((new limits).run code input).1 = .error (.fuelExhausted executed) →
      executed = limits.maxFuel := by
  have hreset := (new_sound positive).reset_eq_new
  simp only [run, hreset]
  cases hp : code.loopPartners with
  | error error => exact ⟨new_sound positive, by simp, by simp⟩
  | ok partners =>
    have linked : partners.size = code.toArray.size := by
      rw [Code.size_of_linkLoops hp]
      simp
    have start : State.OnTape limits.memorySize ⟨0, (new limits).tape, (new limits).head, input, #[]⟩ :=
      ⟨(new_sound positive).size_eq, positive⟩
    have h := State.exec_sound linked limits.maxFuel start
    have hl : (new limits).limits = limits := rfl
    simp only [hl]
    generalize State.exec code.toArray partners limits.maxFuel _ = ending at h
    obtain ⟨⟨hsize, hhead⟩, hfuel, legal, exhausted⟩ := h
    refine ⟨⟨rfl, hsize, hhead, by simp only; omega⟩, ?_, ?_⟩
    · cases hs : ending.stop with
      | illegalAccess => exact absurd hs legal
      | _ => simp [result, hs]
    · intro executed he
      cases hs : ending.stop with
      | outOfFuel =>
        simp only [result, hs] at he
        cases he
        have := exhausted hs
        omega
      | _ => simp [result, hs] at he

/-- A call on a machine. -/
inductive Call where
  | run (code : Code) (input : List UInt8)
  | reset

/-- The machine after a call. -/
def after (m : Machine) : Call → Machine
  | .run code input => (m.run code input).2
  | .reset => m.reset

theorem Sound.run_eq (h : m.Sound limits) (code : Code) (input : List UInt8) :
    m.run code input = (new limits).run code input := by
  have positive := Nat.zero_lt_of_lt h.head_lt
  simp only [run, h.reset_eq_new, (new_sound positive).reset_eq_new]

theorem Sound.after (h : m.Sound limits) (call : Call) : (m.after call).Sound limits := by
  have positive := Nat.zero_lt_of_lt h.head_lt
  cases call with
  | run code input =>
    rw [Machine.after, h.run_eq]
    exact (run_sound positive code input).1
  | reset =>
    rw [Machine.after, h.reset_eq_new]
    exact new_sound positive

theorem Sound.foldl_after (h : m.Sound limits) (calls : List Call) :
    (calls.foldl Machine.after m).Sound limits := by
  induction calls generalizing m with
  | nil => exact h
  | cons call calls ih => exact ih (h.after call)

end Machine

/-- After any calls on a machine that has a cell, the tape has its size, the head is on it and no more
fuel was used than the limit allows. The next run then does what it does on a new machine: the result
is the same and so is the machine afterwards. No place of the tape or of the table of partners is asked
for that does not exist, and fuel is exhausted only when all of it was used. -/
theorem machine_history (limits : Limits) (positive : 0 < limits.memorySize)
    (calls : List Machine.Call) :
    let m := calls.foldl Machine.after (Machine.new limits)
    m.tape.size = limits.memorySize ∧ m.head < limits.memorySize ∧ m.fuelUsed ≤ limits.maxFuel ∧
    ∀ (code : Code) (input : List UInt8),
      m.run code input = (Machine.new limits).run code input ∧
      Code.linkChecked 0 [] (Array.replicate code.length 0) code = some code.loopPartners ∧
      (m.run code input).1 ≠ .error .illegalAccess ∧
      ∀ executed, (m.run code input).1 = .error (.fuelExhausted executed) →
        executed = limits.maxFuel := by
  intro m
  have h : m.Sound limits := (Machine.new_sound positive).foldl_after calls
  refine ⟨h.size_eq, h.head_lt, h.fuelUsed_le, fun code input => ⟨h.run_eq code input, ?_, ?_⟩⟩
  · exact Code.linkChecked_eq_linkLoops (by simp) (by simp)
  · rw [h.run_eq]
    exact (Machine.run_sound positive code input).2

/-- A machine whose runs left the tape, had an open loop and ran out of fuel, and then one more run that
does not end. -/
theorem machine_history_after_failures :
    let limits : Limits := ⟨2, 9⟩
    let endless : Code := [.adjust 1, .loopStart, .loopEnd]
    let calls : List Machine.Call := [.run [.adjust 5, .move 1, .adjust 7, .move 1] [],
      .run [.adjust 1, .loopStart] [], .reset, .run [.move 1, .input, .loopStart, .loopEnd] [3]]
    let m := calls.foldl Machine.after (Machine.new limits)
    0 < limits.memorySize ∧ m.tape = #[0, 3] ∧ m.tape.size = limits.memorySize ∧
      m.run endless [] = (Machine.new limits).run endless [] ∧
      (m.run endless []).1 = .error (.fuelExhausted 9) ∧ 9 = limits.maxFuel := by
  intro limits endless calls m
  have positive : 0 < limits.memorySize := by decide
  have exhausted : (m.run endless []).1 = .error (.fuelExhausted 9) := by
    decide +kernel
  obtain ⟨size, _, _, runs⟩ := machine_history limits positive calls
  obtain ⟨same, _, _, all⟩ := runs endless []
  have left : m.tape = #[0, 3] := by decide +kernel
  exact ⟨positive, left, size, same, exhausted, all 9 exhausted⟩

end TapeC
