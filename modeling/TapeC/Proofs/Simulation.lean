import TapeC.Proofs.Partners
import TapeC.Proofs.Structured

namespace TapeC

/-- Whether code has some instructions at a position. -/
def Code.HasAt (code : Code) (position : Nat) (part : Code) : Prop :=
  ∃ before after, code = before ++ part ++ after ∧ before.length = position

namespace Code.HasAt

variable {code first second : Code} {position : Nat} {i : Instr}

theorem head (h : code.HasAt position (i :: first)) : code[position]? = some i := by
  obtain ⟨before, after, rfl, rfl⟩ := h
  simp

theorem tail (h : code.HasAt position (i :: first)) : code.HasAt (position + 1) first := by
  obtain ⟨before, after, rfl, rfl⟩ := h
  exact ⟨before ++ [i], after, by simp, by simp⟩

theorem left (h : code.HasAt position (first ++ second)) : code.HasAt position first := by
  obtain ⟨before, after, rfl, rfl⟩ := h
  exact ⟨before, second ++ after, by simp, rfl⟩

theorem right (h : code.HasAt position (first ++ second)) :
    code.HasAt (position + first.length) second := by
  obtain ⟨before, after, rfl, rfl⟩ := h
  exact ⟨before ++ first, after, by simp, by simp⟩

end Code.HasAt

variable {size : Nat} {code : Code} {partners : Array Nat}

theorem State.exec_zero {s : State} {i : Instr} (h : code[s.position]? = some i) :
    State.exec code.toArray partners 0 s = ⟨.outOfFuel, 0, s⟩ := by
  obtain ⟨bound, _⟩ := List.getElem?_eq_some_iff.mp h
  simp [State.exec, bound]

theorem State.exec_ok {s next : State} {i : Instr} (fuel : Nat)
    (h : code[s.position]? = some i) (hs : s.step partners i = .ok next) :
    State.exec code.toArray partners (fuel + 1) s =
      State.exec code.toArray partners fuel next := by
  have ha : code.toArray[s.position]? = some i := by simpa using h
  simp only [State.exec, ha, hs]

theorem State.exec_error {s : State} {i : Instr} {stop : Stop} (fuel : Nat)
    (h : code[s.position]? = some i) (hs : s.step partners i = .error stop) :
    State.exec code.toArray partners (fuel + 1) s = ⟨stop, fuel, s⟩ := by
  have ha : code.toArray[s.position]? = some i := by simpa using h
  simp only [State.exec, ha, hs]

theorem State.exec_end {s : State} (h : code[s.position]? = none) (fuel : Nat) :
    State.exec code.toArray partners fuel s = ⟨.finished, fuel, s⟩ := by
  have ended := List.getElem?_eq_none_iff.mp h
  cases fuel with
  | zero => simp [State.exec, Nat.not_lt.mpr ended]
  | succ fuel => simp [State.exec, h]

theorem Store.step_loopStart (s : Store size) {position partner : Nat}
    (h : partners[position]? = some partner) :
    (s.state position).step partners .loopStart =
      .ok (s.state (if s.cell = 0 then partner + 1 else position + 1)) := by
  have hp : partners[(s.state position).position]? = some partner := h
  simp only [State.step, s.state_cell position, hp]
  rfl

theorem Store.step_loopEnd (s : Store size) {position partner : Nat}
    (h : partners[position]? = some partner) :
    (s.state position).step partners .loopEnd =
      .ok (s.state (if s.cell = 0 then position + 1 else partner + 1)) := by
  have hp : partners[(s.state position).position]? = some partner := h
  simp only [State.step, s.state_cell position, hp]
  rfl

/-- What the end of structured execution says about the ending of a machine run: a finished one goes
on at a position, and any other stops as it does. -/
def Halt.Continues (h : Halt size) (code : Code) (partners : Array Nat) (position : Nat)
    (e : Ending) : Prop :=
  match h.verdict with
  | .finished => e = State.exec code.toArray partners h.fuel (h.store.state position)
  | .outOfBounds place => ∃ p, e = ⟨.outOfBounds place, h.fuel, h.store.state p⟩
  | .outOfFuel => ∃ p, e = ⟨.outOfFuel, h.fuel, h.store.state p⟩

theorem Halt.Continues.anywhere {h : Halt size} {position other : Nat} {e : Ending}
    (hc : h.Continues code partners position e) (hv : h.verdict ≠ .finished) :
    h.Continues code partners other e := by
  unfold Halt.Continues at hc ⊢
  cases hh : h.verdict with
  | finished => exact absurd hh hv
  | outOfBounds place => simpa [hh] using hc
  | outOfFuel => simpa [hh] using hc

/-- With fuel left, the machine does the same at the end of a loop as at its start. -/
theorem exec_loopEnd_eq_loopStart {body next : Block} {position : Nat}
    (hc : code.HasAt position (Block.loop body next).code)
    (hl : (Block.loop body next).Linked partners position) (fuel : Nat) (s : Store size) :
    State.exec code.toArray partners (fuel + 1)
        (s.state (position + 1 + body.code.length)) =
      State.exec code.toArray partners (fuel + 1) (s.state position) := by
  rw [State.exec_ok fuel hc.tail.right.head (s.step_loopEnd hl.2.1),
    State.exec_ok fuel hc.head (s.step_loopStart hl.1)]

/-- A loop runs on the machine as it is evaluated, if its body and what follows it do. -/
theorem exec_loop {body next : Block} {position : Nat}
    (hc : code.HasAt position (Block.loop body next).code)
    (hl : (Block.loop body next).Linked partners position)
    (hbody : ∀ fuel (s : Store size),
      (body.eval fuel s).Continues code partners (position + 1 + body.code.length)
        (State.exec code.toArray partners fuel (s.state (position + 1))))
    (hnext : ∀ fuel (s : Store size),
      (next.eval fuel s).Continues code partners
        (position + 1 + body.code.length + 1 + next.code.length)
        (State.exec code.toArray partners fuel
          (s.state (position + 1 + body.code.length + 1)))) (fuel : Nat) (s : Store size) :
    ((Block.loop body next).eval fuel s).Continues code partners
      (position + 1 + body.code.length + 1 + next.code.length)
      (State.exec code.toArray partners fuel (s.state position)) := by
  -- Induction on the fuel: a round ends at the loop's end with less of it, and the machine jumps.
  induction fuel using Nat.strongRecOn generalizing s with
  | ind fuel ih =>
    cases fuel with
    | zero =>
      rw [State.exec_zero hc.head, Block.eval_loop_zero]
      exact ⟨_, rfl⟩
    | succ fuel =>
      rw [State.exec_ok fuel hc.head (s.step_loopStart hl.1)]
      by_cases h : s.cell = 0
      · rw [if_pos h, Block.eval_loop_skip body next fuel h]
        exact hnext fuel s
      · rw [if_neg h]
        have hb := hbody fuel s
        have bound : (body.eval fuel s).fuel ≤ fuel := (body.evalWithin fuel s).2
        generalize he : body.eval fuel s = ended at hb bound
        obtain ⟨verdict, left, t⟩ := ended
        cases verdict with
        | finished =>
          rw [Block.eval_loop_again next h he]
          change State.exec _ _ _ _ = State.exec _ _ left (t.state _) at hb
          rw [hb]
          cases left with
          | zero =>
            rw [State.exec_zero hc.tail.right.head, Block.eval_loop_zero]
            exact ⟨_, rfl⟩
          | succ left =>
            rw [exec_loopEnd_eq_loopStart hc hl]
            exact ih (left + 1) (Nat.lt_succ_of_le bound) t
        | outOfBounds place =>
          rw [Block.eval_loop_failed next h he (by simp)]
          exact hb.anywhere (by simp)
        | outOfFuel =>
          rw [Block.eval_loop_failed next h he (by simp)]
          exact hb.anywhere (by simp)

/-- A block runs on the machine as it is evaluated. -/
theorem exec_block (block : Block) {position : Nat} (hc : code.HasAt position block.code)
    (hl : block.Linked partners position) (fuel : Nat) (s : Store size) :
    (block.eval fuel s).Continues code partners (position + block.code.length)
      (State.exec code.toArray partners fuel (s.state position)) := by
  induction block generalizing position fuel s with
  | done => rfl
  | step i unmarked next ih =>
    have hstep := s.step_state unmarked partners position
    cases fuel with
    | zero =>
      rw [State.exec_zero hc.head, Block.eval_step_zero]
      exact ⟨_, rfl⟩
    | succ fuel =>
      cases hp : s.perform i with
      | error place =>
        rw [hp] at hstep
        rw [State.exec_error fuel hc.head hstep, Block.eval_step_error unmarked next fuel hp]
        exact ⟨_, rfl⟩
      | ok t =>
        rw [hp] at hstep
        rw [State.exec_ok fuel hc.head hstep, Block.eval_step_ok unmarked next fuel hp]
        have hlen : position + (Block.step i unmarked next).code.length =
            position + 1 + next.code.length := by
          simp only [Block.code, List.length_cons]
          omega
        rw [hlen]
        exact ih hc.tail hl fuel t
  | loop body next ihb ihn =>
    have hlen : position + (Block.loop body next).code.length =
        position + 1 + body.code.length + 1 + next.code.length := by
      simp only [Block.code, List.length_cons, List.length_append]
      omega
    rw [hlen]
    exact exec_loop hc hl (ihb hc.tail.left hl.2.2.1) (ihn hc.tail.right.tail hl.2.2.2) fuel s

/-- Evaluates a block from a clean tape: the result, and the machine afterwards. -/
def Block.run (block : Block) (limits : Limits) (positive : 0 < limits.memorySize)
    (input : List UInt8) : Except RunError (List UInt8) × Machine :=
  let h := block.eval limits.maxFuel (Store.initial limits.memorySize positive input)
  let used := limits.maxFuel - h.fuel
  let result :=
    match h.verdict with
    | .finished => .ok h.store.output.toList
    | .outOfBounds place => .error (.outOfBounds place limits.memorySize)
    | .outOfFuel => .error (.fuelExhausted used)
  (result, ⟨limits, h.store.cells.toArray, h.store.head, used⟩)

theorem Machine.reset_new (limits : Limits) : (Machine.new limits).reset = Machine.new limits := by
  simp [Machine.reset, Machine.new]

theorem Machine.run_of_loopPartners_error {error : LoopError}
    (h : code.loopPartners = .error error) (limits : Limits) (input : List UInt8) :
    (Machine.new limits).run code input = (.error (.loops error), Machine.new limits) := by
  simp only [Machine.run, Machine.reset_new, h]

/-- The state in which a run on a new machine begins. -/
def State.initial (size : Nat) (input : List UInt8) : State :=
  ⟨0, Array.replicate size 0, 0, input, #[]⟩

theorem Machine.run_of_loopPartners_ok (h : code.loopPartners = .ok partners) (limits : Limits)
    (input : List UInt8) :
    (Machine.new limits).run code input =
      let ending := State.exec code.toArray partners limits.maxFuel
        (.initial limits.memorySize input)
      let used := limits.maxFuel - ending.fuel
      (Machine.result ending used, ⟨limits, ending.state.tape, ending.state.head, used⟩) := by
  simp only [Machine.run, Machine.reset_new, h]
  rfl

theorem Machine.result_eq_fuelExhausted_iff {ending : Ending} {used executed : Nat} :
    Machine.result ending used = .error (.fuelExhausted executed) ↔
      ending.stop = .outOfFuel ∧ used = executed := by
  cases hs : ending.stop <;> simp [Machine.result, hs]

theorem Machine.result_eq_outOfBounds_iff {ending : Ending} {used : Nat} {cell : Int} {cells : Nat} :
    Machine.result ending used = .error (.outOfBounds cell cells) ↔
      ending.stop = .outOfBounds cell ∧ ending.state.tape.size = cells := by
  cases hs : ending.stop <;> simp [Machine.result, hs]

theorem Machine.run_of_block? {block : Block} (h : code.block? = some block) (limits : Limits)
    (positive : 0 < limits.memorySize) (input : List UInt8) :
    (Machine.new limits).run code input = block.run limits positive input := by
  obtain ⟨table, hp, hl⟩ := Code.loopPartners_of_block? h
  have hc : code.HasAt 0 block.code := ⟨[], [], by simp [← Code.eq_of_block? h], rfl⟩
  have he := exec_block block hc hl limits.maxFuel (Store.initial limits.memorySize positive input)
  have hs : (Store.initial limits.memorySize positive input).state 0 =
      .initial limits.memorySize input := rfl
  rw [hs] at he
  rw [Machine.run_of_loopPartners_ok hp, Block.run]
  generalize block.eval limits.maxFuel (Store.initial limits.memorySize positive input) = ended
    at he
  obtain ⟨verdict, left, t⟩ := ended
  cases verdict with
  | finished =>
    have hnone : code[(t.state (0 + block.code.length)).position]? = none := by
      simp [Store.state, ← Code.eq_of_block? h]
    have heq := he.trans (State.exec_end hnone left)
    rw [heq]
    rfl
  | outOfBounds place =>
    obtain ⟨p, heq⟩ := he
    rw [heq]
    simp [Machine.result, Store.state]
  | outOfFuel =>
    obtain ⟨p, heq⟩ := he
    rw [heq]
    rfl

/-- On code whose loops pair up, and a tape that has a cell, the machine does what structured
execution of the nested code does: the result, the tape, the head and the fuel used. -/
theorem machine_run_eq_structured {code : Code} (paired : code.checkLoops = .ok ())
    (limits : Limits) (positive : 0 < limits.memorySize) (input : List UInt8) :
    ∃ block, code.block? = some block ∧ block.code = code ∧
      (Machine.new limits).run code input = block.run limits positive input := by
  obtain ⟨block, h⟩ := Code.checkLoops_eq_ok_iff.mp paired
  exact ⟨block, h, (Code.eq_of_block? h).symm, Machine.run_of_block? h limits positive input⟩

/-- A loop that moves a cell to the right, and then a move off the tape. -/
theorem machine_run_eq_structured_transfer :
    let code : Code := [.adjust 2, .loopStart, .move 1, .adjust 1, .move (-1), .adjust (-1),
      .loopEnd, .move 5]
    code.checkLoops = .ok () ∧ ∃ positive : 0 < 3, ∃ block, code.block? = some block ∧
      block.code = code ∧ (Machine.new ⟨3, 20⟩).run code [] = block.run ⟨3, 20⟩ positive [] :=
  ⟨rfl, by decide, machine_run_eq_structured rfl ⟨3, 20⟩ (by decide) []⟩

end TapeC
