import TapeC.Proofs.Simulation

namespace TapeC

variable {size : Nat}

/-- How execution without a limit can end. -/
inductive Outcome (size : Nat) where
  | finished (s : Store size)
  | escaped (place : Int) (s : Store size)

/-- An outcome as the end of evaluation with some fuel left. -/
def Outcome.halt : Outcome size → Nat → Halt size
  | .finished s, fuel => ⟨.finished, fuel, s⟩
  | .escaped place s, fuel => ⟨.outOfBounds place, fuel, s⟩

/-- A block runs from some data to an outcome with a cost. A loop costs one unit for each look at
the cell under the head. -/
inductive Block.Runs : Block → Store size → Nat → Outcome size → Prop
  | done {s : Store size} : Runs .done s 0 (.finished s)
  | step {i : Instr} {unmarked : i.isLoopMark = false} {next : Block} {s t : Store size} {n : Nat}
      {r : Outcome size} : s.perform i = .ok t → Runs next t n r →
      Runs (.step i unmarked next) s (n + 1) r
  | escape {i : Instr} {unmarked : i.isLoopMark = false} {next : Block} {s : Store size}
      {place : Int} : s.perform i = .error place →
      Runs (.step i unmarked next) s 1 (.escaped place s)
  | skip {body next : Block} {s : Store size} {n : Nat} {r : Outcome size} : s.cell = 0 →
      Runs next s n r → Runs (.loop body next) s (n + 1) r
  | again {body next : Block} {s t : Store size} {m n : Nat} {r : Outcome size} : s.cell ≠ 0 →
      Runs body s m (.finished t) → Runs (.loop body next) t n r →
      Runs (.loop body next) s (m + n + 1) r
  | escapeBody {body next : Block} {s t : Store size} {m : Nat} {place : Int} : s.cell ≠ 0 →
      Runs body s m (.escaped place t) → Runs (.loop body next) s (m + 1) (.escaped place t)

/-- The data at the end. -/
def Outcome.store : Outcome size → Store size
  | .finished s => s
  | .escaped _ s => s

/-- The result of a run that ends so. -/
def Outcome.result : Outcome size → Except RunError (List UInt8)
  | .finished s => .ok s.output.toList
  | .escaped place _ => .error (.outOfBounds place size)

namespace Block

/-- Induction over the rounds of a loop. -/
@[elab_as_elim]
theorem Runs.loop_induction {body next : Block}
    {motive : ∀ (s : Store size) (n : Nat) (r : Outcome size), (loop body next).Runs s n r → Prop}
    (skip : ∀ {s n r} (hz : s.cell = 0) (hn : next.Runs s n r), motive s (n + 1) r (.skip hz hn))
    (again : ∀ {s t m n r} (hz : s.cell ≠ 0) (hb : body.Runs s m (.finished t))
      (hl : (loop body next).Runs t n r), motive t n r hl →
      motive s (m + n + 1) r (.again hz hb hl))
    (escapeBody : ∀ {s t m place} (hz : s.cell ≠ 0) (hb : body.Runs s m (.escaped place t)),
      motive s (m + 1) (.escaped place t) (.escapeBody hz hb))
    {s : Store size} {n : Nat} {r : Outcome size} (h : (loop body next).Runs s n r) :
    motive s n r h := by
  have rounds : ∀ {block : Block} {s n r} (h : block.Runs s n r) (hl : block = loop body next),
      motive s n r (hl ▸ h) := by
    intro block s n r h hl
    induction h with
    | done => cases hl
    | step => cases hl
    | escape => cases hl
    | skip hz hn =>
      cases hl
      exact skip hz hn
    | again hz hb hrest _ ih =>
      cases hl
      exact again hz hb hrest (ih rfl)
    | escapeBody hz hb =>
      cases hl
      exact escapeBody hz hb
  exact rounds h rfl

/-- Evaluation finds an execution that fits into the limit. -/
theorem eval_of_runs {block : Block} {s : Store size} {n : Nat} {r : Outcome size}
    (h : block.Runs s n r) (left : Nat) : block.eval (n + left) s = r.halt left := by
  induction h generalizing left with
  | done =>
    rw [Nat.zero_add]
    rfl
  | step hp _ ih => rw [Nat.add_right_comm, eval_step_ok _ _ _ hp, ih]
  | escape hp =>
    rw [Nat.add_comm, eval_step_error _ _ _ hp]
    rfl
  | skip hz _ ih => rw [Nat.add_right_comm, eval_loop_skip _ _ _ hz, ih]
  | @again body next s t m n r hz _ _ ihb ihl =>
    rw [Nat.add_right_comm, Nat.add_assoc m n left, eval_loop_again next hz (ihb (n + left)), ihl]
  | escapeBody hz _ ih =>
    rw [Nat.add_right_comm]
    exact eval_loop_failed _ hz (ih left) (by simp)

/-- Evaluation that does not run out of fuel follows an execution that fits into the limit. -/
theorem runs_or_outOfFuel (block : Block) (fuel : Nat) (s : Store size) :
    (∃ n left r, fuel = n + left ∧ block.Runs s n r) ∨
      (block.eval fuel s).verdict = .outOfFuel := by
  induction block generalizing fuel s with
  | done => exact .inl ⟨0, fuel, _, by omega, .done⟩
  | step i unmarked next ih =>
    cases fuel with
    | zero => exact .inr rfl
    | succ fuel =>
      cases hp : s.perform i with
      | error place => exact .inl ⟨1, fuel, _, by omega, .escape hp⟩
      | ok t =>
        rcases ih fuel t with ⟨n, left, r, hf, hr⟩ | ho
        · exact .inl ⟨n + 1, left, r, by omega, .step hp hr⟩
        · rw [eval_step_ok unmarked next fuel hp]
          exact .inr ho
  | loop body next ihb ihn =>
    -- A round of the loop costs at least one unit, so that the next one has less fuel.
    induction fuel using Nat.strongRecOn generalizing s with
    | ind fuel ihf =>
      cases fuel with
      | zero => exact .inr rfl
      | succ fuel =>
        by_cases hz : s.cell = 0
        · rcases ihn fuel s with ⟨n, left, r, hf, hr⟩ | ho
          · exact .inl ⟨n + 1, left, r, by omega, .skip hz hr⟩
          · rw [eval_loop_skip body next fuel hz]
            exact .inr ho
        · rcases ihb fuel s with ⟨m, left, r, hf, hr⟩ | ho
          · cases r with
            | escaped place t => exact .inl ⟨m + 1, left, _, by omega, .escapeBody hz hr⟩
            | finished t =>
              rcases ihf left (by omega) t with ⟨n, rest, r, hl, hn⟩ | ho
              · exact .inl ⟨m + n + 1, rest, r, by omega, .again hz hr hn⟩
              · have he : body.eval fuel s = ⟨.finished, left, t⟩ := by
                  rw [hf]
                  exact eval_of_runs hr left
                rw [eval_loop_again next hz he]
                exact .inr ho
          · have he : body.eval fuel s =
                ⟨.outOfFuel, (body.eval fuel s).fuel, (body.eval fuel s).store⟩ := by rw [← ho]
            rw [eval_loop_failed next hz he (by simp)]
            exact .inr rfl

/-- An execution is determined by where it starts, its cost included. -/
theorem Runs.unique {block : Block} {s : Store size} {m n : Nat} {r q : Outcome size}
    (hr : block.Runs s m r) (hq : block.Runs s n q) : m = n ∧ r = q := by
  have he := (eval_of_runs hr n).symm.trans (Nat.add_comm m n ▸ eval_of_runs hq m)
  cases r <;> cases q <;> simp_all [Outcome.halt]

end Block

namespace Machine

variable {code : Code} {block : Block} (limits : Limits) {input : List UInt8} {n : Nat}

/-- A run ends as the execution that fits into its limit. -/
theorem run_of_runs (positive : 0 < limits.memorySize) (hb : code.block? = some block)
    {r : Outcome limits.memorySize}
    (hr : block.Runs (Store.initial limits.memorySize positive input) n r)
    (fits : n ≤ limits.maxFuel) :
    (Machine.new limits).run code input =
      (r.result, ⟨limits, r.store.cells.toArray, r.store.head, n⟩) := by
  obtain ⟨left, hleft⟩ := Nat.exists_eq_add_of_le fits
  have he := Block.eval_of_runs hr left
  rw [← hleft] at he
  have used : limits.maxFuel - left = n := by omega
  cases r with
  | finished s =>
    simp only [run_of_block? hb limits positive input, Block.run, he, Outcome.halt, used,
      Outcome.result, Outcome.store]
  | escaped place s =>
    simp only [run_of_block? hb limits positive input, Block.run, he, Outcome.halt, used,
      Outcome.result, Outcome.store]

theorem run_of_outOfFuel (positive : 0 < limits.memorySize) (hb : code.block? = some block)
    (ho : (block.eval limits.maxFuel (Store.initial limits.memorySize positive input)).verdict =
      .outOfFuel) :
    ∃ used, ((Machine.new limits).run code input).1 = .error (.fuelExhausted used) := by
  simp only [run_of_block? hb limits positive input, Block.run, ho]
  exact ⟨_, rfl⟩

theorem run_of_unpaired (h : code.block? = none) :
    ∃ error, ((Machine.new limits).run code input).1 = .error (.loops error) := by
  cases hp : code.loopPartners with
  | ok partners =>
    obtain ⟨block, hb⟩ := Code.block?_of_loopPartners hp
    rw [h] at hb
    cases hb
  | error error => exact ⟨error, by rw [run_of_loopPartners_error hp]⟩

/-- How a run on a tape that has a cell can end: the loops do not pair up; or there is an execution
that fits into the limit, and the run ends as it does; or there is none, and fuel runs out. -/
theorem run_cases (positive : 0 < limits.memorySize) (code : Code) (input : List UInt8) :
    (∃ error, ((Machine.new limits).run code input).1 = .error (.loops error)) ∨
    ∃ block, code.block? = some block ∧
      ((∃ n r, n ≤ limits.maxFuel ∧
          block.Runs (Store.initial limits.memorySize positive input) n r) ∨
        ∃ used, ((Machine.new limits).run code input).1 = .error (.fuelExhausted used)) := by
  cases hb : code.block? with
  | none => exact .inl (run_of_unpaired limits hb)
  | some block =>
    refine .inr ⟨block, rfl, ?_⟩
    rcases block.runs_or_outOfFuel limits.maxFuel (Store.initial limits.memorySize positive input)
      with ⟨n, left, r, hf, hr⟩ | ho
    · exact .inl ⟨n, r, by omega, hr⟩
    · exact .inr (run_of_outOfFuel limits positive hb ho)

/-- A clean run is a finished execution that fits into the limit. -/
theorem finished_of_run (positive : 0 < limits.memorySize) {out : List UInt8}
    (h : ((Machine.new limits).run code input).1 = .ok out) :
    ∃ block n s, code.block? = some block ∧ n ≤ limits.maxFuel ∧
      block.Runs (Store.initial limits.memorySize positive input) n (.finished s) := by
  rcases run_cases limits positive code input with
    ⟨error, he⟩ | ⟨block, hb, ⟨n, r, fits, hr⟩ | ⟨used, he⟩⟩
  · cases h.symm.trans he
  · have hend := congrArg Prod.fst (run_of_runs limits positive hb hr fits)
    cases r with
    | finished s => exact ⟨block, n, s, hb, fits, hr⟩
    | escaped place s => cases h.symm.trans hend
  · cases h.symm.trans he

/-- A run that leaves the tape is an escaped execution that fits into the limit. -/
theorem escaped_of_run (positive : 0 < limits.memorySize) {place : Int} {cells : Nat}
    (h : ((Machine.new limits).run code input).1 = .error (.outOfBounds place cells)) :
    ∃ block n s, code.block? = some block ∧ n ≤ limits.maxFuel ∧
      block.Runs (Store.initial limits.memorySize positive input) n (.escaped place s) := by
  rcases run_cases limits positive code input with
    ⟨error, he⟩ | ⟨block, hb, ⟨n, r, fits, hr⟩ | ⟨used, he⟩⟩
  · cases h.symm.trans he
  · have hend := congrArg Prod.fst (run_of_runs limits positive hb hr fits)
    cases r with
    | finished s => cases h.symm.trans hend
    | escaped found s =>
      cases h.symm.trans hend
      exact ⟨block, n, s, hb, fits, hr⟩
  · cases h.symm.trans he

/-- Code runs out of fuel under every limit if and only if its loops pair up and it has no
execution. -/
theorem exhausted_iff {size : Nat} (positive : 0 < size) (code : Code) (input : List UInt8) :
    (∀ fuel, ∃ used,
        ((Machine.new ⟨size, fuel⟩).run code input).1 = .error (.fuelExhausted used)) ↔
      ∃ block, code.block? = some block ∧
        ∀ n r, ¬block.Runs (Store.initial size positive input) n r := by
  constructor
  · intro h
    rcases run_cases ⟨size, 0⟩ positive code input with ⟨error, he⟩ | ⟨block, hb, _⟩
    · obtain ⟨used, h0⟩ := h 0
      rw [h0] at he
      cases he
    · refine ⟨block, hb, fun n r hr => ?_⟩
      obtain ⟨used, hn⟩ := h n
      have hend := congrArg Prod.fst (run_of_runs ⟨size, n⟩ positive hb hr (Nat.le_refl _))
      cases r with
      | finished s => cases hn.symm.trans hend
      | escaped place s => cases hn.symm.trans hend
  · rintro ⟨block, hb, none⟩ fuel
    rcases block.runs_or_outOfFuel fuel (Store.initial size positive input)
      with ⟨n, left, r, _, hr⟩ | ho
    · exact absurd hr (none n r)
    · exact run_of_outOfFuel ⟨size, fuel⟩ positive hb ho

end Machine

end TapeC
