import TapeC.Proofs.BigStep

namespace TapeC

variable {size : Nat}

namespace Block

/-- A block runs to an outcome, at whatever cost. -/
def Ends (block : Block) (s : Store size) (r : Outcome size) : Prop := ∃ n, block.Runs s n r

/-- A block with another one behind it. -/
def append : Block → Block → Block
  | .done, other => other
  | .step i unmarked next, other => .step i unmarked (next.append other)
  | .loop body next, other => .loop body (next.append other)

/-- An instruction some number of times. -/
def times (i : Instr) (unmarked : i.isLoopMark = false) : Nat → Block
  | 0 => .done
  | count + 1 => .step i unmarked (times i unmarked count)

theorem append_done (block : Block) : block.append .done = block := by
  induction block with
  | done => rfl
  | step i unmarked next ih => rw [append, ih]
  | loop body next _ ih => rw [append, ih]

theorem code_append (first second : Block) :
    (first.append second).code = first.code ++ second.code := by
  induction first with
  | done => rfl
  | step i unmarked next ih => simp [append, code, ih]
  | loop body next _ ih => simp [append, code, ih]

theorem code_times (i : Instr) (unmarked : i.isLoopMark = false) (count : Nat) :
    (times i unmarked count).code = List.replicate count i := by
  induction count with
  | zero => rfl
  | succ count ih => rw [times, code, ih, List.replicate_succ]

/-- A block in front of code is nested in front of what the code nests to. -/
theorem nest_code_append (block : Block) (rest : Code) :
    Code.nest (block.code ++ rest) =
      (Code.nest rest).map fun (next, outer) => (block.append next, outer) := by
  induction block generalizing rest with
  | done => simp [code, append]
  | step i unmarked next ih =>
    rw [code, List.cons_append, Code.nest_cons_unmarked unmarked, ih, Option.map_map]
    rfl
  | loop body next ihb ihn =>
    rw [code, List.cons_append, List.cons_append, List.append_assoc, List.cons_append, Code.nest,
      ihb, Code.nest, ihn]
    cases Code.nest rest with
    | none => rfl
    | some nested =>
      simp only [Option.map_some, Option.bind_some, push_loopEnd, push_loopStart, append_done]
      rfl

end Block

/-- What an outcome becomes when another block follows: it is run if the outcome is data. -/
def Outcome.Then (second : Block) : Outcome size → Outcome size → Prop
  | .finished t, r => second.Ends t r
  | .escaped place t, r => r = .escaped place t

namespace Block

variable {first second : Block} {s t : Store size} {q r : Outcome size}

theorem Ends.unique {block : Block} (hq : block.Ends s q) (hr : block.Ends s r) : q = r := by
  obtain ⟨m, hm⟩ := hq
  obtain ⟨n, hn⟩ := hr
  exact (hm.unique hn).2

theorem Ends.append (h : first.Ends s q) (h' : q.Then second r) :
    (first.append second).Ends s r := by
  obtain ⟨n, h⟩ := h
  induction h with
  | done => exact h'
  | step hp _ ih =>
    obtain ⟨m, hm⟩ := ih h'
    exact ⟨_, .step hp hm⟩
  | escape hp =>
    cases h'
    exact ⟨_, .escape hp⟩
  | skip hz _ ih =>
    obtain ⟨m, hm⟩ := ih h'
    exact ⟨_, .skip hz hm⟩
  | again hz hb _ _ ih =>
    obtain ⟨m, hm⟩ := ih h'
    exact ⟨_, .again hz hb hm⟩
  | escapeBody hz hb =>
    cases h'
    exact ⟨_, .escapeBody hz hb⟩

theorem Ends.of_append (h : (first.append second).Ends s r) :
    ∃ q, first.Ends s q ∧ q.Then second r := by
  obtain ⟨n, h⟩ := h
  induction first generalizing s n r with
  | done => exact ⟨.finished s, ⟨0, .done⟩, n, h⟩
  | step i unmarked next ih =>
    cases h with
    | step hp hr =>
      obtain ⟨q, ⟨m, hm⟩, hq⟩ := ih _ hr
      exact ⟨q, ⟨_, .step hp hm⟩, hq⟩
    | escape hp => exact ⟨_, ⟨_, .escape hp⟩, rfl⟩
  | loop body next _ ih =>
    change (loop body (next.append second)).Runs s n r at h
    induction h using Runs.loop_induction with
    | skip hz hr =>
      obtain ⟨q, ⟨m, hm⟩, hq⟩ := ih _ hr
      exact ⟨q, ⟨_, .skip hz hm⟩, hq⟩
    | again hz hb _ ihl =>
      obtain ⟨q, ⟨m, hm⟩, hq⟩ := ihl
      exact ⟨q, ⟨_, .again hz hb hm⟩, hq⟩
    | escapeBody hz hb => exact ⟨_, ⟨_, .escapeBody hz hb⟩, rfl⟩

end Block

/-- Two outcomes with the same data, or both off the tape. -/
def Outcome.Alike : Outcome size → Outcome size → Prop
  | .finished s, .finished t => s = t
  | .escaped _ _, .escaped _ _ => True
  | _, _ => False

namespace Block

/-- The second block ends wherever the first one does, and alike. -/
def Covers (size : Nat) (block other : Block) : Prop :=
  ∀ (s : Store size) (r : Outcome size), block.Ends s r → ∃ q, other.Ends s q ∧ r.Alike q

theorem Covers.done : Covers size .done .done := by
  rintro s r ⟨n, h⟩
  cases h
  exact ⟨.finished s, ⟨0, .done⟩, rfl⟩

theorem Covers.loop {body other next after : Block} (hb : Covers size body other)
    (hn : Covers size next after) : Covers size (.loop body next) (.loop other after) := by
  rintro s r ⟨n, h⟩
  induction h using Runs.loop_induction with
  | skip hz hr =>
    obtain ⟨q, ⟨m, hm⟩, alike⟩ := hn _ _ ⟨_, hr⟩
    exact ⟨q, ⟨_, .skip hz hm⟩, alike⟩
  | again hz hbody _ ih =>
    obtain ⟨p, ⟨m, hm⟩, same⟩ := hb _ _ ⟨_, hbody⟩
    obtain ⟨q, ⟨k, hk⟩, alike⟩ := ih
    cases p with
    | finished t =>
      cases same
      exact ⟨q, ⟨_, .again hz hm hk⟩, alike⟩
    | escaped place t => cases same
  | escapeBody hz hbody =>
    obtain ⟨p, ⟨m, hm⟩, same⟩ := hb _ _ ⟨_, hbody⟩
    cases p with
    | finished t => cases same
    | escaped place t => exact ⟨_, ⟨_, .escapeBody hz hm⟩, trivial⟩

/-- Whether a block does what an instruction does: it ends with the same data, or off the tape. -/
def Performs (size : Nat) (block : Block) (i : Instr) : Prop :=
  ∀ s : Store size,
    match s.perform i with
    | .ok t => block.Ends s (.finished t)
    | .error _ => ∃ place t, block.Ends s (.escaped place t)

variable {block next after : Block} {i : Instr}

/-- A block that does what an instruction does can replace it. -/
theorem Performs.covers (h : block.Performs size i) (unmarked : i.isLoopMark = false)
    (hn : Covers size next after) :
    Covers size (.step i unmarked next) (block.append after) := by
  rintro s r ⟨n, hr⟩
  have hs := h s
  cases hr with
  | step hp hr =>
    rw [hp] at hs
    obtain ⟨q, hq, alike⟩ := hn _ _ ⟨_, hr⟩
    exact ⟨q, hs.append hq, alike⟩
  | escape hp =>
    rw [hp] at hs
    obtain ⟨place, t, he⟩ := hs
    exact ⟨_, he.append rfl, trivial⟩

theorem Performs.covered (h : block.Performs size i) (unmarked : i.isLoopMark = false)
    (hn : Covers size next after) :
    Covers size (block.append next) (.step i unmarked after) := by
  intro s r hr
  obtain ⟨p, hblock, hthen⟩ := hr.of_append
  have hs := h s
  cases hp : s.perform i with
  | ok t =>
    rw [hp] at hs
    cases hblock.unique hs
    obtain ⟨q, ⟨m, hm⟩, alike⟩ := hn _ _ hthen
    exact ⟨q, ⟨_, .step hp hm⟩, alike⟩
  | error off =>
    rw [hp] at hs
    obtain ⟨place, t, he⟩ := hs
    cases hblock.unique he
    cases hthen
    exact ⟨_, ⟨_, .escape hp⟩, trivial⟩

end Block

/-- Code whose loops pair up is covered by code whose loops pair up. -/
def Code.Covers (size : Nat) (code other : Code) : Prop :=
  ∀ block, code.block? = some block →
    ∃ after, other.block? = some after ∧ block.Covers size after

namespace Machine

variable {code other : Code} {input : List UInt8} {fuel : Nat}

/-- A clean run is matched by a clean run of code that covers it, under some limit. -/
theorem ok_of_covers (positive : 0 < size) (h : code.Covers size other) {out : List UInt8}
    (clean : ((Machine.new ⟨size, fuel⟩).run code input).1 = .ok out) :
    ∃ enough, ((Machine.new ⟨size, enough⟩).run other input).1 = .ok out := by
  obtain ⟨block, n, s, hb, fits, hr⟩ := finished_of_run ⟨size, fuel⟩ positive clean
  obtain ⟨after, ho, covers⟩ := h block hb
  have before := congrArg Prod.fst (run_of_runs ⟨size, fuel⟩ positive hb hr fits)
  obtain ⟨q, ⟨m, hm⟩, alike⟩ := covers _ _ ⟨n, hr⟩
  cases q with
  | finished t =>
    cases alike
    have matched := congrArg Prod.fst (run_of_runs ⟨size, m⟩ positive ho hm (Nat.le_refl m))
    exact ⟨m, matched.trans (before.symm.trans clean)⟩
  | escaped place t => cases alike

/-- A run that leaves the tape is matched by one of code that covers it. -/
theorem escaped_of_covers (positive : 0 < size) (h : code.Covers size other) {place : Int}
    {cells : Nat}
    (leaves : ((Machine.new ⟨size, fuel⟩).run code input).1 = .error (.outOfBounds place cells)) :
    ∃ enough place cells,
      ((Machine.new ⟨size, enough⟩).run other input).1 = .error (.outOfBounds place cells) := by
  obtain ⟨block, n, s, hb, fits, hr⟩ := escaped_of_run ⟨size, fuel⟩ positive leaves
  obtain ⟨after, ho, covers⟩ := h block hb
  obtain ⟨q, ⟨m, hm⟩, alike⟩ := covers _ _ ⟨n, hr⟩
  cases q with
  | finished t => cases alike
  | escaped found t =>
    have matched := congrArg Prod.fst (run_of_runs ⟨size, m⟩ positive ho hm (Nat.le_refl m))
    exact ⟨m, found, size, matched⟩

/-- Clean runs of code and of code that covers it leave the same tape and the same head. -/
theorem same_of_covers (positive : 0 < size) (h : code.Covers size other) {more : Nat}
    {out result : List UInt8} (clean : ((Machine.new ⟨size, fuel⟩).run code input).1 = .ok out)
    (clean' : ((Machine.new ⟨size, more⟩).run other input).1 = .ok result) :
    ((Machine.new ⟨size, more⟩).run other input).2.tape =
        ((Machine.new ⟨size, fuel⟩).run code input).2.tape ∧
      ((Machine.new ⟨size, more⟩).run other input).2.head =
        ((Machine.new ⟨size, fuel⟩).run code input).2.head := by
  obtain ⟨block, n, s, hb, fits, hr⟩ := finished_of_run ⟨size, fuel⟩ positive clean
  obtain ⟨found, m, t, ho, fits', hr'⟩ := finished_of_run ⟨size, more⟩ positive clean'
  obtain ⟨after, ho', covers⟩ := h block hb
  cases Option.some.inj (ho'.symm.trans ho)
  obtain ⟨q, hq, alike⟩ := covers _ _ ⟨n, hr⟩
  cases hq.unique ⟨m, hr'⟩
  cases alike
  rw [run_of_runs ⟨size, fuel⟩ positive hb hr fits, run_of_runs ⟨size, more⟩ positive ho hr' fits']
  exact ⟨rfl, rfl⟩

end Machine

end TapeC
