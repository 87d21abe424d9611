import TapeC.Proofs.Nesting
import TapeC.Proofs.Rewriting

namespace TapeC

/-- Whether an instruction carries a count, so that merging may replace it. -/
def Instr.isCount : Instr → Bool
  | move _ | adjust _ => true
  | _ => false

/-- Whether an instruction reads input or writes output. -/
def Instr.isPort : Instr → Bool
  | output | input => true
  | _ => false

theorem Instr.isCount_cases {i : Instr} (h : i.isCount = true) :
    (∃ count, i = .move count) ∨ ∃ count, i = .adjust count := by
  cases i with
  | move count => exact .inl ⟨count, rfl⟩
  | adjust count => exact .inr ⟨count, rfl⟩
  | _ => cases h

theorem Instr.unmarked_of_isCount {i : Instr} (h : i.isCount = true) : i.isLoopMark = false := by
  obtain ⟨count, rfl⟩ | ⟨count, rfl⟩ := isCount_cases h
  · rfl
  · rfl

theorem Instr.isCount_of_mem_move? {count : Int32} {i : Instr} (h : i ∈ Instr.move? count) :
    i.isCount = true := by
  unfold Instr.move? at h
  split at h
  next => cases h
  next =>
    cases Option.some.inj h
    rfl

theorem Instr.isCount_of_mem_adjust? {count : Int32} {i : Instr} (h : i ∈ Instr.adjust? count) :
    i.isCount = true := by
  unfold Instr.adjust? at h
  split at h
  next => cases h
  next =>
    cases Option.some.inj h
    rfl

namespace Peephole

/-- Optimised code stands to the given code in every preorder on code that allows three things: more
code in front, counts in place of two counts, and an assignment in place of a loop over one
adjustment. -/
theorem optimize_related {R : Code → Code → Prop} (refl : ∀ code, R code code)
    (trans : ∀ {first second third}, R first second → R second third → R first third)
    (cons : ∀ i {code other}, R code other → R (i :: code) (i :: other))
    (merge : ∀ {i j : Instr} {merged : Option Instr} (rest : Code), i.isCount = true →
      j.isCount = true → (∀ k ∈ merged, k.isCount = true) →
      R (i :: j :: rest) (merged.toList ++ rest))
    (idiom : ∀ (step : Int32) (rest : Code),
      R (.loopStart :: .adjust step :: .loopEnd :: rest) (.clear :: rest))
    (p : Peephole) (code : Code) : R code (p.optimize code) := by
  have append : ∀ (before : Code) {code other}, R code other →
      R (before ++ code) (before ++ other) := by
    intro before code other h
    induction before with
    | nil => exact h
    | cons i before ih => exact cons i ih
  have h := optimize_rewrites p code
  generalize p.optimize code = other at h
  induction h with
  | refl => exact refl code
  | tail _ hr ih =>
    apply trans ih
    cases hr with
    | moves before after a b =>
      exact append before (merge after rfl rfl fun _ => Instr.isCount_of_mem_move?)
    | adjusts before after a b =>
      exact append before (merge after rfl rfl fun _ => Instr.isCount_of_mem_adjust?)
    | zeroIdiom before after h => exact append before (idiom _ after)

end Peephole

/-! ### The loop check -/

/-- What the loop check may say of optimised code, given what it says of the code before: the same,
except that the first loop end that closes nothing may come earlier. -/
inductive LoopVerdict.Kept : Except LoopError Unit → Except LoopError Unit → Prop
  | paired : Kept (.ok ()) (.ok ())
  | unclosed (count : Nat) : Kept (.error (.unclosed count)) (.error (.unclosed count))
  | unmatchedEnd {before after : Nat} (earlier : after ≤ before) :
      Kept (.error (.unmatchedEnd before)) (.error (.unmatchedEnd after))

namespace LoopVerdict.Kept

variable {given result : Except LoopError Unit}

theorem trans {first second third : Except LoopError Unit} (h : Kept first second)
    (h' : Kept second third) : Kept first third := by
  cases h with
  | paired => exact h'
  | unclosed count => exact h'
  | unmatchedEnd earlier =>
    cases h' with
    | unmatchedEnd earlier' => exact .unmatchedEnd (Nat.le_trans earlier' earlier)

theorem ok_iff (h : Kept given result) : result = .ok () ↔ given = .ok () := by
  cases h with
  | paired => rfl
  | unclosed count => simp
  | unmatchedEnd earlier => simp

theorem unclosed_iff (h : Kept given result) (count : Nat) :
    result = .error (.unclosed count) ↔ given = .error (.unclosed count) := by
  cases h with
  | paired => rfl
  | unclosed count => rfl
  | unmatchedEnd earlier => simp

theorem unmatchedEnd_iff (h : Kept given result) :
    (∃ position, result = .error (.unmatchedEnd position)) ↔
      ∃ position, given = .error (.unmatchedEnd position) := by
  cases h with
  | paired => rfl
  | unclosed count => rfl
  | unmatchedEnd earlier => exact ⟨fun _ => ⟨_, rfl⟩, fun _ => ⟨_, rfl⟩⟩

theorem earlier_of_unmatchedEnd {before after : Nat}
    (h : Kept (.error (.unmatchedEnd before)) (.error (.unmatchedEnd after))) :
    after ≤ before := by
  cases h with
  | unmatchedEnd earlier => exact earlier

end LoopVerdict.Kept

namespace Code

/-- Whether the loop check keeps its verdict from one code to another, wherever the two stand and
however many loops are open there. -/
def LoopsKept (code other : Code) : Prop :=
  ∀ before after opened, after ≤ before →
    LoopVerdict.Kept (checkLoopsFrom before opened code) (checkLoopsFrom after opened other)

theorem LoopsKept.cons (i : Instr) {code other : Code} (h : LoopsKept code other) :
    LoopsKept (i :: code) (i :: other) := by
  intro before after opened earlier
  by_cases unmarked : i.isLoopMark = false
  · rw [checkLoopsFrom_unmarked unmarked, checkLoopsFrom_unmarked unmarked]
    exact h _ _ _ (by omega)
  · cases i with
    | loopStart =>
      rw [checkLoopsFrom_loopStart, checkLoopsFrom_loopStart]
      exact h _ _ _ (by omega)
    | loopEnd =>
      cases opened with
      | zero => exact .unmatchedEnd earlier
      | succ opened => exact h _ _ _ (by omega)
    | _ => exact absurd rfl unmarked

theorem LoopsKept.refl (code : Code) : LoopsKept code code := by
  induction code with
  | nil =>
    intro before after opened _
    cases opened with
    | zero => exact .paired
    | succ opened => exact .unclosed (opened + 1)
  | cons i rest ih => exact ih.cons i

theorem LoopsKept.trans {first second third : Code} (h : LoopsKept first second)
    (h' : LoopsKept second third) : LoopsKept first third := fun before _ opened earlier =>
  (h before before opened (Nat.le_refl _)).trans (h' before _ opened earlier)

theorem loopsKept_merge {i j : Instr} {merged : Option Instr} (rest : Code)
    (hi : i.isCount = true) (hj : j.isCount = true) (hm : ∀ k ∈ merged, k.isCount = true) :
    LoopsKept (i :: j :: rest) (merged.toList ++ rest) := by
  intro before after opened earlier
  rw [checkLoopsFrom_unmarked (Instr.unmarked_of_isCount hi),
    checkLoopsFrom_unmarked (Instr.unmarked_of_isCount hj)]
  cases merged with
  | none => exact LoopsKept.refl rest _ _ _ (by omega)
  | some k =>
    have hk := Instr.unmarked_of_isCount (hm k rfl)
    rw [Option.toList_some, List.singleton_append, checkLoopsFrom_unmarked hk]
    exact LoopsKept.refl rest _ _ _ (by omega)

theorem loopsKept_idiom (step : Int32) (rest : Code) :
    LoopsKept (.loopStart :: .adjust step :: .loopEnd :: rest) (.clear :: rest) := by
  intro before after opened earlier
  have hclear : Instr.clear.isLoopMark = false := rfl
  rw [checkLoopsFrom_loopStart, checkLoopsFrom_unmarked rfl, checkLoopsFrom_unmarked hclear]
  exact LoopsKept.refl rest _ _ _ (by omega)

theorem loopsKept_optimize (p : Peephole) (code : Code) : LoopsKept code (p.optimize code) :=
  p.optimize_related LoopsKept.refl LoopsKept.trans LoopsKept.cons loopsKept_merge loopsKept_idiom
    code

/-! ### Loops that become assignments -/

/-- Whether every loop of code that is missing from other code has become an assignment there. -/
def LoopsAssigned (code other : Code) : Prop :=
  ∃ lost, code.countP Instr.isLoopStart = other.countP Instr.isLoopStart + lost ∧
    code.countP Instr.isLoopEnd = other.countP Instr.isLoopEnd + lost ∧
    other.countP Instr.isSynthetic = code.countP Instr.isSynthetic + lost

theorem LoopsAssigned.trans {first second third : Code} (h : LoopsAssigned first second)
    (h' : LoopsAssigned second third) : LoopsAssigned first third := by
  obtain ⟨lost, starts, ends, assigns⟩ := h
  obtain ⟨lost', starts', ends', assigns'⟩ := h'
  exact ⟨lost + lost', by omega, by omega, by omega⟩

theorem LoopsAssigned.cons (i : Instr) {code other : Code} (h : LoopsAssigned code other) :
    LoopsAssigned (i :: code) (i :: other) := by
  obtain ⟨lost, starts, ends, assigns⟩ := h
  refine ⟨lost, ?_, ?_, ?_⟩
  · rw [List.countP_cons, List.countP_cons]
    omega
  · rw [List.countP_cons, List.countP_cons]
    omega
  · rw [List.countP_cons, List.countP_cons]
    omega

/-- Counts fall under no test that is false of every instruction with a count. -/
theorem filter_merge {test : Instr → Bool} (ht : ∀ k : Instr, k.isCount = true → test k = false)
    {i j : Instr} {merged : Option Instr} (rest : Code) (hi : i.isCount = true)
    (hj : j.isCount = true) (hm : ∀ k ∈ merged, k.isCount = true) :
    (merged.toList ++ rest).filter test = (i :: j :: rest).filter test := by
  have hi' := ht i hi
  have hj' := ht j hj
  cases merged with
  | none => simp [hi', hj']
  | some k =>
    have hk' := ht k (hm k rfl)
    simp [hi', hj', hk']

theorem loopsAssigned_optimize (p : Peephole) (code : Code) :
    LoopsAssigned code (p.optimize code) := by
  refine p.optimize_related (R := LoopsAssigned) (fun code => ⟨0, rfl, rfl, rfl⟩)
    LoopsAssigned.trans LoopsAssigned.cons (fun {i j merged} rest hi hj hm => ?_)
    (fun step rest => ?_) code
  · have kept : ∀ test : Instr → Bool, (∀ k : Instr, k.isCount = true → test k = false) →
        (merged.toList ++ rest).countP test = (i :: j :: rest).countP test := by
      intro test ht
      rw [List.countP_eq_length_filter, List.countP_eq_length_filter,
        filter_merge ht rest hi hj hm]
    refine ⟨0, (kept _ ?_).symm, (kept _ ?_).symm, kept _ ?_⟩
    all_goals
      intro k hk
      obtain ⟨count, rfl⟩ | ⟨count, rfl⟩ := Instr.isCount_cases hk
      · rfl
      · rfl
  · refine ⟨1, ?_, ?_, ?_⟩
    · simp [List.countP_cons, Instr.isLoopStart, Instr.clear]
    · simp [List.countP_cons, Instr.isLoopEnd, Instr.clear]
    · simp [List.countP_cons, Instr.isSynthetic, Instr.clear]

/-! ### Input and output -/

theorem ports_optimize (p : Peephole) (code : Code) :
    (p.optimize code).filter Instr.isPort = code.filter Instr.isPort := by
  refine p.optimize_related (R := fun code other =>
    other.filter Instr.isPort = code.filter Instr.isPort) (fun _ => rfl) (fun h h' => h'.trans h)
    (fun i {code other} h => ?_) (fun rest hi hj hm => ?_) (fun step rest => ?_) code
  · rw [List.filter_cons, List.filter_cons, h]
  · refine filter_merge (fun k hk => ?_) rest hi hj hm
    obtain ⟨count, rfl⟩ | ⟨count, rfl⟩ := Instr.isCount_cases hk
    · rfl
    · rfl
  · simp [Instr.isPort, Instr.clear]

/-! ### Nesting -/

theorem loopDepthFrom_unmarked {i : Instr} (unmarked : i.isLoopMark = false) (opened : Nat)
    (rest : Code) : loopDepthFrom opened (i :: rest) = loopDepthFrom opened rest := by
  cases i with
  | loopStart => cases unmarked
  | loopEnd => cases unmarked
  | _ => rfl

/-- The deepest nesting that a loop start reaches, an assignment being counted as the loop that it may
have been, with some loops already open. -/
def loopReachFrom : Nat → Code → Nat
  | _, [] => 0
  | opened, .loopStart :: rest => max (opened + 1) (loopReachFrom (opened + 1) rest)
  | opened, .loopEnd :: rest => loopReachFrom (opened - 1) rest
  | opened, .assign _ _ :: rest => max (opened + 1) (loopReachFrom opened rest)
  | opened, _ :: rest => loopReachFrom opened rest

theorem loopReachFrom_of_isCount {i : Instr} (h : i.isCount = true) (opened : Nat) (rest : Code) :
    loopReachFrom opened (i :: rest) = loopReachFrom opened rest := by
  obtain ⟨count, rfl⟩ | ⟨count, rfl⟩ := Instr.isCount_cases h
  · rfl
  · rfl

theorem loopDepthFrom_le_loopReachFrom (opened : Nat) (code : Code) :
    loopDepthFrom opened code ≤ loopReachFrom opened code := by
  induction code generalizing opened with
  | nil => exact Nat.le_refl _
  | cons i rest ih =>
    cases i with
    | loopStart =>
      have := ih (opened + 1)
      simp only [loopDepthFrom, loopReachFrom]
      omega
    | loopEnd => exact ih (opened - 1)
    | assign value offset =>
      have := ih opened
      simp only [loopDepthFrom, loopReachFrom]
      omega
    | _ => exact ih opened

theorem loopReachFrom_le (opened : Nat) (code : Code) :
    loopReachFrom opened code ≤ max opened (loopDepthFrom opened code) + 1 := by
  induction code generalizing opened with
  | nil => exact Nat.zero_le _
  | cons i rest ih =>
    cases i with
    | loopStart =>
      have := ih (opened + 1)
      simp only [loopDepthFrom, loopReachFrom]
      omega
    | loopEnd =>
      have := ih (opened - 1)
      simp only [loopDepthFrom, loopReachFrom]
      omega
    | assign value offset =>
      have := ih opened
      simp only [loopDepthFrom, loopReachFrom]
      omega
    | _ => exact ih opened

theorem loopReachFrom_optimize (p : Peephole) (code : Code) (opened : Nat) :
    loopReachFrom opened (p.optimize code) = loopReachFrom opened code := by
  refine p.optimize_related (R := fun code other => ∀ opened,
    loopReachFrom opened other = loopReachFrom opened code) (fun _ _ => rfl)
    (fun h h' opened => (h' opened).trans (h opened)) (fun i {code other} h opened => ?_)
    (fun {i j merged} rest hi hj hm opened => ?_) (fun step rest opened => rfl) code opened
  · cases i with
    | loopStart => simp only [loopReachFrom, h]
    | loopEnd => exact h (opened - 1)
    | assign value offset => simp only [loopReachFrom, h]
    | _ => exact h opened
  · rw [loopReachFrom_of_isCount hi, loopReachFrom_of_isCount hj]
    cases merged with
    | none => rfl
    | some k => exact loopReachFrom_of_isCount (hm k rfl) opened rest

theorem loopDepthFrom_optimize_le (p : Peephole) (code : Code) (opened : Nat) :
    loopDepthFrom opened (p.optimize code) ≤ loopDepthFrom opened code := by
  refine p.optimize_related (R := fun code other => ∀ opened,
    loopDepthFrom opened other ≤ loopDepthFrom opened code) (fun _ _ => Nat.le_refl _)
    (fun h h' opened => Nat.le_trans (h' opened) (h opened)) (fun i {code other} h opened => ?_)
    (fun {i j merged} rest hi hj hm opened => ?_) (fun step rest opened => ?_) code opened
  · cases i with
    | loopStart =>
      have := h (opened + 1)
      simp only [loopDepthFrom]
      omega
    | loopEnd => exact h (opened - 1)
    | _ => exact h opened
  · rw [loopDepthFrom_unmarked (Instr.unmarked_of_isCount hi),
      loopDepthFrom_unmarked (Instr.unmarked_of_isCount hj)]
    cases merged with
    | none => exact Nat.le_refl _
    | some k =>
      exact Nat.le_of_eq (loopDepthFrom_unmarked (Instr.unmarked_of_isCount (hm k rfl)) opened rest)
  · exact Nat.le_max_right _ _

end Code

/-- Every list of passes keeps the shape of loops, whether or not they pair up. The loop check gives the
same verdict, and the first loop end that closes nothing comes no later; as many loop starts as loop
ends are lost, and as many assignments are gained; input and output stay in their order; and the
nesting gets no deeper, and shallower by one level at the most. -/
theorem optimize_keeps_loops (p : Peephole) (code : Code) :
    ((p.optimize code).checkLoops = .ok () ↔ code.checkLoops = .ok ()) ∧
    (∀ count, (p.optimize code).checkLoops = .error (.unclosed count) ↔
      code.checkLoops = .error (.unclosed count)) ∧
    ((∃ position, (p.optimize code).checkLoops = .error (.unmatchedEnd position)) ↔
      ∃ position, code.checkLoops = .error (.unmatchedEnd position)) ∧
    (∀ before after, code.checkLoops = .error (.unmatchedEnd before) →
      (p.optimize code).checkLoops = .error (.unmatchedEnd after) → after ≤ before) ∧
    (∃ lost, code.countP Instr.isLoopStart = (p.optimize code).countP Instr.isLoopStart + lost ∧
      code.countP Instr.isLoopEnd = (p.optimize code).countP Instr.isLoopEnd + lost ∧
      (p.optimize code).countP Instr.isSynthetic = code.countP Instr.isSynthetic + lost) ∧
    (p.optimize code).filter Instr.isPort = code.filter Instr.isPort ∧
    code.loopDepth - 1 ≤ (p.optimize code).loopDepth ∧
    (p.optimize code).loopDepth ≤ code.loopDepth := by
  have verdict : LoopVerdict.Kept code.checkLoops (p.optimize code).checkLoops :=
    Code.loopsKept_optimize p code 0 0 0 (Nat.le_refl 0)
  have shallower : code.loopDepth ≤ (p.optimize code).loopDepth + 1 := by
    have lower := Code.loopDepthFrom_le_loopReachFrom 0 code
    have upper := Code.loopReachFrom_le 0 (p.optimize code)
    rw [Code.loopReachFrom_optimize] at upper
    unfold Code.loopDepth
    omega
  refine ⟨verdict.ok_iff, verdict.unclosed_iff, verdict.unmatchedEnd_iff, ?_,
    Code.loopsAssigned_optimize p code, Code.ports_optimize p code, by omega,
    Code.loopDepthFrom_optimize_le p code 0⟩
  intro before after hb ha
  rw [hb, ha] at verdict
  exact verdict.earlier_of_unmatchedEnd

/-- A loop that becomes an assignment inside another one, and a loop end that closes nothing. -/
theorem optimize_keeps_loops_unmatched :
    let code : Code := [.loopStart, .loopStart, .adjust 2, .adjust (-3), .loopEnd, .output, .loopEnd,
      .loopEnd]
    let result := Peephole.optimize {} code
    code.checkLoops = .error (.unmatchedEnd 7) ∧ result.checkLoops = .error (.unmatchedEnd 4) ∧
      4 ≤ 7 ∧ code.loopDepth = 2 ∧ result.loopDepth = 1 ∧ code.loopDepth - 1 ≤ result.loopDepth := by
  intro code result
  have given : code.checkLoops = .error (.unmatchedEnd 7) := rfl
  have kept : result.checkLoops = .error (.unmatchedEnd 4) := rfl
  obtain ⟨_, _, _, earlier, _, _, shallower, _⟩ := optimize_keeps_loops {} code
  exact ⟨given, kept, earlier 7 4 given kept, by decide, by decide, shallower⟩

end TapeC
