import Mathlib.Order.Bounds.Basic
import TapeC.Machine
import TapeC.Proofs.Partners

namespace TapeC

namespace Code

/-- Code whose loops pair up, by the grammar of such code. -/
inductive Balanced : Code → Prop
  | empty : Balanced []
  | other {i : Instr} {rest : Code} (unmarked : i.isLoopMark = false) :
      Balanced rest → Balanced (i :: rest)
  | loop {body rest : Code} :
      Balanced body → Balanced rest → Balanced (.loopStart :: body ++ .loopEnd :: rest)

/-- The positions up to which, the position included, more loops are closed than opened, with some
loops already open. -/
def overclosedFrom (opened : Nat) (code : Code) : Set Nat :=
  {k | k < code.length ∧
    opened + (code.take (k + 1)).countP Instr.isLoopStart <
      (code.take (k + 1)).countP Instr.isLoopEnd}

def overclosed (code : Code) : Set Nat := overclosedFrom 0 code

/-! ### The grammar -/

theorem balanced_block (block : Block) : Balanced block.code := by
  induction block with
  | done => exact .empty
  | step i unmarked next ih => exact .other unmarked ih
  | loop body next ihb ihn => exact .loop ihb ihn

theorem Balanced.checkLoopsFrom_append {part : Code} (h : Balanced part) (position opened : Nat)
    (rest : Code) :
    checkLoopsFrom position opened (part ++ rest) =
      checkLoopsFrom (position + part.length) opened rest := by
  induction h generalizing position opened rest with
  | empty => rfl
  | @other i part unmarked _ ih =>
    have hlength : position + (i :: part).length = position + 1 + part.length := by
      rw [List.length_cons]
      omega
    rw [List.cons_append, checkLoopsFrom_unmarked unmarked, ih, hlength]
  | @loop body part _ _ ihb ihp =>
    have hlength : position + (.loopStart :: body ++ .loopEnd :: part).length =
        position + 1 + body.length + 1 + part.length := by
      simp only [List.cons_append, List.length_cons, List.length_append]
      omega
    -- The end of the loop finds the loop open that its start has opened.
    have hend : checkLoopsFrom (position + 1 + body.length) (opened + 1)
        (.loopEnd :: (part ++ rest)) =
          checkLoopsFrom (position + 1 + body.length + 1) opened (part ++ rest) := rfl
    rw [hlength, List.cons_append, List.cons_append, List.append_assoc, List.cons_append,
      checkLoopsFrom_loopStart, ihb, hend, ihp]

theorem checkLoops_eq_ok_iff_balanced {code : Code} : code.checkLoops = .ok () ↔ code.Balanced := by
  constructor
  · intro h
    obtain ⟨block, hb⟩ := checkLoops_eq_ok_iff.mp h
    rw [eq_of_block? hb]
    exact balanced_block block
  · intro h
    have hcheck := h.checkLoopsFrom_append 0 0 []
    rw [List.append_nil] at hcheck
    exact hcheck

/-! ### The verdict by counting -/

theorem zero_mem_overclosedFrom_cons {opened : Nat} {i : Instr} {rest : Code} :
    0 ∈ overclosedFrom opened (i :: rest) ↔
      opened + (if i.isLoopStart then 1 else 0) < if i.isLoopEnd then 1 else 0 := by
  simp [overclosedFrom, List.countP_cons]

/-- Behind an instruction the count goes on with the loops that it leaves open. -/
theorem succ_mem_overclosedFrom_cons {opened left k : Nat} {i : Instr} {rest : Code}
    (h : opened + (if i.isLoopStart then 1 else 0) = left + if i.isLoopEnd then 1 else 0) :
    k + 1 ∈ overclosedFrom opened (i :: rest) ↔ k ∈ overclosedFrom left rest := by
  simp only [overclosedFrom, Set.mem_ofPred_eq, List.length_cons, List.take_succ_cons,
    List.countP_cons]
  omega

theorem checkLoopsFrom_cons (position opened : Nat) (i : Instr) (rest : Code) :
    (0 ∈ overclosedFrom opened (i :: rest) ∧
      checkLoopsFrom position opened (i :: rest) = .error (.unmatchedEnd position)) ∨
    ∃ left, opened + (if i.isLoopStart then 1 else 0) = left + (if i.isLoopEnd then 1 else 0) ∧
      checkLoopsFrom position opened (i :: rest) = checkLoopsFrom (position + 1) left rest := by
  by_cases unmarked : i.isLoopMark = false
  · have marks := Bool.or_eq_false_iff.mp unmarked
    exact .inr ⟨opened, by rw [marks.1, marks.2], checkLoopsFrom_unmarked unmarked _ _ _⟩
  · cases i with
    | loopStart => exact .inr ⟨opened + 1, rfl, checkLoopsFrom_loopStart _ _ _⟩
    | loopEnd =>
      cases opened with
      | zero => exact .inl ⟨zero_mem_overclosedFrom_cons.mpr (by decide), rfl⟩
      | succ opened => exact .inr ⟨opened, rfl, rfl⟩
    | _ => exact absurd rfl unmarked

/-- The check reports the first position that is closed too often, and otherwise how many loops are
left open. -/
theorem checkLoopsFrom_cases (position opened : Nat) (code : Code) :
    (∃ k, IsLeast (overclosedFrom opened code) k ∧
      checkLoopsFrom position opened code = .error (.unmatchedEnd (position + k))) ∨
    overclosedFrom opened code = ∅ ∧
      ∃ count, opened + code.countP Instr.isLoopStart = code.countP Instr.isLoopEnd + count ∧
        checkLoopsFrom position opened code =
          if count = 0 then .ok () else .error (.unclosed count) := by
  induction code generalizing position opened with
  | nil =>
    refine .inr ⟨by simp [overclosedFrom], opened, by simp, ?_⟩
    cases opened <;> rfl
  | cons i rest ih =>
    obtain ⟨first, hcheck⟩ | ⟨left, hleft, hcheck⟩ := checkLoopsFrom_cons position opened i rest
    · exact .inl ⟨0, ⟨first, fun k _ => Nat.zero_le k⟩, hcheck⟩
    have later : 0 ∉ overclosedFrom opened (i :: rest) := by
      rw [zero_mem_overclosedFrom_cons]
      omega
    rw [hcheck]
    obtain ⟨k, ⟨hk, least⟩, herror⟩ | ⟨never, count, hcount, hverdict⟩ := ih (position + 1) left
    · refine .inl ⟨k + 1, ⟨(succ_mem_overclosedFrom_cons hleft).mpr hk, fun j hj => ?_⟩, ?_⟩
      · cases j with
        | zero => exact absurd hj later
        | succ j =>
          have := least ((succ_mem_overclosedFrom_cons hleft).mp hj)
          omega
      · rw [herror, Nat.add_right_comm, Nat.add_assoc]
    · refine .inr ⟨Set.eq_empty_iff_forall_notMem.mpr fun j hj => ?_, count, ?_, hverdict⟩
      · cases j with
        | zero => exact later hj
        | succ j =>
          have hmem := (succ_mem_overclosedFrom_cons hleft).mp hj
          rw [never] at hmem
          exact hmem
      · rw [List.countP_cons, List.countP_cons]
        omega

theorem checkLoops_cases (code : Code) :
    (∃ k, IsLeast code.overclosed k ∧ code.checkLoops = .error (.unmatchedEnd k)) ∨
    code.overclosed = ∅ ∧
      ∃ count, code.countP Instr.isLoopStart = code.countP Instr.isLoopEnd + count ∧
        code.checkLoops = if count = 0 then .ok () else .error (.unclosed count) := by
  have h := checkLoopsFrom_cases 0 0 code
  simp only [Nat.zero_add] at h
  exact h

theorem checkLoops_eq_unmatchedEnd_iff {code : Code} {position : Nat} :
    code.checkLoops = .error (.unmatchedEnd position) ↔ IsLeast code.overclosed position := by
  obtain ⟨k, least, hk⟩ | ⟨never, count, _, hverdict⟩ := code.checkLoops_cases
  · rw [hk]
    constructor
    · intro h
      cases h
      exact least
    · intro h
      rw [least.unique h]
  · rw [hverdict, never]
    constructor
    · intro h
      split at h <;> cases h
    · intro h
      exact absurd h.1 (Set.notMem_empty position)

theorem checkLoops_eq_unclosed_iff {code : Code} {count : Nat} :
    code.checkLoops = .error (.unclosed count) ↔
      code.overclosed = ∅ ∧ 0 < count ∧
        (count : Int) = code.countP Instr.isLoopStart - code.countP Instr.isLoopEnd := by
  obtain ⟨k, least, hk⟩ | ⟨never, left, hleft, hverdict⟩ := code.checkLoops_cases
  · rw [hk]
    constructor
    · intro h
      cases h
    · rintro ⟨empty, _⟩
      rw [empty] at least
      exact absurd least.1 (Set.notMem_empty k)
  · rw [hverdict]
    constructor
    · intro h
      split at h
      next => cases h
      next nonzero =>
        cases h
        exact ⟨never, by omega, by omega⟩
    · rintro ⟨_, positive, hcount⟩
      have same : left = count := by omega
      rw [same, if_neg (by omega)]

/-! ### The table of partners -/

theorem loopPartners_eq_error_iff {code : Code} {error : LoopError} :
    code.loopPartners = .error error ↔ code.checkLoops = .error error := by
  rw [← map_loopPartners]
  cases code.loopPartners with
  | ok partners => simp [Except.map]
  | error e => simp [Except.map]

theorem loopPartners_eq_ok_iff {code : Code} :
    (∃ partners, code.loopPartners = .ok partners) ↔ code.checkLoops = .ok () := by
  rw [← map_loopPartners]
  cases code.loopPartners with
  | ok partners => simp [Except.map]
  | error e => simp [Except.map]

end Code

theorem Machine.result_ne_loops (ending : Ending) (used : Nat) (error : LoopError) :
    Machine.result ending used ≠ .error (.loops error) := by
  unfold Machine.result
  split <;> simp

theorem Machine.run_eq_loops_iff (m : Machine) {code : Code} (input : List UInt8)
    {error : LoopError} :
    (m.run code input).1 = .error (.loops error) ↔ code.loopPartners = .error error := by
  unfold Machine.run
  cases code.loopPartners with
  | error e => simp
  | ok partners => simp [Machine.result_ne_loops]

/-- The loop check, the table of partners and a run of any machine report the same error, if any. They
report none exactly for the code of the grammar; a loop end that closes nothing, exactly at the first
position up to which more loops are closed than opened; and loops left open, exactly if there is no
such position and the loop starts outnumber the loop ends, by as many. -/
theorem loop_checks_agree (code : Code) :
    (∀ error, code.loopPartners = .error error ↔ code.checkLoops = .error error) ∧
    (∀ (m : Machine) (input : List UInt8) (error : LoopError),
      (m.run code input).1 = .error (.loops error) ↔ code.checkLoops = .error error) ∧
    (code.checkLoops = .ok () ↔ code.Balanced) ∧
    ((∃ partners, code.loopPartners = .ok partners) ↔ code.Balanced) ∧
    (∀ position, code.checkLoops = .error (.unmatchedEnd position) ↔
      IsLeast code.overclosed position) ∧
    (∀ count : Nat, code.checkLoops = .error (.unclosed count) ↔
      code.overclosed = ∅ ∧ 0 < count ∧
        (count : Int) = code.countP Instr.isLoopStart - code.countP Instr.isLoopEnd) := by
  refine ⟨fun _ => Code.loopPartners_eq_error_iff, fun m input error => ?_,
    Code.checkLoops_eq_ok_iff_balanced, ?_, fun _ => Code.checkLoops_eq_unmatchedEnd_iff,
    fun _ => Code.checkLoops_eq_unclosed_iff⟩
  · rw [m.run_eq_loops_iff, Code.loopPartners_eq_error_iff]
  · rw [Code.loopPartners_eq_ok_iff, Code.checkLoops_eq_ok_iff_balanced]

end TapeC
