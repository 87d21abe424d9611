import Mathlib.Data.List.SplitBy
import TapeC.Proofs.Merging

namespace TapeC

/-- What stands for a run: the instruction of its sum, unless that is zero. Code that is not a run, since
some instruction of it has no count, stands for itself. -/
def Code.sumRun (count? : Instr → Option Int32) (make : Int32 → Instr) (reduce : Int → Int32)
    (run : Code) : Code :=
  match run.mapM count? with
  | some counts =>
    if reduce (counts.map Int32.toInt).sum = 0 then []
    else [make (reduce (counts.map Int32.toInt).sum)]
  | none => run

/-- Cuts code into the maximal runs of instructions with a count, any other instruction by itself, and
sums the runs. -/
def Code.sumRuns (count? : Instr → Option Int32) (make : Int32 → Instr) (reduce : Int → Int32)
    (code : Code) : Code :=
  (code.splitBy fun i j => (count? i).isSome && (count? j).isSome).flatMap
    (sumRun count? make reduce)

namespace Peephole

section Cutting

variable {count? : Instr → Option Int32}

/-- A piece of a cut is an instruction without a count, or a run. -/
theorem piece_cases {piece : Code} (nonempty : piece ≠ [])
    (chain : piece.IsChain fun i j => ((count? i).isSome && (count? j).isSome) = true) :
    (∃ i, piece = [i] ∧ count? i = none) ∨ ∀ i ∈ piece, (count? i).isSome = true := by
  induction piece with
  | nil => exact absurd rfl nonempty
  | cons i piece ih =>
    cases piece with
    | nil =>
      cases hi : count? i with
      | none => exact .inl ⟨i, rfl, hi⟩
      | some a => exact .inr (by simp [hi])
    | cons j piece =>
      obtain ⟨related, later⟩ := List.isChain_cons_cons.mp chain
      obtain ⟨hi, hj⟩ := Bool.and_eq_true_iff.mp related
      rcases ih (List.cons_ne_nil j piece) later with ⟨k, hk, hnone⟩ | counted
      · cases hk
        rw [hnone] at hj
        cases hj
      · exact .inr (List.forall_mem_cons.mpr ⟨hi, counted⟩)

/-- What stands behind a run begins without a count. -/
theorem head?_flatten_uncounted {piece : Code} {pieces : List Code}
    (counted : ∀ i ∈ piece, (count? i).isSome = true)
    (next : ∀ other ∈ pieces.head?, ∃ ha hb,
      ((count? (piece.getLast ha)).isSome && (count? (other.head hb)).isSome) = false) :
    ∀ i ∈ pieces.flatten.head?, count? i = none := by
  intro i hi
  cases pieces with
  | nil => cases hi
  | cons other pieces =>
    obtain ⟨ha, hb, separate⟩ := next other rfl
    rw [counted _ (List.getLast_mem ha), Bool.true_and] at separate
    obtain ⟨j, more, rfl⟩ := List.exists_cons_of_ne_nil hb
    cases hi
    simpa using separate

end Cutting

namespace Counting

variable {count? : Instr → Option Int32} {merge : Int32 → Int32 → Option Instr}
  (k : Counting count? merge)

theorem exists_counts {run : Code} (counted : ∀ i ∈ run, (count? i).isSome = true) :
    ∃ counts : List Int32, run = counts.map k.make := by
  induction run with
  | nil => exact ⟨[], rfl⟩
  | cons i run ih =>
    obtain ⟨hi, later⟩ := List.forall_mem_cons.mp counted
    obtain ⟨counts, rfl⟩ := ih later
    obtain ⟨a, ha⟩ := Option.isSome_iff_exists.mp hi
    exact ⟨a :: counts, by rw [List.map_cons, ← k.eq_make ha]⟩

theorem mapM_count?_map_make (counts : List Int32) :
    (counts.map k.make).mapM count? = some counts := by
  induction counts with
  | nil => rfl
  | cons a counts ih => simp [ih, k.count_make]

theorem sumRun_map_make {reduce : Int → Int32}
    (hreduce : ∀ sum, reduce sum = k.reduce (Int32.ofInt sum)) (counts : List Int32) :
    Code.sumRun count? k.make reduce (counts.map k.make) =
      (k.hold (k.reduce (Int32.ofInt (counts.map Int32.toInt).sum))).toList := by
  rw [Code.sumRun, k.mapM_count?_map_make]
  simp only [hreduce, hold]
  split <;> rfl

theorem sumRun_uncounted {reduce : Int → Int32} {i : Instr} (h : count? i = none) :
    Code.sumRun count? k.make reduce [i] = [i] := by
  simp [Code.sumRun, h]

/-- A run is summed if it ends at the end of the code or before an instruction without a count. -/
theorem mergeRuns_run {counts : List Int32} (nonempty : counts ≠ [])
    (valid : ∀ c ∈ counts, c ≠ 0 ∧ k.reduce c = c) {rest : Code}
    (ends : ∀ i ∈ rest.head?, count? i = none) :
    mergeRuns count? merge none (counts.map k.make ++ rest) =
      (k.hold (k.reduce (Int32.ofInt (counts.map Int32.toInt).sum))).toList ++
        mergeRuns count? merge none rest := by
  obtain ⟨first, more, rfl⟩ := List.exists_cons_of_ne_nil nonempty
  obtain ⟨⟨nonzero, hr⟩, later⟩ := List.forall_mem_cons.mp valid
  have start : some (k.make first) = k.hold (k.reduce first) := by
    rw [hr, hold_of_ne nonzero]
  have total : first + Int32.ofInt (more.map Int32.toInt).sum =
      Int32.ofInt ((first :: more).map Int32.toInt).sum := by
    rw [List.map_cons, List.sum_cons, Int32.ofInt_add, Int32.ofInt_toInt]
  rw [List.map_cons, List.cons_append, ← mergeRuns_some, start, k.mergeRuns_counts _ _ later, total]
  cases rest with
  | nil => simp [mergeRuns]
  | cons i rest =>
    have hi := ends i rfl
    rw [mergeRuns_held_uncounted _ hi, mergeRuns_uncounted hi]

/-- The scan sums the runs of any cut into pieces that cannot be joined. -/
theorem mergeRuns_flatten {reduce : Int → Int32}
    (hreduce : ∀ sum, reduce sum = k.reduce (Int32.ofInt sum)) {pieces : List Code}
    (nonempty : [] ∉ pieces)
    (chains : ∀ piece ∈ pieces,
      piece.IsChain fun i j => ((count? i).isSome && (count? j).isSome) = true)
    (apart : pieces.IsChain fun piece next => ∃ ha hb,
      ((count? (piece.getLast ha)).isSome && (count? (next.head hb)).isSome) = false)
    (valid : ∀ a, k.make a ∈ pieces.flatten → a ≠ 0 ∧ k.reduce a = a) :
    mergeRuns count? merge none pieces.flatten =
      pieces.flatMap (Code.sumRun count? k.make reduce) := by
  induction pieces with
  | nil => rfl
  | cons piece pieces ih =>
    have hne : piece ≠ [] := fun h => nonempty (by simp [h])
    obtain ⟨hchain, laterChains⟩ := List.forall_mem_cons.mp chains
    obtain ⟨next, laterApart⟩ := List.isChain_cons.mp apart
    have hrest := ih (fun h => nonempty (List.mem_cons_of_mem piece h)) laterChains laterApart
      fun a ha => valid a (by rw [List.flatten_cons]; exact List.mem_append_right piece ha)
    rw [List.flatten_cons, List.flatMap_cons]
    rcases piece_cases hne hchain with ⟨i, rfl, hi⟩ | counted
    · rw [List.singleton_append, mergeRuns_uncounted hi, hrest, k.sumRun_uncounted hi]
      rfl
    · obtain ⟨counts, rfl⟩ := k.exists_counts counted
      have hvalid : ∀ c ∈ counts, c ≠ 0 ∧ k.reduce c = c := fun c hc =>
        valid c (by
          rw [List.flatten_cons]
          exact List.mem_append_left _ (List.mem_map_of_mem hc))
      have ends := head?_flatten_uncounted counted next
      have hcounts : counts ≠ [] := fun h => hne (by rw [h]; rfl)
      rw [k.mergeRuns_run hcounts hvalid ends, hrest, k.sumRun_map_make hreduce]

theorem mergeRuns_eq_sumRuns {reduce : Int → Int32}
    (hreduce : ∀ sum, reduce sum = k.reduce (Int32.ofInt sum)) {code : Code}
    (valid : ∀ a, k.make a ∈ code → a ≠ 0 ∧ k.reduce a = a) :
    mergeRuns count? merge none code = code.sumRuns count? k.make reduce := by
  obtain ⟨hflat, nonempty, chains, apart⟩ := List.splitBy_eq_iff.mp
    (Eq.refl (code.splitBy fun i j => (count? i).isSome && (count? j).isSome))
  have h := k.mergeRuns_flatten hreduce nonempty chains apart
  rw [← hflat] at h
  exact h valid

end Counting

/-- The reduction to a signed byte can be made of the exact sum. -/
theorem ofInt_bmod_eq_wrapCell (sum : Int) :
    Int32.ofInt (sum.bmod 256) = wrapCell (Int32.ofInt sum) := by
  have exact_byte : (wrapCell (Int32.ofInt sum)).toInt = sum.bmod 256 := by
    rw [toInt_wrapCell, Int32.toInt_ofInt, Int.bmod_bmod_of_dvd (by decide)]
  rw [← exact_byte, Int32.ofInt_toInt]

end Peephole

open Peephole

/-- Merging sums the maximal runs of code that has no counts of zero: modulo the size of a word, or
modulo 256 where cells wrap and the counts are in the range of a signed byte to begin with. -/
theorem merging_sums_runs (code : Code) :
    (Instr.move 0 ∉ code →
      mergeMoves code = code.sumRuns Instr.moveCount? .move Int32.ofInt) ∧
    (Instr.adjust 0 ∉ code →
      mergeAdjusts false code = code.sumRuns Instr.adjustCount? .adjust Int32.ofInt) ∧
    (Instr.adjust 0 ∉ code → (∀ count, .adjust count ∈ code → -128 ≤ count ∧ count ≤ 127) →
      mergeAdjusts true code =
        code.sumRuns Instr.adjustCount? .adjust fun sum => .ofInt (sum.bmod 256)) := by
  refine ⟨fun nonzero => ?_, fun nonzero => ?_, fun nonzero inByte => ?_⟩
  · refine movesCounting.mergeRuns_eq_sumRuns (fun _ => rfl) fun a ha => ⟨?_, rfl⟩
    rintro rfl
    exact nonzero ha
  · refine (adjustsCounting false).mergeRuns_eq_sumRuns (fun _ => rfl) fun a ha => ⟨?_, rfl⟩
    rintro rfl
    exact nonzero ha
  · refine (adjustsCounting true).mergeRuns_eq_sumRuns ofInt_bmod_eq_wrapCell fun a ha => ⟨?_, ?_⟩
    · rintro rfl
      exact nonzero ha
    · exact wrapCell_eq_self_iff.mpr (inByte a ha)

/-- Runs that cancel on the way, exactly or by wrapping, and go on. -/
theorem merging_sums_runs_cancelling :
    let code : Code := [.move 3, .move (-3), .move 2147483647, .move 1, .move 5, .adjust 100,
      .adjust 100, .adjust 56, .adjust (-2), .output, .adjust (-128), .adjust (-128), .loopEnd]
    Instr.move 0 ∉ code ∧ Instr.adjust 0 ∉ code ∧
      (∀ count, .adjust count ∈ code → -128 ≤ count ∧ count ≤ 127) ∧
      mergeMoves code = [.move (-2147483643), .adjust 100, .adjust 100, .adjust 56, .adjust (-2),
        .output, .adjust (-128), .adjust (-128), .loopEnd] ∧
      mergeAdjusts false code = [.move 3, .move (-3), .move 2147483647, .move 1, .move 5,
        .adjust 254, .output, .adjust (-256), .loopEnd] ∧
      mergeAdjusts true code = [.move 3, .move (-3), .move 2147483647, .move 1, .move 5,
        .adjust (-2), .output, .loopEnd] := by
  intro code
  have moving : Instr.move 0 ∉ code := by decide
  have adjusting : Instr.adjust 0 ∉ code := by decide
  have inByte : ∀ count, .adjust count ∈ code → -128 ≤ count ∧ count ≤ 127 := by
    intro count h
    have listed : count = 100 ∨ count = 56 ∨ count = -2 ∨ count = -128 := by simpa [code] using h
    rcases listed with rfl | rfl | rfl | rfl
    all_goals decide
  obtain ⟨moves, words, bytes⟩ := merging_sums_runs code
  refine ⟨moving, adjusting, inByte, (moves moving).trans ?_, (words adjusting).trans ?_,
    (bytes adjusting inByte).trans ?_⟩
  · decide
  · decide
  · decide

end TapeC
