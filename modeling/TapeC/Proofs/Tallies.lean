import Mathlib.Algebra.Ring.Nat
import Mathlib.Data.List.Chain
import TapeC.Proofs.Rewriting

namespace TapeC

open Relation (ReflTransGen)

namespace Peephole

variable {p : Peephole} {code other : Code}

theorem Rewrites.length_lt (h : p.Rewrites code other) : other.length < code.length := by
  cases h with
  | moves before after a b =>
    have merged := Option.length_toList_le (o := Instr.move? (a + b))
    simp only [List.length_append, List.length_cons]
    omega
  | adjusts before after a b =>
    have merged := Option.length_toList_le (o := Instr.adjust? (p.sumAdjusts a b))
    simp only [List.length_append, List.length_cons]
    omega
  | zeroIdiom before after zero =>
    simp only [List.length_append, List.length_cons]
    omega

theorem eq_or_length_lt_of_rewrites (h : ReflTransGen p.Rewrites code other) :
    other = code ∨ other.length < code.length := by
  induction h with
  | refl => exact .inl rfl
  | tail _ rule ih =>
    have shorter := rule.length_lt
    rcases ih with rfl | earlier
    · exact .inr shorter
    · exact .inr (Nat.lt_trans shorter earlier)

/-- Rewriting that does not make code shorter has not changed it. -/
theorem eq_iff_length_le_of_rewrites (h : ReflTransGen p.Rewrites code other) :
    other = code ↔ code.length ≤ other.length := by
  constructor
  · rintro rfl
    exact Nat.le_refl _
  · intro le
    rcases eq_or_length_lt_of_rewrites h with same | shorter
    · exact same
    · omega

theorem length_runPass_le (pass : Pass) (code : Code) :
    (p.runPass pass code).length ≤ code.length := by
  rcases eq_or_length_lt_of_rewrites (p.runPass_rewrites pass code) with same | shorter
  · exact Nat.le_of_eq (congrArg List.length same)
  · exact Nat.le_of_lt shorter

/-- Code after some passes in order. -/
def through (p : Peephole) (passes : List Pass) (code : Code) : Code :=
  passes.foldl (fun code pass => p.runPass pass code) code

theorem runPasses_code (passes : List Pass) (code : Code) :
    (p.runPasses passes code).1 = p.through passes code := by
  induction passes generalizing code with
  | nil => rfl
  | cons pass passes ih => exact ih (p.runPass pass code)

theorem runPasses_tally (passes : List Pass) (code : Code) (k : Nat) :
    (p.runPasses passes code).2[k]? = passes[k]?.map fun pass =>
      ⟨pass, (p.through (passes.take k) code).length,
        (p.through (passes.take (k + 1)) code).length⟩ := by
  induction passes generalizing code k with
  | nil => rfl
  | cons pass passes ih =>
    cases k with
    | zero => rfl
    | succ k => exact ih (p.runPass pass code) k

end Peephole

/-- What holds of the tallies of passes that took code of one length to code of another. -/
structure PassTally.Account (passes : List Pass) (before after : Nat) (tallies : List PassTally) :
    Prop where
  passes_eq : tallies.map PassTally.pass = passes
  first : ∀ t ∈ tallies.head?, t.before = before
  linked : tallies.IsChain fun t next => t.after = next.before
  last : (tallies.getLast?.map PassTally.after).getD before = after
  shrinks : ∀ t ∈ tallies, t.after ≤ t.before
  total : (tallies.map fun t => t.before - t.after).sum + after = before

namespace PassTally.Account

theorem nil (length : Nat) : Account [] length length [] :=
  ⟨rfl, by simp, .nil, rfl, by simp, by simp⟩

theorem cons {passes : List Pass} {before middle after : Nat} {tallies : List PassTally}
    (h : Account passes middle after tallies) (pass : Pass) (le : middle ≤ before) :
    Account (pass :: passes) before after (⟨pass, before, middle⟩ :: tallies) where
  passes_eq := by rw [List.map_cons, h.passes_eq]
  first t ht := by
    cases ht
    rfl
  linked := List.isChain_cons.mpr ⟨fun t ht => (h.first t ht).symm, h.linked⟩
  last := by
    rw [List.getLast?_cons, ← h.last]
    cases tallies.getLast? <;> rfl
  shrinks := List.forall_mem_cons.mpr ⟨le, h.shrinks⟩
  total := by
    have later := h.total
    rw [List.map_cons, List.sum_cons]
    simp only
    omega

end PassTally.Account

theorem Peephole.runPasses_account (p : Peephole) (passes : List Pass) (code : Code) :
    PassTally.Account passes code.length (p.runPasses passes code).1.length
      (p.runPasses passes code).2 := by
  induction passes generalizing code with
  | nil => exact .nil code.length
  | cons pass passes ih => exact (ih (p.runPass pass code)).cons pass (length_runPass_le pass code)

/-- The tallies of an optimiser say what its passes did. There is one for each pass, in order, with the
lengths of the code around the pass, so that each begins where the one before ended. No pass makes code
longer; the number of removed instructions is exact, and it is what the passes removed together. Nothing
was removed if and only if nothing was changed. -/
theorem tally_faithful (p : Peephole) (code : Code) :
    let final := (p.optimizeWithTally code).1
    let tally := (p.optimizeWithTally code).2
    final = p.through p.passes code ∧ tally.before = code.length ∧ tally.after = final.length ∧
    tally.passes.map PassTally.pass = p.passes ∧
    (∀ t ∈ tally.passes.head?, t.before = code.length) ∧
    tally.passes.IsChain (fun t next => t.after = next.before) ∧
    (tally.passes.getLast?.map PassTally.after).getD code.length = final.length ∧
    (∀ k : Nat, tally.passes[k]? = p.passes[k]?.map fun pass =>
      ⟨pass, (p.through (p.passes.take k) code).length,
        (p.through (p.passes.take (k + 1)) code).length⟩) ∧
    (∀ t ∈ tally.passes, t.after ≤ t.before) ∧
    tally.after + tally.removed = tally.before ∧
    tally.removed = (tally.passes.map fun t => t.before - t.after).sum ∧
    (tally.removed = 0 ↔ final = code) := by
  intro final tally
  have account : PassTally.Account p.passes code.length final.length tally.passes :=
    p.runPasses_account p.passes code
  have removed : tally.removed = code.length - final.length := rfl
  have total := account.total
  refine ⟨p.runPasses_code p.passes code, rfl, rfl, account.passes_eq, account.first,
    account.linked, account.last, p.runPasses_tally p.passes code, account.shrinks, ?_, by omega, ?_⟩
  · have before : tally.before = code.length := rfl
    have after : tally.after = final.length := rfl
    omega
  · rw [removed, Nat.sub_eq_zero_iff_le]
    exact (Peephole.eq_iff_length_le_of_rewrites (p.optimize_rewrites code)).symm

/-- The middle pass finds nothing to do, the others do. -/
theorem tally_faithful_standard :
    let code : Code := [.move 1, .move 1, .move 1, .loopStart, .adjust (-1), .loopEnd]
    let idle : PassTally := ⟨.adjusts, 4, 4⟩
    let tally : Tally := ⟨6, 2, [⟨.moves, 6, 4⟩, idle, ⟨.zeroIdiom, 4, 2⟩]⟩
    Peephole.optimizeWithTally {} code = ([.move 3, .clear], tally) ∧ idle ∈ tally.passes ∧
      idle.after ≤ idle.before ∧ tally.removed = 4 ∧
      tally.removed = (tally.passes.map fun t => t.before - t.after).sum ∧
      (tally.removed = 0 ↔ [.move 3, .clear] = code) := by
  intro code idle tally
  have given : Peephole.optimizeWithTally {} code = ([.move 3, .clear], tally) := by decide
  have member : idle ∈ tally.passes := by decide
  have faithful := tally_faithful {} code
  rw [given] at faithful
  obtain ⟨_, _, _, _, _, _, _, _, shrinks, _, total, unchanged⟩ := faithful
  exact ⟨given, member, shrinks idle member, rfl, total, unchanged⟩

end TapeC
