import Mathlib.Logic.Relation
import TapeC.Peephole

namespace TapeC

open Relation (ReflTransGen)

namespace Peephole

/-- The sum of two adjustments. -/
def sumAdjusts (p : Peephole) (a b : Int32) : Int32 :=
  if p.wrapCells then wrapCell (a + b) else a + b

/-- One application of a rule, between the code before and the code after its place. -/
inductive Rewrites (p : Peephole) : Code → Code → Prop
  | moves (before after : Code) (a b : Int32) :
      Rewrites p (before ++ .move a :: .move b :: after)
        (before ++ ((Instr.move? (a + b)).toList ++ after))
  | adjusts (before after : Code) (a b : Int32) :
      Rewrites p (before ++ .adjust a :: .adjust b :: after)
        (before ++ ((Instr.adjust? (p.sumAdjusts a b)).toList ++ after))
  | zeroIdiom (before after : Code) {step : Int32}
      (h : isZeroStep p.acceptsIncrement step = true) :
      Rewrites p (before ++ .loopStart :: .adjust step :: .loopEnd :: after)
        (before ++ Instr.clear :: after)

variable {p : Peephole}

theorem Rewrites.append_left {code other : Code} (first : Code) (h : p.Rewrites code other) :
    p.Rewrites (first ++ code) (first ++ other) := by
  cases h with
  | moves before after a b =>
    simpa only [List.append_assoc] using Rewrites.moves (first ++ before) after a b
  | adjusts before after a b =>
    simpa only [List.append_assoc] using Rewrites.adjusts (first ++ before) after a b
  | zeroIdiom before after h =>
    simpa only [List.append_assoc] using Rewrites.zeroIdiom (first ++ before) after h

theorem rewrites_append_left {code other : Code} (first : Code)
    (h : ReflTransGen p.Rewrites code other) :
    ReflTransGen p.Rewrites (first ++ code) (first ++ other) :=
  h.lift (first ++ ·) fun _ _ => Rewrites.append_left first

/-- A merging scan rewrites, if merging two neighbours does. -/
theorem mergeRuns_rewrites {count? : Instr → Option Int32}
    {merge : Int32 → Int32 → Option Instr}
    (rule : ∀ {i j : Instr} {a b : Int32} (after : Code), count? i = some a → count? j = some b →
      p.Rewrites (i :: j :: after) ((merge a b).toList ++ after))
    (held : Option Instr) (code : Code) :
    ReflTransGen p.Rewrites (held.toList ++ code) (mergeRuns count? merge held code) := by
  induction code generalizing held with
  | nil =>
    rw [List.append_nil]
    exact .refl
  | cons now rest ih =>
    rw [mergeRuns]
    split
    next a b ha hb =>
      obtain ⟨i, rfl, hi⟩ := Option.bind_eq_some_iff.mp ha
      exact .head (rule rest hi hb) (ih (merge a b))
    next => exact rewrites_append_left held.toList (ih (some now))

theorem eq_move_of_moveCount? {i : Instr} {count : Int32} (h : i.moveCount? = some count) :
    i = .move count := by
  cases i with
  | move a =>
    cases Option.some.inj h
    rfl
  | _ => cases h

theorem eq_adjust_of_adjustCount? {i : Instr} {count : Int32} (h : i.adjustCount? = some count) :
    i = .adjust count := by
  cases i with
  | adjust a =>
    cases Option.some.inj h
    rfl
  | _ => cases h

theorem mergeMoves_rewrites (code : Code) : ReflTransGen p.Rewrites code (mergeMoves code) := by
  refine mergeRuns_rewrites (fun {i j a b} after hi hj => ?_) none code
  rw [eq_move_of_moveCount? hi, eq_move_of_moveCount? hj]
  exact .moves [] after a b

theorem mergeAdjusts_rewrites (code : Code) :
    ReflTransGen p.Rewrites code (mergeAdjusts p.wrapCells code) := by
  refine mergeRuns_rewrites (fun {i j a b} after hi hj => ?_) none code
  rw [eq_adjust_of_adjustCount? hi, eq_adjust_of_adjustCount? hj]
  exact .adjusts [] after a b

theorem isZeroIdiom_cases {acceptsIncrement : Bool} {oldest middle now : Option Instr}
    (h : isZeroIdiom acceptsIncrement oldest middle now = true) :
    ∃ step, oldest = some .loopStart ∧ middle = some (.adjust step) ∧ now = some .loopEnd ∧
      isZeroStep acceptsIncrement step = true := by
  unfold isZeroIdiom at h
  split at h
  next step => exact ⟨step, rfl, rfl, rfl, h⟩
  next => cases h

theorem isZeroIdiom_now_none {acceptsIncrement : Bool} (oldest middle : Option Instr) :
    isZeroIdiom acceptsIncrement oldest middle none = false := by
  unfold isZeroIdiom
  split
  next => contradiction
  next => rfl

/-- The window scan rewrites what is in the window together with what is still to come. -/
theorem slideWindow_rewrites (oldest middle : Option Instr) (code : Code) :
    ReflTransGen p.Rewrites (oldest.toList ++ (middle.toList ++ code))
      (slideWindow p.acceptsIncrement oldest middle (code.map some ++ [none, none])) := by
  induction code generalizing oldest middle with
  | nil =>
    simp only [List.map_nil, List.nil_append, slideWindow, isZeroIdiom_now_none,
      Bool.false_eq_true, if_false]
    exact .refl
  | cons now rest ih =>
    rw [List.map_cons, List.cons_append, slideWindow]
    split
    next h =>
      obtain ⟨step, rfl, rfl, hnow, hs⟩ := isZeroIdiom_cases h
      cases Option.some.inj hnow
      exact .head (.zeroIdiom [] rest hs) (rewrites_append_left [Instr.clear] (ih none none))
    next => exact rewrites_append_left oldest.toList (ih middle (some now))

theorem runPass_rewrites (pass : Pass) (code : Code) :
    ReflTransGen p.Rewrites code (p.runPass pass code) := by
  cases pass with
  | moves => exact mergeMoves_rewrites code
  | adjusts => exact mergeAdjusts_rewrites code
  | zeroIdiom => exact slideWindow_rewrites none none code

theorem runPasses_rewrites (passes : List Pass) (code : Code) :
    ReflTransGen p.Rewrites code (p.runPasses passes code).1 := by
  induction passes generalizing code with
  | nil => exact .refl
  | cons pass passes ih => exact (runPass_rewrites pass code).trans (ih _)

/-- Optimised code is reached from the given code by the rules. -/
theorem optimize_rewrites (p : Peephole) (code : Code) :
    ReflTransGen p.Rewrites code (p.optimize code) :=
  runPasses_rewrites p.passes code

end Peephole

end TapeC
