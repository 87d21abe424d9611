import TapeC.Proofs.Merging

namespace TapeC

open Relation (ReflTransGen)

/-- Whether an instruction is one that the standard passes leave. -/
def Instr.Tidy (wrapCells : Bool) : Instr → Prop
  | .move count => count ≠ 0
  | .adjust count => count ≠ 0 ∧ (wrapCells = true → -128 ≤ count ∧ count ≤ 127)
  | .assign value offset => Instr.assign value offset = .clear
  | _ => True

def Code.Tidy (wrapCells : Bool) (code : Code) : Prop := ∀ i ∈ code, i.Tidy wrapCells

instance (wrapCells : Bool) : DecidablePred (Instr.Tidy wrapCells)
  | .move _ => inferInstanceAs (Decidable (_ ≠ _))
  | .adjust _ => inferInstanceAs (Decidable (_ ∧ (_ → _)))
  | .assign _ _ => inferInstanceAs (Decidable (_ = _))
  | .output | .input | .loopStart | .loopEnd => inferInstanceAs (Decidable True)

instance (wrapCells : Bool) : DecidablePred (Code.Tidy wrapCells) :=
  fun code => inferInstanceAs (Decidable (∀ i ∈ code, i.Tidy wrapCells))

namespace Instr

/-- Spells out a move, and leaves any other instruction. -/
abbrev spellMoves : Instr → Code := expandIf fun i => i.moveCount?.isSome

abbrev spellAdjusts : Instr → Code := expandIf fun i => i.adjustCount?.isSome

abbrev spellAssigns : Instr → Code := expandIf isSynthetic

end Instr

section Tidiness

variable {wrapCells : Bool}

theorem Instr.Tidy.weaken {i : Instr} (h : i.Tidy true) : i.Tidy wrapCells := by
  cases i with
  | adjust count => exact ⟨h.1, fun _ => h.2 rfl⟩
  | _ => exact h

theorem Instr.Tidy.eq_clear {i : Instr} (h : i.Tidy wrapCells) (hs : i.isSynthetic = true) :
    i = .clear := by
  cases i with
  | assign value offset => exact h
  | _ => cases hs

/-- What a command character stands for is spelt by it, and tidy. -/
theorem Instr.unit_of_ofChar? {c : Char} {i : Instr} (h : Instr.ofChar? c = some i) :
    i.units = [i] ∧ i.Tidy true := by
  unfold Instr.ofChar? at h
  split at h
  all_goals cases h
  all_goals exact ⟨by decide, by simp [Instr.Tidy]⟩

theorem Instr.unit_of_mem_units {i j : Instr} (h : j ∈ i.units) : j.units = [j] ∧ j.Tidy true := by
  obtain ⟨c, _, hc⟩ := List.mem_filterMap.mp h
  exact unit_of_ofChar? hc

theorem Code.tidy_ofSource (source : String) : (Code.ofSource source).Tidy wrapCells := by
  intro i hi
  obtain ⟨c, _, hc⟩ := List.mem_filterMap.mp hi
  exact (Instr.unit_of_ofChar? hc).2.weaken

theorem Code.Tidy.expand {code : Code} (h : code.Tidy wrapCells) (select : Instr → Bool) :
    Code.Tidy wrapCells (code.flatMap (Instr.expandIf select)) := by
  intro j hj
  obtain ⟨i, hi, hj⟩ := List.mem_flatMap.mp hj
  unfold Instr.expandIf at hj
  split at hj
  next => exact (Instr.unit_of_mem_units hj).2.weaken
  next =>
    rw [List.mem_singleton.mp hj]
    exact h i hi

theorem Code.tidy_append {first second : Code} :
    Code.Tidy wrapCells (first ++ second) ↔ first.Tidy wrapCells ∧ second.Tidy wrapCells :=
  List.forall_mem_append

theorem Code.tidy_cons {i : Instr} {rest : Code} :
    Code.Tidy wrapCells (i :: rest) ↔ i.Tidy wrapCells ∧ rest.Tidy wrapCells :=
  List.forall_mem_cons

end Tidiness

namespace Peephole

variable {p : Peephole} {code other : Code}

theorem tidy_adjust? (a b : Int32) :
    Code.Tidy p.wrapCells (Instr.adjust? (p.sumAdjusts a b)).toList := by
  intro i hi
  have hm := Option.mem_toList.mp hi
  unfold Instr.adjust? at hm
  split at hm
  next => cases hm
  next nonzero =>
    cases hm
    refine ⟨nonzero, fun wraps => wrapCell_eq_self_iff.mp ?_⟩
    have idem := wrapCell_add (a + b) 0
    rw [Int32.add_zero, Int32.add_zero] at idem
    simp only [sumAdjusts, wraps, if_true, idem]

theorem tidy_move? (count : Int32) : Code.Tidy p.wrapCells (Instr.move? count).toList := by
  intro i hi
  have hm := Option.mem_toList.mp hi
  unfold Instr.move? at hm
  split at hm
  next => cases hm
  next nonzero =>
    cases hm
    exact nonzero

theorem Rewrites.tidy (h : p.Rewrites code other) (ht : code.Tidy p.wrapCells) :
    other.Tidy p.wrapCells := by
  cases h with
  | moves before after a b =>
    simp only [Code.tidy_append, Code.tidy_cons] at ht ⊢
    exact ⟨ht.1, tidy_move? (a + b), ht.2.2.2⟩
  | adjusts before after a b =>
    simp only [Code.tidy_append, Code.tidy_cons] at ht ⊢
    exact ⟨ht.1, tidy_adjust? a b, ht.2.2.2⟩
  | zeroIdiom before after h =>
    simp only [Code.tidy_append, Code.tidy_cons] at ht ⊢
    exact ⟨ht.1, rfl, ht.2.2.2.2⟩

theorem tidy_of_rewrites (h : ReflTransGen p.Rewrites code other) (ht : code.Tidy p.wrapCells) :
    other.Tidy p.wrapCells := by
  induction h with
  | refl => exact ht
  | tail _ hr ih => exact hr.tidy ih

section ZeroIdiom

variable {acceptsIncrement wrapCells : Bool}

theorem collapseZeroIdiom_idiom {step : Int32} (h : isZeroStep acceptsIncrement step = true)
    (rest : Code) :
    collapseZeroIdiom acceptsIncrement (.loopStart :: .adjust step :: .loopEnd :: rest) =
      .clear :: collapseZeroIdiom acceptsIncrement rest := by
  simp [collapseZeroIdiom, slideWindow, isZeroIdiom, h]

theorem collapseZeroIdiom_cons {i : Instr} {rest : Code}
    (h : isZeroIdiom acceptsIncrement (some i) rest[0]? rest[1]? = false) :
    collapseZeroIdiom acceptsIncrement (i :: rest) =
      i :: collapseZeroIdiom acceptsIncrement rest := by
  have first : ∀ middle now, isZeroIdiom acceptsIncrement none middle now = false :=
    fun _ _ => rfl
  -- Behind short code the window holds empty places.
  match rest with
  | [] => simp [collapseZeroIdiom, slideWindow, first, isZeroIdiom_now_none]
  | [j] => simp [collapseZeroIdiom, slideWindow, first, isZeroIdiom_now_none]
  | j :: k :: more =>
    have window : isZeroIdiom acceptsIncrement (some i) (some j) (some k) = false := h
    simp [collapseZeroIdiom, slideWindow, first, window]

theorem eq_of_isZeroIdiom {i : Instr} {rest : Code}
    (h : isZeroIdiom acceptsIncrement (some i) rest[0]? rest[1]? = true) :
    ∃ step more, i = .loopStart ∧ rest = .adjust step :: .loopEnd :: more ∧
      isZeroStep acceptsIncrement step = true := by
  obtain ⟨step, hstart, hstep, hend, hz⟩ := isZeroIdiom_cases h
  cases rest with
  | nil => cases hstep
  | cons j rest =>
    cases rest with
    | nil => cases hend
    | cons k more =>
      cases hstart
      cases hstep
      cases hend
      exact ⟨step, more, rfl, rfl, hz⟩

/-- The spelling of a clear begins with a bracket, so what begins otherwise was there before. -/
theorem eq_cons_of_expand_eq_cons {j : Instr} {more : Code}
    (ht : code.Tidy wrapCells)
    (h : code.flatMap Instr.spellAssigns = j :: more) (hj : j ≠ .loopStart) :
    ∃ rest, code = j :: rest ∧ rest.flatMap Instr.spellAssigns = more := by
  cases code with
  | nil => cases h
  | cons i rest =>
    rw [List.flatMap_cons] at h
    cases hs : i.isSynthetic with
    | true =>
      rw [(ht i List.mem_cons_self).eq_clear hs] at h
      exact absurd (List.cons.inj h).1.symm hj
    | false =>
      have same : Instr.spellAssigns i = [i] := by simp [Instr.expandIf, hs]
      rw [same] at h
      obtain ⟨rfl, hrest⟩ := List.cons.inj h
      exact ⟨rest, rfl, hrest⟩

theorem isZeroIdiom_of_expand {i : Instr}
    (ht : code.Tidy wrapCells)
    (h : isZeroIdiom acceptsIncrement (some i)
      (code.flatMap Instr.spellAssigns)[0]?
      (code.flatMap Instr.spellAssigns)[1]? = true) :
    isZeroIdiom acceptsIncrement (some i) code[0]? code[1]? = true := by
  obtain ⟨step, more, rfl, spelt, hz⟩ := eq_of_isZeroIdiom h
  obtain ⟨rest, rfl, hrest⟩ := eq_cons_of_expand_eq_cons ht spelt (by simp)
  have later := (Code.tidy_cons.mp ht).2
  obtain ⟨last, rfl, _⟩ := eq_cons_of_expand_eq_cons later hrest (by simp)
  exact hz

/-- A clear is found again in its spelling. -/
theorem collapseZeroIdiom_spellAssigns (ht : code.Tidy wrapCells) :
    collapseZeroIdiom acceptsIncrement (code.flatMap Instr.spellAssigns) =
      collapseZeroIdiom acceptsIncrement code := by
  -- On the length, since an idiom takes three instructions at once.
  induction hn : code.length using Nat.strongRecOn generalizing code with
  | ind n ih =>
    cases code with
    | nil => rfl
    | cons i rest =>
      obtain ⟨hi, later⟩ := Code.tidy_cons.mp ht
      have hrest := ih rest.length (by simp [← hn]) later rfl
      rw [List.flatMap_cons]
      cases hs : i.isSynthetic with
      | true =>
        rw [hi.eq_clear hs, collapseZeroIdiom_cons rfl, ← hrest]
        exact collapseZeroIdiom_idiom (by simp [isZeroStep]) _
      | false =>
        have same : Instr.spellAssigns i = [i] := by simp [Instr.expandIf, hs]
        rw [same, List.singleton_append]
        cases hw : isZeroIdiom acceptsIncrement (some i) rest[0]? rest[1]? with
        | false =>
          rw [collapseZeroIdiom_cons hw, collapseZeroIdiom_cons, hrest]
          exact Bool.eq_false_iff.mpr fun h => by simp [isZeroIdiom_of_expand later h] at hw
        | true =>
          obtain ⟨step, more, rfl, rfl, hz⟩ := eq_of_isZeroIdiom hw
          have last := (Code.tidy_cons.mp (Code.tidy_cons.mp later).2).2
          have hmore := ih more.length (by simp [← hn]; omega) last rfl
          rw [collapseZeroIdiom_idiom hz, ← hmore]
          exact collapseZeroIdiom_idiom hz _

end ZeroIdiom

section Stages

/-- A step by one is spelt by itself. -/
theorem flatMap_expandIf_units (select : Instr → Bool) {part : Code}
    (h : ∀ i ∈ part, i.units = [i]) : part.flatMap (Instr.expandIf select) = part := by
  induction part with
  | nil => rfl
  | cons i part ih =>
    have same : Instr.expandIf select i = [i] := by
      simp [Instr.expandIf, h i List.mem_cons_self]
    rw [List.flatMap_cons, same, ih fun j hj => h j (List.mem_cons_of_mem i hj)]
    rfl

/-- An instruction is spelt out by spelling assignments, then adjustments, then moves. -/
theorem units_eq_stages (i : Instr) :
    i.units = ((Instr.spellAssigns i).flatMap Instr.spellAdjusts).flatMap Instr.spellMoves := by
  have fixed : ∀ select, i.units.flatMap (Instr.expandIf select) = i.units := fun select =>
    flatMap_expandIf_units select fun _ hj => (Instr.unit_of_mem_units hj).1
  cases i with
  | move count => simp [Instr.expandIf, Instr.isSynthetic, Instr.adjustCount?, Instr.moveCount?]
  | adjust count =>
    have spelt : (Instr.spellAssigns (.adjust count)).flatMap Instr.spellAdjusts =
        (Instr.adjust count).units := by
      simp [Instr.expandIf, Instr.isSynthetic, Instr.adjustCount?]
    rw [spelt, fixed]
  | assign value offset =>
    have spelt : Instr.spellAssigns (.assign value offset) =
        (Instr.assign value offset).units := rfl
    rw [spelt, fixed, fixed]
  | _ => rfl

theorem flatMap_units_eq_stages (code : Code) :
    code.flatMap Instr.units =
      ((code.flatMap Instr.spellAssigns).flatMap Instr.spellAdjusts).flatMap Instr.spellMoves := by
  rw [List.flatMap_assoc, List.flatMap_assoc]
  congr 1
  funext i
  rw [units_eq_stages, List.flatMap_assoc]

theorem inert_expandIf {count? : Instr → Option Int32} {merge : Int32 → Int32 → Option Instr}
    {select : Instr → Bool} {i : Instr} (hi : count? i = none)
    (spelt : select i = true → Inert count? merge i.units) :
    Inert count? merge (Instr.expandIf select i) := by
  unfold Instr.expandIf
  split
  next h => exact spelt h
  next => exact inert_of_uncounted (List.cons_ne_nil i []) (by simpa using hi)

variable {wrapCells : Bool}

theorem mergeMoves_spellMoves (ht : code.Tidy wrapCells) :
    mergeMoves (code.flatMap Instr.spellMoves) = mergeMoves code := by
  refine movesCounting.mergeRuns_expand Instr.units_move (fun i hi a ha => ?_) none
  cases eq_move_of_moveCount? ha
  exact ⟨ht _ hi, rfl⟩

theorem mergeMoves_spellAdjusts (ht : code.Tidy wrapCells) :
    mergeMoves (code.flatMap Instr.spellAdjusts) =
      (mergeMoves code).flatMap Instr.spellAdjusts := by
  refine movesCounting.mergeRuns_flatMap (fun {i a} hi => ?_) none fun i hi hnone =>
    inert_expandIf hnone fun hs => ?_
  · cases eq_move_of_moveCount? hi
    rfl
  · obtain ⟨a, ha⟩ := Option.isSome_iff_exists.mp hs
    cases eq_adjust_of_adjustCount? ha
    have nonzero : a.toInt ≠ 0 := fun h => (ht _ hi).1 (Int32.toInt_inj.mp h)
    rw [Instr.units_adjust]
    refine inert_of_uncounted (by simpa using nonzero) fun j hj => ?_
    rw [List.eq_of_mem_replicate hj]
    rfl

theorem mergeMoves_spellAssigns (ht : code.Tidy wrapCells) :
    mergeMoves (code.flatMap Instr.spellAssigns) =
      (mergeMoves code).flatMap Instr.spellAssigns := by
  refine movesCounting.mergeRuns_flatMap (fun {i a} hi => ?_) none fun i hi hnone =>
    inert_expandIf hnone fun hs => ?_
  · cases eq_move_of_moveCount? hi
    rfl
  · rw [(ht i hi).eq_clear hs]
    exact inert_of_uncounted (by decide) (by decide)

theorem mergeAdjusts_spellAdjusts (ht : code.Tidy wrapCells) :
    mergeAdjusts wrapCells (code.flatMap Instr.spellAdjusts) = mergeAdjusts wrapCells code := by
  refine (adjustsCounting wrapCells).mergeRuns_expand Instr.units_adjust (fun i hi a ha => ?_) none
  cases eq_adjust_of_adjustCount? ha
  obtain ⟨nonzero, inByte⟩ := ht _ hi
  refine ⟨nonzero, ?_⟩
  cases wrapCells with
  | true => exact wrapCell_eq_self_iff.mpr (inByte rfl)
  | false => rfl

theorem mergeAdjusts_spellAssigns (ht : code.Tidy wrapCells) :
    mergeAdjusts wrapCells (code.flatMap Instr.spellAssigns) =
      (mergeAdjusts wrapCells code).flatMap Instr.spellAssigns := by
  refine (adjustsCounting wrapCells).mergeRuns_flatMap (fun {i a} hi => ?_) none fun i hi hnone =>
    inert_expandIf hnone fun hs => ?_
  · cases eq_adjust_of_adjustCount? hi
    rfl
  · rw [(ht i hi).eq_clear hs]
    -- The step inside the brackets has no neighbour to merge with.
    refine ⟨⟨.loopStart, [.adjust (-1), .loopEnd], rfl, rfl⟩, fun rest => ?_⟩
    have spelt : Instr.clear.units ++ rest = .loopStart :: .adjust (-1) :: .loopEnd :: rest := rfl
    rw [spelt, mergeRuns_uncounted rfl, mergeRuns_before_uncounted rfl, mergeRuns_uncounted rfl]
    rfl

end Stages

theorem optimize_standard (standard : p.passes = Pass.standard) (code : Code) :
    p.optimize code =
      collapseZeroIdiom p.acceptsIncrement (mergeAdjusts p.wrapCells (mergeMoves code)) := by
  rw [optimize, optimizeWithTally, standard]
  rfl

end Peephole

open Peephole

/-- The standard passes make of the text of tidy code what they make of the code, and what they make
of any text is tidy. -/
theorem optimize_written_code (p : Peephole) (standard : p.passes = Pass.standard) :
    (∀ code : Code, code.Tidy p.wrapCells →
      p.optimize (.ofSource code.toSource) = p.optimize code) ∧
    ∀ source : String, (Peephole.optimize {} (.ofSource source)).Tidy p.wrapCells := by
  constructor
  · intro code ht
    have hmoves : (mergeMoves code).Tidy p.wrapCells :=
      tidy_of_rewrites (mergeMoves_rewrites code) ht
    have hadjusts : (mergeAdjusts p.wrapCells (mergeMoves code)).Tidy p.wrapCells :=
      tidy_of_rewrites (mergeAdjusts_rewrites _) hmoves
    rw [optimize_standard standard, optimize_standard standard, Code.ofSource_toSource,
      flatMap_units_eq_stages, mergeMoves_spellMoves ((ht.expand _).expand _),
      mergeMoves_spellAdjusts (ht.expand _), mergeMoves_spellAssigns ht,
      mergeAdjusts_spellAdjusts (hmoves.expand _), mergeAdjusts_spellAssigns hmoves,
      collapseZeroIdiom_spellAssigns hadjusts]
  · intro source i hi
    have ht : (Peephole.optimize {} (.ofSource source)).Tidy true :=
      tidy_of_rewrites (optimize_rewrites {} _) (Code.tidy_ofSource source)
    exact (ht i hi).weaken

/-- Runs that cancel, also by wrapping, beside brackets and a clear. -/
theorem optimize_written_code_cancelling :
    let p : Peephole := { acceptsIncrement := true }
    let code : Code := [.move 2, .loopStart, .adjust (-128), .adjust 127, .loopEnd, .move (-2),
      .clear, .adjust (-128), .move 3, .move (-3), .adjust (-128), .clear, .loopStart, .adjust 1,
      .loopEnd, .adjust 100, .adjust 100]
    code.Tidy p.wrapCells ∧
      p.optimize (.ofSource code.toSource) =
        [.move 2, .clear, .move (-2), .clear, .clear, .clear, .adjust (-56)] := by
  intro p code
  have tidy : code.Tidy p.wrapCells := by decide
  have optimized : p.optimize code =
      [.move 2, .clear, .move (-2), .clear, .clear, .clear, .adjust (-56)] := by decide
  have same := (optimize_written_code p rfl).1 code tidy
  exact ⟨tidy, same.trans optimized⟩

end TapeC
