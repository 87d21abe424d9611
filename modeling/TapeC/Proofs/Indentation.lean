import TapeC.CText
import TapeC.Proofs.LoopShape

namespace TapeC

/-- Two steps succeed if the first does and then the second. -/
theorem exists_bind_eq_ok {ε α β : Type} {first : Except ε α} {second : α → Except ε β} :
    (∃ b, (first >>= second) = .ok b) ↔ ∃ a, first = .ok a ∧ ∃ b, second a = .ok b := by
  cases first with
  | error e =>
    constructor
    · rintro ⟨b, h⟩
      cases h
    · rintro ⟨a, h, _⟩
      cases h
  | ok a =>
    constructor
    · intro h
      exact ⟨a, rfl, h⟩
    · rintro ⟨other, h, hb⟩
      cases h
      exact hb

namespace CLayout

variable {layout : CLayout}

theorem renderLine_isOk_iff {line : CLine} :
    (∃ text, layout.renderLine line = .ok text) ↔ layout.width line ≤ maxWidth := by
  simp only [renderLine]
  split
  next wide =>
    constructor
    · rintro ⟨text, h⟩
      cases h
    · intro narrow
      omega
  next narrow => exact ⟨fun _ => by omega, fun _ => ⟨_, rfl⟩⟩

theorem mapM_renderLine_isOk_iff {lines : List CLine} :
    (∃ rendered, lines.mapM layout.renderLine = .ok rendered) ↔
      ∀ line ∈ lines, layout.width line ≤ maxWidth := by
  induction lines with
  | nil => exact ⟨fun _ line h => absurd h List.not_mem_nil, fun _ => ⟨[], rfl⟩⟩
  | cons line lines ih =>
    rw [List.forall_mem_cons, ← ih, ← renderLine_isOk_iff, List.mapM_cons, exists_bind_eq_ok]
    constructor
    · rintro ⟨text, hl, h⟩
      obtain ⟨rendered, hr, _⟩ := exists_bind_eq_ok.mp h
      exact ⟨⟨text, hl⟩, rendered, hr⟩
    · rintro ⟨⟨text, hl⟩, rendered, hr⟩
      exact ⟨text, hl, exists_bind_eq_ok.mpr ⟨rendered, hr, _, rfl⟩⟩

theorem emit_isOk_iff {code : Code} :
    (∃ text, layout.emit code = .ok text) ↔
      ∀ line ∈ layout.lines code, layout.width line ≤ maxWidth := by
  rw [← mapM_renderLine_isOk_iff, emit, exists_bind_eq_ok]
  constructor
  · rintro ⟨rendered, hr, _⟩
    exact ⟨rendered, hr⟩
  · rintro ⟨rendered, hr⟩
    exact ⟨rendered, hr, _, rfl⟩

end CLayout

namespace Code

/-- The depths of the lines of code that starts at a depth. -/
def lineDepths (depth : Int) (code : Code) : List Int := (code.cLines depth).map (·.depth)

/-- A loop end counts before its line, and a loop start behind it. -/
theorem cLines_cons (depth : Int) (i : Instr) (rest : Code) :
    cLines depth (i :: rest) =
      ⟨depth - (if i.isLoopEnd then 1 else 0 : Nat), i.statement⟩ ::
        cLines (depth + (if i.isLoopStart then 1 else 0 : Nat) -
          (if i.isLoopEnd then 1 else 0 : Nat)) rest := by
  cases i with
  | _ => simp [cLines, Instr.isLoopStart, Instr.isLoopEnd]

theorem lineDepths_cons (depth : Int) (i : Instr) (rest : Code) :
    lineDepths depth (i :: rest) =
      (depth - (if i.isLoopEnd then 1 else 0 : Nat)) ::
        lineDepths (depth + (if i.isLoopStart then 1 else 0 : Nat) -
          (if i.isLoopEnd then 1 else 0 : Nat)) rest := by
  rw [lineDepths, cLines_cons]
  rfl

theorem lineDepths_unmarked {i : Instr} (unmarked : i.isLoopMark = false) (depth : Int)
    (rest : Code) : lineDepths depth (i :: rest) = depth :: lineDepths depth rest := by
  cases i with
  | loopStart => cases unmarked
  | loopEnd => cases unmarked
  | _ => rfl

theorem lineDepths_loopStart (depth : Int) (rest : Code) :
    lineDepths depth (.loopStart :: rest) = depth :: lineDepths (depth + 1) rest := rfl

theorem lineDepths_loopEnd (depth : Int) (rest : Code) :
    lineDepths depth (.loopEnd :: rest) = (depth - 1) :: lineDepths (depth - 1) rest := rfl

theorem lineDepths_optimize_subset (p : Peephole) (code : Code) (depth : Int) :
    lineDepths depth (p.optimize code) ⊆ lineDepths depth code := by
  refine p.optimize_related (R := fun code other => ∀ depth,
    lineDepths depth other ⊆ lineDepths depth code) (fun _ _ => List.Subset.refl _)
    (fun h h' depth => List.Subset.trans (h' depth) (h depth)) (fun i {code other} h depth => ?_)
    (fun {i j merged} rest hi hj hm depth => ?_) (fun step rest depth => ?_) code depth
  · rw [lineDepths_cons, lineDepths_cons]
    exact List.cons_subset_cons _ (h _)
  · rw [lineDepths_unmarked (Instr.unmarked_of_isCount hi),
      lineDepths_unmarked (Instr.unmarked_of_isCount hj)]
    cases merged with
    | none => exact fun _ h => List.mem_cons_of_mem _ (List.mem_cons_of_mem _ h)
    | some k =>
      rw [Option.toList_some, List.singleton_append,
        lineDepths_unmarked (Instr.unmarked_of_isCount (hm k rfl))]
      exact List.cons_subset_cons depth (List.subset_cons_self _ _)
  · have back : depth + 1 - 1 = depth := by omega
    have hclear : Instr.clear.isLoopMark = false := rfl
    rw [lineDepths_unmarked hclear, lineDepths_loopStart, lineDepths_unmarked rfl,
      lineDepths_loopEnd, back]
    intro d h
    rcases List.mem_cons.mp h with h | h
    · exact h ▸ List.mem_cons_self
    · exact List.mem_cons_of_mem _ (List.mem_cons_of_mem _ (List.mem_cons_of_mem _ h))

end Code

theorem CLayout.exists_line_of_optimize {layout : CLayout} {p : Peephole} {code : Code} {line : CLine}
    (h : line ∈ layout.lines (p.optimize code)) :
    ∃ other ∈ layout.lines code, other.depth = line.depth := by
  simp only [CLayout.lines, List.mem_append] at h
  rcases h with (h | h) | h
  · exact ⟨line, by simp only [CLayout.lines, List.mem_append]; exact .inl (.inl h), rfl⟩
  · have hd : line.depth ∈ Code.lineDepths 1 (p.optimize code) := List.mem_map_of_mem h
    obtain ⟨other, ho, hd⟩ := List.mem_map.mp (Code.lineDepths_optimize_subset p code 1 hd)
    exact ⟨other, by simp only [CLayout.lines, List.mem_append]; exact .inl (.inr ho), hd⟩
  · exact ⟨line, by simp only [CLayout.lines, List.mem_append]; exact .inr h, rfl⟩

/-- If the text of code can be written, then so can that of its optimised form. -/
theorem CLayout.emit_optimize {layout : CLayout} {code : Code} {text : String}
    (h : layout.emit code = .ok text) (p : Peephole) :
    ∃ optimized, layout.emit (p.optimize code) = .ok optimized := by
  have narrow := CLayout.emit_isOk_iff.mp ⟨text, h⟩
  apply CLayout.emit_isOk_iff.mpr
  intro line hl
  obtain ⟨other, ho, hd⟩ := CLayout.exists_line_of_optimize hl
  have hw := narrow other ho
  rwa [CLayout.width, hd] at hw

end TapeC
