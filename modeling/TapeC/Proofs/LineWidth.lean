import Mathlib.Data.List.Chain
import TapeC.Proofs.Indentation

namespace TapeC

namespace Code

/-- The lines of code are no deeper than its loops, although a loop end that closes nothing counts for
the lines and not for the loops. -/
theorem lineDepths_le {depth : Int} {opened : Nat} (h : depth ≤ 1 + opened) (code : Code) :
    ∀ d ∈ lineDepths depth code, d ≤ 1 + (max opened (loopDepthFrom opened code) : Nat) := by
  induction code generalizing depth opened with
  | nil => exact fun d mem => absurd mem List.not_mem_nil
  | cons i rest ih =>
    intro d mem
    by_cases unmarked : i.isLoopMark = false
    · rw [lineDepths_unmarked unmarked] at mem
      rw [loopDepthFrom_unmarked unmarked]
      rcases List.mem_cons.mp mem with rfl | mem
      · omega
      · exact ih h d mem
    · cases i with
      | loopStart =>
        rw [lineDepths_loopStart] at mem
        have deeper : depth + 1 ≤ 1 + ((opened + 1 : Nat) : Int) := by omega
        simp only [loopDepthFrom]
        rcases List.mem_cons.mp mem with rfl | mem
        · omega
        · have := ih deeper d mem
          omega
      | loopEnd =>
        rw [lineDepths_loopEnd] at mem
        have shallower : depth - 1 ≤ 1 + ((opened - 1 : Nat) : Int) := by omega
        simp only [loopDepthFrom]
        rcases List.mem_cons.mp mem with rfl | mem
        · omega
        · have := ih shallower d mem
          omega
      | _ => exact absurd rfl unmarked

/-- The first line of code that starts at a depth is not below that depth. -/
theorem head?_lineDepths_le {depth d : Int} {code : Code} (h : d ∈ (lineDepths depth code).head?) :
    d ≤ depth := by
  cases code with
  | nil => cases h
  | cons i rest =>
    rw [lineDepths_cons] at h
    cases h
    omega

/-- Whether a line may stand at a depth behind a line at another: at most one level below it, or no
deeper than the declarations. -/
def Descends (before after : Int) : Prop := after ≤ 1 ∨ after ≤ before + 1

theorem isChain_lineDepths (depth : Int) (code : Code) : (lineDepths depth code).IsChain Descends := by
  induction code generalizing depth with
  | nil => exact .nil
  | cons i rest ih =>
    rw [lineDepths_cons]
    refine (ih _).cons fun d mem => .inr ?_
    have first := head?_lineDepths_le mem
    have opens : (if i.isLoopStart then 1 else 0 : Nat) ≤ 1 := by split <;> omega
    omega

end Code

namespace CLayout

/-- Renders lines one after the other, as emission does, with nothing as the result as soon as the product
of a depth and the indentation does not fit 64 bits. -/
def renderChecked (layout : CLayout) : List CLine → Option (Except TooWide (List String))
  | [] => some (.ok [])
  | line :: lines =>
    if layout.width line < UInt64.size then
      match layout.renderLine line with
      | .error wide => some (.error wide)
      | .ok text => (layout.renderChecked lines).map fun rendered => rendered.map (text :: ·)
    else none

/-- Emission with every product checked. -/
def emitChecked (layout : CLayout) (code : Code) : Option (Except TooWide String) :=
  (layout.renderChecked (layout.lines code)).map fun rendered => rendered.map String.join

variable {layout : CLayout} {code : Code}

theorem depths_lines (layout : CLayout) (code : Code) :
    (layout.lines code).map (·.depth) = [0, 0, 0, 0, 1, 1] ++ code.lineDepths 1 ++ [1, 0] := by
  simp only [lines, List.map_append, Code.lineDepths]
  rfl

theorem depth_le_of_mem_lines {line : CLine} (h : line ∈ layout.lines code) :
    line.depth ≤ 1 + (code.loopDepth : Int) := by
  have mem : line.depth ∈ (layout.lines code).map (·.depth) := List.mem_map_of_mem h
  rw [depths_lines] at mem
  simp only [List.mem_append, List.mem_cons, List.not_mem_nil, or_false] at mem
  rcases mem with (frame | body) | frame
  · omega
  · have outside : (1 : Int) ≤ 1 + ((0 : Nat) : Int) := by omega
    have := Code.lineDepths_le outside code _ body
    unfold Code.loopDepth
    omega
  · omega

theorem emit_of_loopDepth (h : (1 + code.loopDepth) * layout.indentWidth ≤ maxWidth) :
    ∃ text, layout.emit code = .ok text := by
  rw [emit_isOk_iff]
  intro line mem
  have deepest := depth_le_of_mem_lines mem
  have levels : line.depth.toNat ≤ 1 + code.loopDepth := by omega
  exact Nat.le_trans (Nat.mul_le_mul_right layout.indentWidth levels) h

theorem isChain_lines (layout : CLayout) (code : Code) :
    (layout.lines code).IsChain fun before after => Code.Descends before.depth after.depth := by
  have chain : ((layout.lines code).map (·.depth)).IsChain Code.Descends := by
    rw [depths_lines, List.append_assoc]
    have body := Code.isChain_lineDepths 1 code
    have ending : List.IsChain Code.Descends [(1 : Int), 0] := by simp [Code.Descends]
    have opening : List.IsChain Code.Descends [(0 : Int), 0, 0, 0, 1, 1] := by simp [Code.Descends]
    -- Neither the code nor the closing lines begin below the declarations.
    refine opening.append (body.append ending fun _ _ d mem => .inl ?_) fun _ _ d mem => .inl ?_
    · cases mem
      omega
    · cases hc : code.lineDepths 1 with
      | nil =>
        rw [hc] at mem
        cases mem
        omega
      | cons first rest =>
        have first_mem : first ∈ (code.lineDepths 1).head? := by rw [hc]; rfl
        have first_le := Code.head?_lineDepths_le first_mem
        rw [hc] at mem
        cases mem
        exact first_le
  exact (List.isChain_map _).mp chain

/-- Behind a line that is not too wide comes no line whose width leaves 64 bits. -/
theorem width_lt_of_descends (word : layout.indentWidth < UInt64.size) {before after : CLine}
    (narrow : layout.width before ≤ maxWidth) (h : Code.Descends before.depth after.depth) :
    layout.width after < UInt64.size := by
  by_cases shallow : after.depth ≤ 1
  · have levels : after.depth.toNat ≤ 1 := by omega
    have := Nat.mul_le_mul_right layout.indentWidth levels
    unfold width
    omega
  · have close : after.depth ≤ before.depth + 1 := h.resolve_left shallow
    have levels : after.depth.toNat ≤ before.depth.toNat + 1 := by omega
    have some_level : 1 ≤ before.depth.toNat := by omega
    have wider := Nat.mul_le_mul_right layout.indentWidth levels
    have one_level := Nat.mul_le_mul_right layout.indentWidth some_level
    rw [Nat.succ_mul] at wider
    unfold width maxWidth at *
    unfold UInt64.size
    omega

theorem renderChecked_eq_mapM (word : layout.indentWidth < UInt64.size) {lines : List CLine}
    (chain : lines.IsChain fun before after => Code.Descends before.depth after.depth)
    (first : ∀ line ∈ lines.head?, layout.width line < UInt64.size) :
    layout.renderChecked lines = some (lines.mapM layout.renderLine) := by
  induction lines with
  | nil => rfl
  | cons line lines ih =>
    rw [renderChecked, if_pos (first line rfl), List.mapM_cons]
    cases hr : layout.renderLine line with
    | error wide => rfl
    | ok text =>
      have narrow : layout.width line ≤ maxWidth := renderLine_isOk_iff.mp ⟨text, hr⟩
      have next : ∀ line ∈ lines.head?, layout.width line < UInt64.size := fun after mem =>
        width_lt_of_descends word narrow (chain.rel_head? mem)
      simp only [ih chain.tail next, Option.map_some]
      cases lines.mapM layout.renderLine with
      | error wide => rfl
      | ok rendered => rfl

theorem emitChecked_eq_emit (word : layout.indentWidth < UInt64.size) (code : Code) :
    layout.emitChecked code = some (layout.emit code) := by
  have first : ∀ line ∈ (layout.lines code).head?, layout.width line < UInt64.size := by
    intro line mem
    cases mem
    simp [width, UInt64.size]
  rw [emitChecked, renderChecked_eq_mapM word (layout.isChain_lines code) first, emit]
  cases (layout.lines code).mapM layout.renderLine with
  | error wide => rfl
  | ok rendered => rfl

end CLayout

/-- Emission fails exactly if a line is too wide. It succeeds if the indentation of one level below the
deepest loop is not too wide, whether or not the loops pair up; where it fails, the width that is too
large still fits 64 bits, as do all widths before it; and it succeeds on optimised code if it does on
the code given. -/
theorem emit_within_width (layout : CLayout) (word : layout.indentWidth < UInt64.size) (code : Code) :
    ((∃ text, layout.emit code = .ok text) ↔
      ∀ line ∈ layout.lines code, layout.width line ≤ CLayout.maxWidth) ∧
    ((1 + code.loopDepth) * layout.indentWidth ≤ CLayout.maxWidth →
      ∃ text, layout.emit code = .ok text) ∧
    layout.emitChecked code = some (layout.emit code) ∧
    ((∃ text, layout.emit code = .ok text) →
      ∀ p : Peephole, ∃ text, layout.emit (p.optimize code) = .ok text) := by
  refine ⟨CLayout.emit_isOk_iff, CLayout.emit_of_loopDepth, CLayout.emitChecked_eq_emit word code, ?_⟩
  rintro ⟨text, h⟩ p
  exact CLayout.emit_optimize h p

/-- Loops that do not pair up, at the widest indentation that their nesting admits. -/
theorem emit_within_width_unpaired :
    let layout : CLayout := ⟨1, 21845⟩
    let code : Code := [.loopEnd, .loopStart, .loopStart, .adjust 2, .adjust (-3), .loopEnd, .output]
    layout.indentWidth < UInt64.size ∧ code.loopDepth = 2 ∧
      (1 + code.loopDepth) * layout.indentWidth ≤ CLayout.maxWidth ∧
      (∃ text, layout.emit code = .ok text) ∧
      ∀ p : Peephole, ∃ text, layout.emit (p.optimize code) = .ok text := by
  intro layout code
  have word : layout.indentWidth < UInt64.size := by decide
  have room : (1 + code.loopDepth) * layout.indentWidth ≤ CLayout.maxWidth := by decide
  obtain ⟨_, enough, _, optimized⟩ := emit_within_width layout word code
  exact ⟨word, rfl, room, enough room, optimized (enough room)⟩

end TapeC
