import Mathlib.Algebra.Ring.Int.Defs
import TapeC.Source

namespace TapeC

/-- The characters that stand for instructions. -/
def commandChars : List Char := ['>', '<', '+', '-', '.', ',', '[', ']']

/-- The value of an assignment. -/
def Instr.value? : Instr → Option Int32
  | assign value _ => some value
  | _ => none

/-- Whether an instruction walks to a cell and not back. -/
def Instr.isStranded : Instr → Bool
  | assign _ (some offset) => offset == Int32.minValue
  | _ => false

/-- By how many one character outnumbers another one in a text. -/
def tilt (up down : Char) (text : List Char) : Int := text.count up - text.count down

theorem tilt_append (up down : Char) (first second : List Char) :
    tilt up down (first ++ second) = tilt up down first + tilt up down second := by
  unfold tilt
  rw [List.count_append, List.count_append]
  omega

theorem count_strokes_of_ne {c up down : Char} (hup : c ≠ up) (hdown : c ≠ down) (count : Int32) :
    (strokes count up down).count c = 0 := by
  apply List.count_eq_zero_of_not_mem
  intro mem
  have same := List.eq_of_mem_replicate mem
  split at same
  next => exact hup same
  next => exact hdown same

/-- Strokes outnumber each other by the count that they write. -/
theorem tilt_strokes {up down : Char} (h : up ≠ down) (count : Int32) :
    tilt up down (strokes count up down) = count.toInt := by
  have sign := @Int32.le_iff_toInt_le 0 count
  rw [Int32.toInt_zero] at sign
  unfold tilt strokes
  split
  next nonneg =>
    have := sign.mp nonneg
    rw [List.count_replicate_self, List.count_replicate, if_neg (by simpa using h)]
    omega
  next negative =>
    have := mt sign.mpr negative
    rw [List.count_replicate_self, List.count_replicate, if_neg (by simpa using h.symm)]
    omega

theorem tilt_strokes_of_ne {c d up down : Char} (hc : c ≠ up ∧ c ≠ down) (hd : d ≠ up ∧ d ≠ down)
    (count : Int32) : tilt c d (strokes count up down) = 0 := by
  unfold tilt
  rw [count_strokes_of_ne hc.1 hc.2, count_strokes_of_ne hd.1 hd.2]
  rfl

/-- A walk and the walk by the opposite offset cancel, but for the least offset. -/
theorem toInt_add_toInt_neg (offset : Int32) :
    offset.toInt + (-offset).toInt = if offset = Int32.minValue then -4294967296 else 0 := by
  split
  next least =>
    rw [least]
    decide
  next other =>
    have lower := offset.le_toInt
    have upper := offset.toInt_lt
    have apart : offset.toInt ≠ Int32.minValue.toInt := mt Int32.toInt_inj.mp other
    rw [Int32.toInt_minValue] at apart
    rw [Int32.toInt_neg, Int.bmod_eq_of_le] <;> omega

/-! ### Instructions -/

namespace Instr

theorem mem_commandChars_of_mem_symbols {i : Instr} {c : Char} (mem : c ∈ i.symbols) :
    c ∈ commandChars := by
  have stroke : ∀ {count up down}, up ∈ commandChars → down ∈ commandChars →
      c ∈ strokes count up down → c ∈ commandChars := by
    intro count up down hup hdown mem
    rw [List.eq_of_mem_replicate mem]
    split <;> assumption
  have walk : ∀ {count}, c ∈ strokes count '>' '<' → c ∈ commandChars := stroke (by decide) (by decide)
  have steps : ∀ {count}, c ∈ strokes count '+' '-' → c ∈ commandChars := stroke (by decide) (by decide)
  cases i with
  | move count => exact walk mem
  | adjust count => exact steps mem
  | assign value offset =>
    simp only [symbols, List.mem_append] at mem
    rcases mem with ((mem | mem) | mem) | mem
    · exact walk mem
    · exact (by decide : ['[', '-', ']'] ⊆ commandChars) mem
    · exact steps mem
    · exact walk mem
  | _ =>
    cases List.mem_singleton.mp mem
    decide

/-- The walks of an instruction, to the right. -/
theorem tilt_walks (i : Instr) :
    tilt '>' '<' i.symbols =
      (i.moveCount?.map Int32.toInt).getD 0 - if i.isStranded then 4294967296 else 0 := by
  have aside : ∀ count, tilt '>' '<' (strokes count '+' '-') = 0 :=
    tilt_strokes_of_ne (by decide) (by decide)
  have along : ∀ count, tilt '>' '<' (strokes count '>' '<') = count.toInt := tilt_strokes (by decide)
  cases i with
  | move count => simp [symbols, along, moveCount?, isStranded]
  | adjust count => simp [symbols, aside, moveCount?, isStranded]
  | assign value offset =>
    have middle : tilt '>' '<' ['[', '-', ']'] = 0 := by decide
    have back := toInt_add_toInt_neg (offset.getD 0)
    simp only [symbols, tilt_append, along, aside, middle, moveCount?, Option.map_none, Option.getD_none]
    cases offset with
    | none => simp [isStranded]
    | some offset =>
      simp only [Option.getD_some, isStranded, beq_iff_eq] at back ⊢
      split
      next least =>
        rw [if_pos least] at back
        omega
      next other =>
        rw [if_neg other] at back
        omega
  | _ => decide

/-- The steps of an instruction, upwards. The loop that clears a cell has one step down. -/
theorem tilt_steps (i : Instr) :
    tilt '+' '-' i.symbols =
      (i.adjustCount?.map Int32.toInt).getD 0 + (i.value?.map fun value => value.toInt - 1).getD 0 := by
  have aside : ∀ count, tilt '+' '-' (strokes count '>' '<') = 0 :=
    tilt_strokes_of_ne (by decide) (by decide)
  have along : ∀ count, tilt '+' '-' (strokes count '+' '-') = count.toInt := tilt_strokes (by decide)
  cases i with
  | move count => simp [symbols, aside, adjustCount?, value?]
  | adjust count => simp [symbols, along, adjustCount?, value?]
  | assign value offset =>
    have middle : tilt '+' '-' ['[', '-', ']'] = -1 := by decide
    simp only [symbols, tilt_append, along, aside, middle, adjustCount?, value?, Option.map_none,
      Option.getD_none, Option.map_some, Option.getD_some]
    omega
  | _ => decide

/-- The characters of an instruction that are no strokes. -/
def marks : Instr → List Char
  | move _ => []
  | adjust _ => []
  | output => ['.']
  | input => [',']
  | loopStart => ['[']
  | loopEnd => [']']
  | assign _ _ => ['[', ']']

theorem count_symbols {c : Char} (h : c ∉ ['>', '<', '+', '-']) (i : Instr) :
    i.symbols.count c = i.marks.count c := by
  have apart : c ≠ '>' ∧ c ≠ '<' ∧ c ≠ '+' ∧ c ≠ '-' := by simpa using h
  obtain ⟨right, left, up, down⟩ := apart
  cases i with
  | move count => exact count_strokes_of_ne right left count
  | adjust count => exact count_strokes_of_ne up down count
  | assign value offset =>
    have middle : ['[', '-', ']'].count c = ['[', ']'].count c := by
      rw [List.count_cons, List.count_cons_of_ne (Ne.symm down), ← List.count_cons]
    simp only [symbols, List.count_append, count_strokes_of_ne right left, count_strokes_of_ne up down,
      middle, marks, Nat.zero_add, Nat.add_zero]
  | _ => rfl

end Instr

/-! ### Code -/

namespace Code

theorem symbols_cons (i : Instr) (rest : Code) : symbols (i :: rest) = i.symbols ++ symbols rest :=
  List.flatMap_cons

theorem sum_filterMap_cons (count? : Instr → Option Int32) (weight : Int32 → Int) (i : Instr)
    (rest : Code) :
    (((i :: rest).filterMap count?).map weight).sum =
      ((count? i).map weight).getD 0 + ((rest.filterMap count?).map weight).sum := by
  rw [List.filterMap_cons]
  cases count? i with
  | none => simp
  | some count => simp

theorem tilt_walks (code : Code) :
    tilt '>' '<' code.symbols =
      ((code.filterMap Instr.moveCount?).map Int32.toInt).sum -
        4294967296 * code.countP Instr.isStranded := by
  induction code with
  | nil => rfl
  | cons i rest ih =>
    rw [symbols_cons, tilt_append, i.tilt_walks, ih, sum_filterMap_cons, List.countP_cons]
    split <;> omega

theorem tilt_steps (code : Code) :
    tilt '+' '-' code.symbols =
      ((code.filterMap Instr.adjustCount?).map Int32.toInt).sum +
        ((code.filterMap Instr.value?).map fun value => value.toInt - 1).sum := by
  induction code with
  | nil => rfl
  | cons i rest ih =>
    rw [symbols_cons, tilt_append, i.tilt_steps, ih, sum_filterMap_cons, sum_filterMap_cons]
    omega

/-- A character that is no stroke occurs as often as the instructions that are marked with it, which may
be of two kinds. -/
theorem count_symbols {c : Char} (h : c ∉ ['>', '<', '+', '-']) {p q : Instr → Bool}
    (marked : ∀ i : Instr, i.marks.count c = (if p i then 1 else 0) + if q i then 1 else 0)
    (code : Code) : code.symbols.count c = code.countP p + code.countP q := by
  induction code with
  | nil => rfl
  | cons i rest ih =>
    rw [symbols_cons, List.count_append, i.count_symbols h, marked, ih, List.countP_cons,
      List.countP_cons]
    omega

theorem count_symbols_single {c : Char} (h : c ∉ ['>', '<', '+', '-']) {p : Instr → Bool}
    (marked : ∀ i : Instr, i.marks.count c = if p i then 1 else 0) (code : Code) :
    code.symbols.count c = code.countP p := by
  have count := code.count_symbols h (q := fun _ => false) marked
  rw [List.countP_false] at count
  exact count

theorem countP_isStranded_eq_zero_iff {code : Code} :
    code.countP Instr.isStranded = 0 ↔
      ∀ value, Instr.assign value (some Int32.minValue) ∉ code := by
  rw [List.countP_eq_zero]
  constructor
  · intro returns value mem
    exact returns _ mem (by simp [Instr.isStranded])
  · intro absent i mem stranded
    cases i with
    | assign value offset =>
      cases offset with
      | none => cases stranded
      | some offset =>
        have least : offset = Int32.minValue := eq_of_beq stranded
        exact absent value (least ▸ mem)
    | _ => cases stranded

end Code

/-- The source text of code has command characters only. Its steps to the right outnumber those to the
left by the moves of the code, unless there is an assignment at the least offset; each of these takes
the head away by twice that offset. The steps up outnumber those down by the adjustments and by what the
assignments count to, less one for each of them. Brackets stand for the loops and for the assignments,
and the other two characters for the output and input. -/
theorem source_text_balance (code : Code) :
    let text := code.toSource.toList
    let moves := ((code.filterMap Instr.moveCount?).map Int32.toInt).sum
    let adjusts := ((code.filterMap Instr.adjustCount?).map Int32.toInt).sum
    let values := ((code.filterMap Instr.value?).map fun value => value.toInt - 1).sum
    (∀ c ∈ text, c ∈ commandChars) ∧
    (text.count '>' : Int) - text.count '<' = moves - 4294967296 * code.countP Instr.isStranded ∧
    ((text.count '>' : Int) - text.count '<' = moves ↔
      ∀ value, Instr.assign value (some Int32.minValue) ∉ code) ∧
    (text.count '+' : Int) - text.count '-' = adjusts + values ∧
    text.count '[' = code.countP Instr.isLoopStart + code.countP Instr.isSynthetic ∧
    text.count ']' = code.countP Instr.isLoopEnd + code.countP Instr.isSynthetic ∧
    text.count '.' = code.count .output ∧ text.count ',' = code.count .input := by
  intro text moves adjusts values
  have htext : text = code.symbols := String.toList_ofList
  have walks : (text.count '>' : Int) - text.count '<' =
      moves - 4294967296 * code.countP Instr.isStranded := htext ▸ code.tilt_walks
  rw [htext] at walks ⊢
  refine ⟨fun c mem => ?_, walks, ?_, code.tilt_steps, ?_, ?_, ?_, ?_⟩
  · obtain ⟨i, _, mem⟩ := List.mem_flatMap.mp mem
    exact Instr.mem_commandChars_of_mem_symbols mem
  · rw [← Code.countP_isStranded_eq_zero_iff, walks]
    omega
  · exact Code.count_symbols (by decide) (fun i => by cases i <;> rfl) code
  · exact Code.count_symbols (by decide) (fun i => by cases i <;> rfl) code
  · exact Code.count_symbols_single (by decide) (fun i => by cases i <;> rfl) code
  · exact Code.count_symbols_single (by decide) (fun i => by cases i <;> rfl) code

/-- An assignment at the least offset walks to the left twice, in code without any move. -/
theorem least_offset_walks_twice :
    let code : Code := [.assign 0 (some Int32.minValue)]
    let text := code.toSource.toList
    (text.count '>' : Int) - text.count '<' = -4294967296 ∧
      (text.count '>' : Int) - text.count '<' ≠
        ((code.filterMap Instr.moveCount?).map Int32.toInt).sum := by
  intro code text
  have htext : text = code.symbols := String.toList_ofList
  have walks : (text.count '>' : Int) - text.count '<' = -4294967296 := htext ▸ code.tilt_walks
  have still : ((code.filterMap Instr.moveCount?).map Int32.toInt).sum = 0 := rfl
  refine ⟨walks, ?_⟩
  rw [walks, still]
  decide

end TapeC
