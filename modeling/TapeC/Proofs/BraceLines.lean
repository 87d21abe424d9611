import TapeC.Proofs.CReading
import TapeC.Proofs.Indentation
import TapeC.Proofs.LoopSpans

namespace TapeC

/-- The lines of a text, without the line breaks that end them; nothing if the last one is not ended. -/
def endedLines? (text : String) : Option (List String) :=
  let pieces := text.toList.splitOn '\n'
  if pieces.getLast? = some [] then some (pieces.dropLast.map String.ofList) else none

/-- How many blanks a line begins with. -/
def indentation (line : String) : Nat := (line.toList.takeWhile (· == ' ')).length

/-- Text whose braces pair up, by the grammar of such text. -/
inductive BracesPair : List Char → Prop
  | empty : BracesPair []
  | other {c : Char} {rest : List Char} (opening : c ≠ '\x7b') (closing : c ≠ '\x7d') :
      BracesPair rest → BracesPair (c :: rest)
  | pair {inner rest : List Char} :
      BracesPair inner → BracesPair rest → BracesPair ('\x7b' :: inner ++ '\x7d' :: rest)

/-! ### Depths -/

namespace Code

/-- By how many the loop starts of code outnumber its loop ends. -/
def excess (code : Code) : Int := code.countP Instr.isLoopStart - code.countP Instr.isLoopEnd

theorem excess_append (first second : Code) :
    (first ++ second).excess = first.excess + second.excess := by
  unfold excess
  rw [List.countP_append, List.countP_append]
  omega

theorem excess_cons (i : Instr) (rest : Code) :
    excess (i :: rest) =
      excess rest + (if i.isLoopStart then 1 else 0 : Nat) - (if i.isLoopEnd then 1 else 0 : Nat) := by
  unfold excess
  rw [List.countP_cons, List.countP_cons]
  omega

theorem cLines_append (depth : Int) (first second : Code) :
    cLines depth (first ++ second) = cLines depth first ++ cLines (depth + first.excess) second := by
  induction first generalizing depth with
  | nil => simp [cLines, excess]
  | cons i rest ih =>
    have deeper : depth + (if i.isLoopStart then 1 else 0 : Nat) -
        (if i.isLoopEnd then 1 else 0 : Nat) + excess rest = depth + excess (i :: rest) := by
      rw [excess_cons]
      omega
    rw [List.cons_append, cLines_cons, cLines_cons, ih, deeper, List.cons_append]

/-- The line of each instruction, at the depth of the loops opened before it less the loops closed up
to it. -/
theorem getElem?_cLines (depth : Int) {code : Code} {k : Nat} {i : Instr} (h : code[k]? = some i) :
    (code.cLines depth)[k]? = some ⟨depth + (code.take k).countP Instr.isLoopStart -
      (code.take (k + 1)).countP Instr.isLoopEnd, i.statement⟩ := by
  induction code generalizing depth k with
  | nil => cases h
  | cons first rest ih =>
    rw [cLines_cons, List.take_succ_cons, List.countP_cons]
    cases k with
    | zero =>
      cases Option.some.inj h
      simp
    | succ k =>
      rw [List.getElem?_cons_succ, ih _ h, List.take_succ_cons, List.countP_cons]
      congr 2
      omega

theorem lineDepths_append (depth : Int) (first second : Code) :
    lineDepths depth (first ++ second) =
      lineDepths depth first ++ lineDepths (depth + first.excess) second := by
  simp only [lineDepths, cLines_append, List.map_append]

theorem length_lineDepths (depth : Int) (code : Code) :
    (lineDepths depth code).length = code.length := by
  have texts := congrArg List.length (cLines_text depth code)
  simpa [lineDepths] using texts

theorem Balanced.excess_eq_zero {code : Code} (h : Balanced code) : code.excess = 0 := by
  induction h with
  | empty => rfl
  | other unmarked _ ih =>
    obtain ⟨hs, he⟩ := Bool.or_eq_false_iff.mp unmarked
    simp [excess_cons, hs, he, ih]
  | loop _ _ ihb ihr =>
    simp [excess_cons, excess_append, ihb, ihr, Instr.isLoopStart, Instr.isLoopEnd]

theorem Balanced.le_lineDepths {code : Code} (h : Balanced code) (depth : Int) :
    ∀ d ∈ lineDepths depth code, depth ≤ d := by
  induction h generalizing depth with
  | empty => exact fun d mem => absurd mem List.not_mem_nil
  | other unmarked _ ih =>
    intro d mem
    rw [lineDepths_unmarked unmarked] at mem
    rcases List.mem_cons.mp mem with rfl | mem
    · exact Int.le_refl _
    · exact ih depth d mem
  | loop hb _ ihb ihr =>
    intro d mem
    rw [List.cons_append, lineDepths_loopStart, lineDepths_append, lineDepths_loopEnd,
      hb.excess_eq_zero] at mem
    have back : depth + 1 + 0 - 1 = depth := by omega
    rw [back] at mem
    rcases List.mem_cons.mp mem with rfl | mem
    · exact Int.le_refl _
    rcases List.mem_append.mp mem with mem | mem
    · have := ihb (depth + 1) d mem
      omega
    rcases List.mem_cons.mp mem with rfl | mem
    · exact Int.le_refl _
    · exact ihr depth d mem

/-- The depths along a loop: the same at its two ends, and more between them. -/
theorem lineDepths_span {code : Code} {partners : Array Nat} (h : code.loopPartners = .ok partners)
    {i : Nat} (hi : code[i]? = some .loopStart) :
    ∃ j d, partners[i]? = some j ∧ i < j ∧ code[j]? = some .loopEnd ∧ 1 ≤ d ∧
      (lineDepths 1 code)[i]? = some d ∧ (lineDepths 1 code)[j]? = some d ∧
      ∀ k, i < k → k < j → ∃ e, (lineDepths 1 code)[k]? = some e ∧ d + 1 ≤ e := by
  obtain ⟨j, spans, hpartner, _⟩ := spans_of_loopStart h hi
  have hend := spans.getElem?_stop
  obtain ⟨before, body, after, hcode, hlength, balanced, rfl⟩ := spans
  have whole : code.Balanced := by
    rw [← checkLoops_eq_ok_iff_balanced, ← loopPartners_eq_ok_iff]
    exact ⟨partners, h⟩
  have front := length_lineDepths 1 before
  have middle := length_lineDepths (1 + before.excess + 1) body
  have back : 1 + before.excess + 1 + 0 - 1 = 1 + before.excess := by omega
  have depths : lineDepths 1 code = lineDepths 1 before ++ (1 + before.excess) ::
      (lineDepths (1 + before.excess + 1) body ++ (1 + before.excess) ::
        lineDepths (1 + before.excess) after) := by
    rw [hcode, lineDepths_append, lineDepths_loopStart, lineDepths_append, lineDepths_loopEnd,
      balanced.excess_eq_zero, back]
  have opening : (lineDepths 1 code)[i]? = some (1 + before.excess) := by
    rw [depths, List.getElem?_append_right (by omega), front, hlength, Nat.sub_self]
    rfl
  refine ⟨i + 1 + body.length, 1 + before.excess, hpartner, by omega, hend, ?_, opening, ?_, ?_⟩
  · exact whole.le_lineDepths 1 _ (List.mem_of_getElem? opening)
  · rw [depths, List.getElem?_append_right (by omega), front, hlength]
    have place : i + 1 + body.length - i = body.length + 1 := by omega
    rw [place, List.getElem?_cons_succ, List.getElem?_append_right (by omega), middle, Nat.sub_self]
    rfl
  · intro k after_start before_end
    obtain ⟨m, rfl⟩ := Nat.exists_eq_add_of_lt after_start
    have inside : m < (lineDepths (1 + before.excess + 1) body).length := by omega
    have place : i + m + 1 - i = m + 1 := by omega
    refine ⟨(lineDepths (1 + before.excess + 1) body)[m], ?_, ?_⟩
    · rw [depths, List.getElem?_append_right (by omega), front, hlength, place,
        List.getElem?_cons_succ, List.getElem?_append_left inside, List.getElem?_eq_getElem inside]
    · exact balanced.le_lineDepths _ _ (List.getElem_mem inside)

end Code

/-! ### Lines of the text -/

section Lines

variable {layout : CLayout} {code : Code} {text : String}

theorem endedLines?_of_emit (h : layout.emit code = .ok text) :
    endedLines? text = some ((layout.lines code).map fun line => String.ofList (layout.row line)) := by
  simp only [endedLines?, CLayout.splitOn_of_emit h, List.getLast?_concat, if_pos, List.dropLast_concat,
    List.map_map]
  rfl

theorem indentation_row {line : CLine} (h : SingleLine line.text.toList) (layout : CLayout) :
    indentation (String.ofList (layout.row line)) = layout.width line := by
  have blanks : ∀ c ∈ List.replicate (layout.width line) ' ', (c == ' ') = true := by
    intro c mem
    rw [List.eq_of_mem_replicate mem]
    rfl
  have unindented : line.text.toList.takeWhile (· == ' ') = [] := by
    have front := h.front
    cases hc : line.text.toList with
    | nil => rfl
    | cons c rest =>
      have unblank : (c == ' ') = false := by
        rw [hc] at front
        by_contra blank
        rw [eq_of_beq (Bool.eq_true_of_not_eq_false blank)] at front
        cases front
      rw [List.takeWhile_cons_of_neg (by simp [unblank])]
  rw [indentation, String.toList_ofList, CLayout.row, List.takeWhile_append_of_pos blanks, unindented,
    List.append_nil, List.length_replicate]

/-- The line of each instruction stands behind the six lines before the code. -/
theorem getElem?_lines (layout : CLayout) {k : Nat} {line : CLine}
    (h : (code.cLines 1)[k]? = some line) : (layout.lines code)[6 + k]? = some line := by
  obtain ⟨inside, _⟩ := List.getElem?_eq_some_iff.mp h
  have place : 6 + k - 6 = k := by omega
  rw [CLayout.lines, List.getElem?_append_left, List.getElem?_append_right (by simp)]
  · simpa [place] using h
  · simp only [List.length_append, List.length_cons]
    omega

/-- A line of the code in the text, known by its depth. -/
theorem exists_line_of_depth (layout : CLayout) {k : Nat} {d : Int}
    (h : (code.lineDepths 1)[k]? = some d) :
    ∃ line, ((layout.lines code).map fun line => String.ofList (layout.row line))[6 + k]? = some line ∧
      indentation line = d.toNat * layout.indentWidth := by
  unfold Code.lineDepths at h
  rw [List.getElem?_map] at h
  obtain ⟨line, hline, rfl⟩ := Option.map_eq_some_iff.mp h
  have hlines := getElem?_lines layout hline
  refine ⟨String.ofList (layout.row line), ?_, ?_⟩
  · rw [List.getElem?_map, hlines]
    rfl
  · exact indentation_row (layout.lines_singleLine code line (List.mem_of_getElem? hlines)) layout

end Lines

/-! ### Braces -/

/-- Whether a text has no braces. -/
def BraceFree (text : List Char) : Prop := ∀ c ∈ text, c ≠ '\x7b' ∧ c ≠ '\x7d'

instance (text : List Char) : Decidable (BraceFree text) :=
  List.decidableBAll (fun c => c ≠ '\x7b' ∧ c ≠ '\x7d') text

namespace BraceFree

theorem append {first second : List Char} (hf : BraceFree first) (hs : BraceFree second) :
    BraceFree (first ++ second) := fun c mem => (List.mem_append.mp mem).elim (hf c) (hs c)

theorem blanks (width : Nat) : BraceFree (List.replicate width ' ') := by
  intro c mem
  rw [List.eq_of_mem_replicate mem]
  decide

theorem nat (n : Nat) : BraceFree (toString n).toList := by
  intro c mem
  have digit := isDigit_of_mem_toString mem
  constructor
  · rintro rfl
    cases digit
  · rintro rfl
    cases digit

theorem int (n : Int) : BraceFree (toString n).toList := by
  cases n with
  | ofNat m => exact nat m
  | negSucc m =>
    have sign : BraceFree ['-'] := by decide
    rw [toList_toString_negSucc]
    exact sign.append (nat (m + 1))

theorem change (count : Int32) : BraceFree (changeText count).toList := by
  by_cases up : count = 1
  · rw [up]
    decide
  by_cases down : count = -1
  · rw [down]
    decide
  have digits := nat count.toInt.natAbs
  have ending : BraceFree ";".toList := by decide
  rw [changeText, if_neg up, if_neg down, compound]
  by_cases negative : count < 0
  · rw [if_pos negative]
    have sign : BraceFree " -= ".toList := by decide
    simpa using (sign.append digits).append ending
  · rw [if_neg negative]
    have sign : BraceFree " += ".toList := by decide
    simpa using (sign.append digits).append ending

theorem statement {i : Instr} (unmarked : i.isLoopMark = false) : BraceFree i.statement.toList := by
  have ending : BraceFree ";".toList := by decide
  cases i with
  | move count =>
    have front : BraceFree "ptr".toList := by decide
    rw [statement_move, String.toList_append]
    exact front.append (change count)
  | adjust count =>
    have front : BraceFree "(*ptr)".toList := by decide
    rw [statement_adjust, String.toList_append]
    exact front.append (change count)
  | output => decide
  | input => decide
  | loopStart => cases unmarked
  | loopEnd => cases unmarked
  | assign value offset =>
    cases offset with
    | none =>
      have front : BraceFree "*ptr = ".toList := by decide
      simp only [Instr.statement, String.toList_append]
      exact (front.append (int value.toInt)).append ending
    | some offset =>
      have front : BraceFree "ptr[".toList := by decide
      have middle : BraceFree "] = ".toList := by decide
      simp only [Instr.statement, String.toList_append]
      exact (((front.append (int offset.toInt)).append middle).append (int value.toInt)).append ending

end BraceFree

namespace BracesPair

theorem append {first second : List Char} (hf : BracesPair first) (hs : BracesPair second) :
    BracesPair (first ++ second) := by
  induction hf with
  | empty => exact hs
  | other opening closing _ ih => exact .other opening closing ih
  | @pair inner rest hi _ _ ih =>
    have h := BracesPair.pair hi ih
    simpa only [List.cons_append, List.append_assoc] using h

theorem of_braceFree {text : List Char} (h : BraceFree text) : BracesPair text := by
  induction text with
  | nil => exact .empty
  | cons c rest ih =>
    have hc := h c List.mem_cons_self
    exact .other hc.1 hc.2 (ih fun d mem => h d (List.mem_cons_of_mem _ mem))

/-- Braces around text, with text that has none before each of them and text behind. -/
theorem around {front inner back rest : List Char} (hf : BraceFree front) (hi : BracesPair inner)
    (hb : BraceFree back) (hr : BracesPair rest) :
    BracesPair (front ++ '\x7b' :: (inner ++ (back ++ '\x7d' :: rest))) := by
  have h := (of_braceFree hf).append (.pair (hi.append (of_braceFree hb)) hr)
  simpa only [List.cons_append, List.append_assoc] using h

end BracesPair

section Text

variable {layout : CLayout} {code : Code} {text : String}

/-- Lines as text, each with its line break. -/
def CLayout.rows (layout : CLayout) (lines : List CLine) : List Char :=
  (lines.map layout.row).flatMap (· ++ ['\n'])

theorem CLayout.rows_append (first second : List CLine) :
    layout.rows (first ++ second) = layout.rows first ++ layout.rows second := by
  simp only [rows, List.map_append, List.flatMap_append]

theorem CLayout.rows_cons (line : CLine) (lines : List CLine) :
    layout.rows (line :: lines) =
      List.replicate (layout.width line) ' ' ++ (line.text.toList ++ '\n' :: layout.rows lines) := by
  simp [rows, row]

theorem BracesPair.rows_cons (line : CLine) (h : BracesPair line.text.toList) {lines : List CLine}
    (rest : BracesPair (layout.rows lines)) : BracesPair (layout.rows (line :: lines)) := by
  have lineEnd : BraceFree ['\n'] := by decide
  rw [CLayout.rows_cons]
  exact (of_braceFree (.blanks _)).append (h.append ((of_braceFree lineEnd).append rest))

/-- Lines between a line that ends in an opening brace and a line that is a closing one. -/
theorem BracesPair.rows_around {opening closing : CLine} {front : List Char}
    (ho : opening.text.toList = front ++ ['\x7b']) (hf : BraceFree front)
    (hc : closing.text.toList = ['\x7d']) {inner rest : List CLine}
    (hi : BracesPair (layout.rows inner)) (hr : BracesPair (layout.rows rest)) :
    BracesPair (layout.rows (opening :: (inner ++ closing :: rest))) := by
  have lineEnd : BracesPair ['\n'] := of_braceFree (by decide)
  have blanks : BraceFree (List.replicate (layout.width opening) ' ') := .blanks _
  have h := around (blanks.append hf) (lineEnd.append hi) (.blanks (layout.width closing))
    (lineEnd.append hr)
  rw [CLayout.rows_cons, CLayout.rows_append, CLayout.rows_cons, ho, hc]
  simpa only [List.append_assoc, List.cons_append, List.nil_append] using h

theorem Code.Balanced.bracesPair_rows (h : Balanced code) (layout : CLayout) (depth : Int) :
    BracesPair (layout.rows (code.cLines depth)) := by
  induction h generalizing depth with
  | empty => exact .empty
  | other unmarked _ ih =>
    rw [cLines_cons]
    exact .rows_cons ⟨_, _⟩ (.of_braceFree (.statement unmarked)) (ih _)
  | @loop body rest hb _ ihb ihr =>
    have back : depth + 1 + body.excess - 1 = depth := by
      rw [hb.excess_eq_zero]
      omega
    have lines : cLines depth (.loopStart :: body ++ .loopEnd :: rest) =
        ⟨depth, Instr.loopStart.statement⟩ ::
          (cLines (depth + 1) body ++ ⟨depth, Instr.loopEnd.statement⟩ :: cLines depth rest) := by
      rw [List.cons_append, cLines, cLines_append, cLines, back]
    have front : BraceFree "while (*ptr) ".toList := by decide
    have opening : Instr.loopStart.statement.toList = "while (*ptr) ".toList ++ ['\x7b'] := by decide
    have closing : Instr.loopEnd.statement.toList = ['\x7d'] := by decide
    rw [lines]
    exact .rows_around opening front closing (ihb (depth + 1)) (ihr depth)

theorem bracesPair_arrayLine (cells : Nat) : BracesPair (arrayLine cells).toList := by
  have front : BraceFree "char mem[".toList := by decide
  have bracket : BraceFree "] = ".toList := by decide
  have zero : BracesPair "0".toList := .of_braceFree (by decide)
  have ending : BracesPair ";".toList := .of_braceFree (by decide)
  have initial : "] = \x7b0\x7d;".toList =
      "] = ".toList ++ '\x7b' :: ("0".toList ++ ([] ++ '\x7d' :: ";".toList)) := by
    decide
  have none : BraceFree [] := by decide
  have h := BracesPair.around ((front.append (.nat cells)).append bracket) zero none ending
  rw [arrayLine, String.toList_append, String.toList_append, initial]
  simpa only [List.append_assoc] using h

theorem bracesPair_of_emit (h : layout.emit code = .ok text) (balanced : code.Balanced) :
    BracesPair text.toList := by
  have plain : ∀ {chars : List Char}, BraceFree chars → BracesPair chars := BracesPair.of_braceFree
  have lines : layout.lines code =
      ⟨0, "#include <stdio.h>"⟩ :: ⟨0, ""⟩ :: ⟨0, "int main(void)"⟩ :: ⟨0, "\x7b"⟩ ::
        ((⟨1, arrayLine layout.memorySize⟩ :: ⟨1, pointerLine⟩ ::
          (code.cLines 1 ++ [⟨1, returnLine⟩])) ++ ⟨0, "\x7d"⟩ :: []) := by
    simp [CLayout.lines, arrayLine, pointerLine, returnLine]
  have last : BracesPair (layout.rows [⟨1, returnLine⟩]) := .rows_cons _ (plain (by decide)) .empty
  have body : BracesPair (layout.rows (code.cLines 1 ++ [⟨1, returnLine⟩])) := by
    rw [CLayout.rows_append]
    exact (balanced.bracesPair_rows layout 1).append last
  have inner : BracesPair (layout.rows (⟨1, arrayLine layout.memorySize⟩ :: ⟨1, pointerLine⟩ ::
      (code.cLines 1 ++ [⟨1, returnLine⟩]))) :=
    .rows_cons ⟨1, arrayLine _⟩ (bracesPair_arrayLine _) (.rows_cons _ (plain (by decide)) body)
  have none : BraceFree [] := by decide
  have opening : "\x7b".toList = [] ++ ['\x7b'] := by decide
  have closing : "\x7d".toList = ['\x7d'] := by decide
  have frame : BracesPair (layout.rows (layout.lines code)) := by
    rw [lines]
    iterate 3 apply BracesPair.rows_cons _ (plain (by decide))
    exact .rows_around opening none closing inner .empty
  rwa [CLayout.toList_of_emit h]

end Text

/-- The lines of an emitted text are those of its code, one for each instruction, between six lines
before and two after. An instruction is indented by a level for each loop opened before it, less the
loops closed up to it, and for the function around it, at least by nothing. If the loops pair up, then
the braces do; and a loop start is indented like its partner, and less than every line between them, by
a level at least. -/
theorem emitted_braces_line_up {layout : CLayout} {code : Code} {text : String}
    (emitted : layout.emit code = .ok text) :
    ∃ lines, endedLines? text = some lines ∧ lines.length = code.length + 8 ∧
      (∀ k i, code[k]? = some i →
        let opened := (code.take k).countP Instr.isLoopStart
        let closed := (code.take (k + 1)).countP Instr.isLoopEnd
        lines[6 + k]? =
          some ("".pushn ' ' (layout.indentWidth * (1 + opened - closed : Int).toNat) ++ i.statement)) ∧
      (code.checkLoops = .ok () → BracesPair text.toList ∧
        ∃ partners, code.loopPartners = .ok partners ∧
          ∀ i, code[i]? = some .loopStart → ∃ j opening closing, partners[i]? = some j ∧ i < j ∧
            code[j]? = some .loopEnd ∧ lines[6 + i]? = some opening ∧ lines[6 + j]? = some closing ∧
            indentation opening = indentation closing ∧
            ∀ k, i < k → k < j → ∃ line, lines[6 + k]? = some line ∧
              indentation opening + layout.indentWidth ≤ indentation line) := by
  refine ⟨_, endedLines?_of_emit emitted, ?_, fun k i hk => ?_, fun paired => ?_⟩
  · have body := congrArg List.length (Code.cLines_text 1 code)
    rw [List.length_map, List.length_map] at body
    simp [CLayout.lines, body]
  · have line := getElem?_lines layout (Code.getElem?_cLines 1 hk)
    rw [List.getElem?_map, line, Option.map_some, CLayout.row, CLayout.width, String.ofList_append,
      String.ofList_toList, ← toList_pushn, String.ofList_toList, Nat.mul_comm]
  · have balanced := Code.checkLoops_eq_ok_iff_balanced.mp paired
    obtain ⟨partners, hp⟩ := Code.loopPartners_eq_ok_iff.mpr paired
    refine ⟨bracesPair_of_emit emitted balanced, partners, hp, fun i hi => ?_⟩
    obtain ⟨j, d, hj, less, hend, positive, opens, closes, between⟩ := Code.lineDepths_span hp hi
    obtain ⟨opening, ho, how⟩ := exists_line_of_depth layout opens
    obtain ⟨closing, hc, hcw⟩ := exists_line_of_depth layout closes
    refine ⟨j, opening, closing, hj, less, hend, ho, hc, how.trans hcw.symm, fun k hk hk' => ?_⟩
    obtain ⟨e, he, deeper⟩ := between k hk hk'
    obtain ⟨line, hl, hlw⟩ := exists_line_of_depth layout he
    have levels : d.toNat + 1 ≤ e.toNat := by omega
    have wider := Nat.mul_le_mul_right layout.indentWidth levels
    rw [Nat.succ_mul] at wider
    exact ⟨line, hl, by omega⟩

/-- A loop inside another one. -/
theorem emitted_braces_line_up_nested :
    let code : Code := [.adjust 1, .loopStart, .move 1, .loopStart, .adjust (-1), .loopEnd, .loopEnd]
    ∃ text lines, CLayout.emit ⟨3, 2⟩ code = .ok text ∧ endedLines? text = some lines ∧
      lines.length = 15 ∧ code.checkLoops = .ok () ∧ BracesPair text.toList ∧
      lines[9]? = some "    while (*ptr) \x7b" ∧ lines[12]? = some "  \x7d" := by
  intro code
  have emitted : CLayout.emit ⟨3, 2⟩ code = .ok ("#include <stdio.h>\n\nint main(void)\n\x7b\n" ++
      "  char mem[3] = \x7b0\x7d;\n  char *ptr = mem;\n  (*ptr)++;\n  while (*ptr) \x7b\n" ++
      "    ptr++;\n    while (*ptr) \x7b\n      (*ptr)--;\n    \x7d\n  \x7d\n  return 0;\n\x7d\n") := by
    decide +kernel
  have paired : code.checkLoops = .ok () := rfl
  obtain ⟨lines, hlines, count, each, lined⟩ := emitted_braces_line_up emitted
  have inner := each 3 .loopStart rfl
  have outer := each 6 .loopEnd rfl
  exact ⟨_, lines, emitted, hlines, count, paired, (lined paired).1, inner, outer⟩

end TapeC
