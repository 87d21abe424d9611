import Mathlib.Data.List.Basic
import TapeC.CText
import TapeC.Proofs.Nesting
import TapeC.Proofs.Trimming

namespace TapeC

/-- A statement that is no loop: on the pointer, on the cell it points to, or an assignment, whose
index is absent where the pointer is dereferenced with a star. -/
inductive CStatement where
  | advance (count : Int)
  | add (count : Int)
  | put
  | get
  | assign (index : Option Int) (value : Int)
deriving DecidableEq, Repr

/-- What a line can hold: a statement, the head of a loop, or a closing brace. -/
inductive CItem where
  | statement (st : CStatement)
  | whileHead
  | closing
deriving DecidableEq, Repr

/-- A sequence of statements in which every loop holds its body. -/
inductive CBlock where
  | done
  | step (st : CStatement) (next : CBlock)
  | loop (body next : CBlock)
deriving DecidableEq, Repr

/-- A program: how many cells its array has, and its statements. -/
structure CProgram where
  cells : Nat
  body : CBlock
deriving DecidableEq, Repr

section Reading

/-- The lines of a text, each without the blanks around it. -/
def trimmedLines (text : String) : List String :=
  (text.toList.splitOn '\n').map fun line => String.ofList (Text.trim line)

def readNat (text : List Char) : Option (Nat × List Char) :=
  let digits := text.takeWhile Char.isDigit
  if digits = [] then none
  else some (Nat.ofDigitChars 10 digits 0, text.dropWhile Char.isDigit)

def readSigned (text : List Char) : Option (Int × List Char) :=
  if text.head? = some '-' then (readNat text.tail).map fun (n, rest) => (-n, rest)
  else (readNat text).map fun (n, rest) => (n, rest)

/-- A number with a semicolon after it, at the end of a line. -/
def readLast (text : List Char) : Option Int :=
  match readSigned text with
  | some (n, [';']) => some n
  | _ => none

/-- What follows a variable that is counted up or down: by how much. -/
def readChange (text : List Char) : Option Int :=
  if text = "++;".toList then some 1
  else if text = "--;".toList then some (-1)
  else
    match " += ".toList.isPrefixOf? text with
    | some rest => readLast rest
    | none => (" -= ".toList.isPrefixOf? text).bind fun rest => (readLast rest).map (- ·)

def readCount (line : List Char) : Option CStatement :=
  match "(*ptr)".toList.isPrefixOf? line with
  | some rest => return .add (← readChange rest)
  | none => do
    let rest ← "ptr".toList.isPrefixOf? line
    return .advance (← readChange rest)

def readAssign (line : List Char) : Option CStatement :=
  match "ptr[".toList.isPrefixOf? line with
  | some rest => do
    let (index, rest) ← readSigned rest
    let rest ← "] = ".toList.isPrefixOf? rest
    return .assign (some index) (← readLast rest)
  | none => do
    let rest ← "*ptr = ".toList.isPrefixOf? line
    return .assign none (← readLast rest)

/-- The lines without a number. -/
def fixedLines : List (String × CItem) :=
  [("putchar(*ptr);", .statement .put), ("*ptr = getchar();", .statement .get),
    ("while (*ptr) \x7b", .whileHead), ("\x7d", .closing)]

def readItem (line : String) : Option CItem :=
  (readCount line.toList).map .statement <|> (readAssign line.toList).map .statement <|>
    fixedLines.lookup line

/-- Puts an item in front of a block. The blocks that continue after the loops still open to the
right are given with it, innermost first. -/
def CBlock.push (block : CBlock) (outer : List CBlock) : CItem → Option (CBlock × List CBlock)
  | .statement st => some (.step st block, outer)
  | .closing => some (.done, block :: outer)
  | .whileHead =>
    match outer with
    | next :: outer => some (.loop block next, outer)
    | [] => none

/-- Nests items from the right end. -/
def CBlock.nest : List CItem → Option (CBlock × List CBlock)
  | [] => some (.done, [])
  | item :: rest => (nest rest).bind fun (block, outer) => push block outer item

/-- The block of items whose loops pair up. -/
def CBlock.ofItems (items : List CItem) : Option CBlock :=
  match nest items with
  | some (block, []) => some block
  | _ => none

def openingLines : List String := ["#include <stdio.h>", "", "int main(void)", "\x7b"]

def pointerLine : String := "char *ptr = mem;"

def returnLine : String := "return 0;"

/-- The size of the array, from the line that declares it. -/
def readArray (line : String) : Option Nat := do
  let rest ← "char mem[".toList.isPrefixOf? line.toList
  let (cells, rest) ← readNat rest
  if String.ofList rest = "] = \x7b0\x7d;" then some cells else none

/-- The size of the array, and the lines between the declarations and the return statement. -/
def readFrame (lines : List String) : Option (Nat × List String) := do
  let rest ← openingLines.isPrefixOf? lines
  let cells ← readArray (← rest.head?)
  let rest ← [pointerLine].isPrefixOf? rest.tail
  if rest.dropWhile (· ≠ returnLine) = [returnLine, "\x7d", ""] then
    some (cells, rest.takeWhile (· ≠ returnLine))
  else none

/-- The program that a text is. -/
def CProgram.read (text : String) : Option CProgram := do
  let (cells, lines) ← readFrame (trimmedLines text)
  return ⟨cells, ← CBlock.ofItems (← lines.mapM readItem)⟩

end Reading

section Numbers

theorem toList_toString (n : Nat) : (toString n).toList = Nat.toDigits 10 n := by
  rw [Nat.toString_eq_ofList_toDigits, String.toList_ofList]

theorem isDigit_of_mem_toString {n : Nat} {c : Char} (h : c ∈ (toString n).toList) :
    c.isDigit = true := by
  rw [toList_toString] at h
  exact Nat.isDigit_of_mem_toDigits (by omega) (by omega) h

theorem toString_head? (n : Nat) (rest : List Char) :
    ∃ d, ((toString n).toList ++ rest).head? = some d ∧ d.isDigit = true := by
  cases hn : (toString n).toList with
  | nil =>
    rw [toList_toString] at hn
    exact absurd hn Nat.toDigits_ne_nil
  | cons d ds =>
    refine ⟨d, rfl, isDigit_of_mem_toString (n := n) ?_⟩
    rw [hn]
    exact List.mem_cons_self

theorem readNat_toString (n : Nat) {c : Char} (hc : c.isDigit = false) (rest : List Char) :
    readNat ((toString n).toList ++ c :: rest) = some (n, c :: rest) := by
  have digits : ∀ d ∈ (toString n).toList, d.isDigit = true := fun _ => isDigit_of_mem_toString
  have taken : ((toString n).toList ++ c :: rest).takeWhile Char.isDigit = (toString n).toList := by
    rw [List.takeWhile_append_of_pos digits, List.takeWhile_cons_of_neg (by simp [hc]),
      List.append_nil]
  have left : ((toString n).toList ++ c :: rest).dropWhile Char.isDigit = c :: rest := by
    rw [List.dropWhile_append_of_pos digits, List.dropWhile_cons_of_neg (by simp [hc])]
  simp only [readNat, taken, left]
  rw [toList_toString, if_neg Nat.toDigits_ne_nil, Nat.ofDigitChars_ten_toDigits]

theorem toList_toString_negSucc (m : Nat) :
    (toString (Int.negSucc m)).toList = '-' :: (toString (m + 1)).toList := by
  change ("-" ++ toString (m + 1)).toList = _
  simp

theorem readSigned_toString (n : Int) {c : Char} (hc : c.isDigit = false) (rest : List Char) :
    readSigned ((toString n).toList ++ c :: rest) = some (n, c :: rest) := by
  cases n with
  | ofNat m =>
    have plain : toString (Int.ofNat m) = toString m := rfl
    obtain ⟨d, head, digit⟩ := toString_head? m (c :: rest)
    have unsigned : d ≠ '-' := by
      rintro rfl
      cases digit
    rw [plain, readSigned, head, if_neg (by simpa using unsigned), readNat_toString m hc]
    rfl
  | negSucc m =>
    rw [toList_toString_negSucc, List.cons_append, readSigned, List.head?_cons, if_pos rfl,
      List.tail_cons, readNat_toString (m + 1) hc]
    rfl

theorem readLast_toString (n : Int) : readLast ((toString n).toList ++ ";".toList) = some n := by
  have ending : ";".toList = [';'] := rfl
  simp only [ending, readLast, readSigned_toString n (by decide : ';'.isDigit = false) []]

end Numbers

/-- The statement of an instruction that is no loop mark. -/
def Instr.cStatement : (i : Instr) → i.isLoopMark = false → CStatement
  | .move count, _ => .advance count.toInt
  | .adjust count, _ => .add count.toInt
  | .output, _ => .put
  | .input, _ => .get
  | .assign value offset, _ => .assign (offset.map Int32.toInt) value.toInt

/-- The item of an instruction. -/
def Instr.item : Instr → CItem
  | .loopStart => .whileHead
  | .loopEnd => .closing
  | .move count => .statement (cStatement (.move count) rfl)
  | .adjust count => .statement (cStatement (.adjust count) rfl)
  | .output => .statement (cStatement .output rfl)
  | .input => .statement (cStatement .input rfl)
  | .assign value offset => .statement (cStatement (.assign value offset) rfl)

theorem Instr.item_of_unmarked (i : Instr) (unmarked : i.isLoopMark = false) :
    i.item = .statement (i.cStatement unmarked) := by
  cases i with
  | loopStart => cases unmarked
  | loopEnd => cases unmarked
  | _ => rfl

section Statements

/-- What the statement of a move or an adjustment says after the name of its variable. -/
def changeText (count : Int32) : String :=
  if count = 1 then "++;" else if count = -1 then "--;" else compound "" count

theorem compound_eq_append (target : String) (count : Int32) :
    compound target count = target ++ compound "" count := by
  by_cases negative : count < 0
  · simp [compound, negative, String.append_assoc]
  · simp [compound, negative, String.append_assoc]

/-- Moves and adjustments are written alike, each with its variable. -/
theorem counted_eq_append {target up down : String} (hu : up = target ++ "++;")
    (hd : down = target ++ "--;") (count : Int32) :
    (if count = 1 then up else if count = -1 then down else compound target count) =
      target ++ changeText count := by
  by_cases one : count = 1
  · simp only [changeText, if_pos one, hu]
  by_cases minus : count = -1
  · simp only [changeText, if_neg one, if_pos minus, hd]
  simp only [changeText, if_neg one, if_neg minus]
  exact compound_eq_append target count

theorem statement_move (count : Int32) :
    (Instr.move count).statement = "ptr" ++ changeText count :=
  counted_eq_append rfl rfl count

theorem statement_adjust (count : Int32) :
    (Instr.adjust count).statement = "(*ptr)" ++ changeText count :=
  counted_eq_append rfl rfl count

theorem readLast_natAbs (n : Int) :
    readLast ((toString n.natAbs).toList ++ ";".toList) = some (n.natAbs : Int) :=
  readLast_toString (n.natAbs : Int)

theorem readChange_added (number : List Char) :
    readChange (" += ".toList ++ number) = readLast number := by
  simp [readChange, List.isPrefixOf?]

theorem readChange_subtracted (number : List Char) :
    readChange (" -= ".toList ++ number) = (readLast number).map (- ·) := by
  simp [readChange, List.isPrefixOf?]

theorem readChange_changeText (count : Int32) :
    readChange (changeText count).toList = some count.toInt := by
  by_cases up : count = 1
  · rw [up]
    rfl
  by_cases down : count = -1
  · rw [down]
    rfl
  rw [changeText, if_neg up, if_neg down]
  have sign := @Int32.lt_iff_toInt_lt count 0
  rw [Int32.toInt_zero] at sign
  by_cases negative : count < 0
  · have value : -(count.toInt.natAbs : Int) = count.toInt := by
      have := sign.mp negative
      omega
    rw [compound, if_pos negative]
    simp only [String.toList_append, List.append_assoc, String.toList_empty, List.nil_append]
    rw [readChange_subtracted, readLast_natAbs, Option.map_some, value]
  · have value : (count.toInt.natAbs : Int) = count.toInt := by
      have := mt sign.mpr negative
      omega
    rw [compound, if_neg negative]
    simp only [String.toList_append, List.append_assoc, String.toList_empty, List.nil_append]
    rw [readChange_added, readLast_natAbs, value]

theorem readItem_statement (i : Instr) : readItem i.statement = some i.item := by
  cases i with
  | move count =>
    have change := readChange_changeText count
    rw [statement_move, readItem, String.toList_append]
    simp [readCount, List.isPrefixOf?, change, Instr.item, Instr.cStatement]
  | adjust count =>
    have change := readChange_changeText count
    rw [statement_adjust, readItem, String.toList_append]
    simp [readCount, List.isPrefixOf?, change, Instr.item, Instr.cStatement]
  | output => rfl
  | input => rfl
  | loopStart => rfl
  | loopEnd => rfl
  | assign value offset =>
    have number : readLast ((toString value.toInt).toList ++ [';']) = some value.toInt :=
      readLast_toString value.toInt
    cases offset with
    | none =>
      simp only [Instr.statement, readItem, String.toList_append, List.append_assoc]
      generalize (toString value.toInt).toList = digits at number ⊢
      simp [readCount, readAssign, List.isPrefixOf?, number, Instr.item, Instr.cStatement]
    | some offset =>
      have index := readSigned_toString offset.toInt (by decide : ']'.isDigit = false)
      simp only [Instr.statement, readItem, String.toList_append, List.append_assoc]
      generalize (toString value.toInt).toList = digits at number ⊢
      generalize (toString offset.toInt).toList = place at index ⊢
      -- An indexed assignment starts like a move and is told apart by its bracket.
      have uncounted : ∀ rest, readChange ('[' :: rest) = none := fun _ => rfl
      simp [readCount, uncounted, readAssign, List.isPrefixOf?, index, number, Instr.item,
        Instr.cStatement]

end Statements

section Lines

/-- A text that a line can hold and that loses nothing when the blanks around it are dropped. -/
structure SingleLine (text : List Char) : Prop where
  unbroken : '\n' ∉ text
  front : text.head?.any Text.isBlank = false
  back : text.getLast?.any Text.isBlank = false

theorem SingleLine.trim_indented {text : List Char} (h : SingleLine text) (width : Nat) :
    Text.trim (List.replicate width ' ' ++ text) = text := by
  have blanks : Text.Blank (List.replicate width ' ') := by
    intro c hc
    rw [List.eq_of_mem_replicate hc]
    rfl
  have padded : Text.Padded text (List.replicate width ' ' ++ (text ++ [])) :=
    ⟨⟨h.front, h.back⟩, _, [], blanks, fun c mem => absurd mem List.not_mem_nil, rfl⟩
  rw [List.append_nil] at padded
  exact padded.trim_eq

/-- Lines that are each ended by a line break are found again, with nothing behind the last one. -/
theorem splitOn_ended {rows : List (List Char)} (h : ∀ row ∈ rows, '\n' ∉ row) :
    (rows.flatMap (· ++ ['\n'])).splitOn '\n' = rows ++ [[]] := by
  induction rows with
  | nil => rfl
  | cons row rows ih =>
    have rest := ih fun other mem => h other (List.mem_cons_of_mem _ mem)
    rw [List.flatMap_cons, List.append_assoc, List.singleton_append,
      List.splitOn_append_cons_self_of_not_mem (h row List.mem_cons_self), rest, List.cons_append]

theorem toList_pushn (width : Nat) : ("".pushn ' ' width).toList = List.replicate width ' ' := by
  induction width with
  | zero => rfl
  | succ width ih =>
    rw [List.replicate_succ', ← ih]
    simp [String.pushn, Nat.repeat]

/-- A line with its indentation, without the line break that ends it. -/
def CLayout.row (layout : CLayout) (line : CLine) : List Char :=
  List.replicate (layout.width line) ' ' ++ line.text.toList

theorem SingleLine.unbroken_row {line : CLine} (h : SingleLine line.text.toList)
    (layout : CLayout) : '\n' ∉ layout.row line := by
  simp [CLayout.row, List.mem_replicate, h.unbroken]

theorem CLayout.renderLine_eq_ok {layout : CLayout} {line : CLine} {text : String}
    (h : layout.renderLine line = .ok text) : text.toList = layout.row line ++ ['\n'] := by
  simp only [CLayout.renderLine] at h
  split at h
  next => cases h
  next =>
    cases h
    simp [toList_pushn, row]

theorem CLayout.toList_of_render {layout : CLayout} {lines : List CLine} {rendered : List String}
    (h : lines.mapM layout.renderLine = .ok rendered) :
    (String.join rendered).toList = (lines.map layout.row).flatMap (· ++ ['\n']) := by
  induction lines generalizing rendered with
  | nil =>
    cases h
    rfl
  | cons line lines ih =>
    rw [List.mapM_cons] at h
    cases hl : layout.renderLine line with
    | error wide =>
      rw [hl] at h
      cases h
    | ok text =>
      cases hr : lines.mapM layout.renderLine with
      | error wide =>
        rw [hl, hr] at h
        cases h
      | ok others =>
        rw [hl, hr] at h
        cases h
        rw [String.toList_join, List.flatMap_cons, ← String.toList_join, ih hr,
          CLayout.renderLine_eq_ok hl, List.map_cons, List.flatMap_cons]

theorem CLayout.toList_of_emit {layout : CLayout} {code : Code} {text : String}
    (h : layout.emit code = .ok text) :
    text.toList = ((layout.lines code).map layout.row).flatMap (· ++ ['\n']) := by
  unfold emit at h
  cases hr : (layout.lines code).mapM layout.renderLine with
  | error wide =>
    rw [hr] at h
    cases h
  | ok rendered =>
    rw [hr] at h
    cases h
    exact toList_of_render hr

theorem newline_not_mem_toString (n : Nat) : '\n' ∉ (toString n).toList := fun h =>
  absurd (isDigit_of_mem_toString h) (by decide)

theorem newline_not_mem_toString_int (n : Int) : '\n' ∉ (toString n).toList := by
  cases n with
  | ofNat m => exact newline_not_mem_toString m
  | negSucc m =>
    rw [toList_toString_negSucc]
    simpa using newline_not_mem_toString (m + 1)

instance (text : List Char) : Decidable (SingleLine text) :=
  decidable_of_iff ('\n' ∉ text ∧ text.head?.any Text.isBlank = false ∧
    text.getLast?.any Text.isBlank = false)
    ⟨fun ⟨unbroken, front, back⟩ => ⟨unbroken, front, back⟩,
      fun ⟨unbroken, front, back⟩ => ⟨unbroken, front, back⟩⟩

theorem SingleLine.between {front middle back : List Char}
    (hf : '\n' ∉ front ∧ front.head?.any (!Text.isBlank ·) = true) (hm : '\n' ∉ middle)
    (hb : '\n' ∉ back ∧ back.getLast?.any (!Text.isBlank ·) = true) :
    SingleLine (front ++ (middle ++ back)) := by
  refine ⟨by simp [hf.1, hm, hb.1], ?_, ?_⟩
  · cases hc : front.head? with
    | none => simp [hc] at hf
    | some c => simpa [List.head?_append, hc] using hf.2
  · cases hd : back.getLast? with
    | none => simp [hd] at hb
    | some d => simpa [List.getLast?_append, hd] using hb.2

theorem changeText_ends (count : Int32) :
    ∃ middle, (changeText count).toList = middle ++ ";".toList ∧ '\n' ∉ middle := by
  by_cases up : count = 1
  · exact ⟨"++".toList, by rw [up]; rfl, by decide⟩
  by_cases down : count = -1
  · exact ⟨"--".toList, by rw [down]; rfl, by decide⟩
  have digits := newline_not_mem_toString count.toInt.natAbs
  rw [changeText, if_neg up, if_neg down]
  by_cases negative : count < 0
  · refine ⟨" -= ".toList ++ (toString count.toInt.natAbs).toList, ?_, by simpa using digits⟩
    simp [compound, negative]
  · refine ⟨" += ".toList ++ (toString count.toInt.natAbs).toList, ?_, by simpa using digits⟩
    simp [compound, negative]

theorem Instr.statement_singleLine (i : Instr) : SingleLine i.statement.toList := by
  cases i with
  | move count =>
    obtain ⟨middle, text, unbroken⟩ := changeText_ends count
    rw [statement_move, String.toList_append, text]
    exact .between (by decide) unbroken (by decide)
  | adjust count =>
    obtain ⟨middle, text, unbroken⟩ := changeText_ends count
    rw [statement_adjust, String.toList_append, text]
    exact .between (by decide) unbroken (by decide)
  | output => decide
  | input => decide
  | loopStart => decide
  | loopEnd => decide
  | assign value offset =>
    have digits := newline_not_mem_toString_int value.toInt
    cases offset with
    | none =>
      simp only [Instr.statement, String.toList_append, List.append_assoc]
      exact .between (by decide) digits (by decide)
    | some offset =>
      have place := newline_not_mem_toString_int offset.toInt
      have middle : '\n' ∉ (toString offset.toInt).toList ++
          ("] = ".toList ++ (toString value.toInt).toList) := by
        simp only [List.mem_append, not_or]
        exact ⟨place, by decide, digits⟩
      have line : SingleLine ("ptr[".toList ++ (_ ++ ";".toList)) :=
        .between (by decide) middle (by decide)
      simpa only [Instr.statement, String.toList_append, List.append_assoc] using line

end Lines

section Programs

variable {layout : CLayout} {code : Code}

theorem isPrefixOf?_append {α : Type} [BEq α] [LawfulBEq α] (front rest : List α) :
    front.isPrefixOf? (front ++ rest) = some rest := by
  induction front with
  | nil => simp [List.isPrefixOf?]
  | cons a front ih => simp [List.isPrefixOf?, ih]

theorem Code.cLines_text (depth : Int) (code : Code) :
    (code.cLines depth).map (·.text) = code.map (·.statement) := by
  induction code generalizing depth with
  | nil => rfl
  | cons i rest ih => cases i <;> simp [cLines, ih]

def arrayLine (cells : Nat) : String := "char mem[" ++ toString cells ++ "] = \x7b0\x7d;"

theorem CLayout.lines_text (layout : CLayout) (code : Code) :
    (layout.lines code).map (·.text) =
      openingLines ++ arrayLine layout.memorySize :: pointerLine ::
        (code.map (·.statement) ++ [returnLine, "\x7d"]) := by
  simp only [lines, List.map_append, Code.cLines_text]
  rfl

theorem CLayout.lines_singleLine (layout : CLayout) (code : Code) :
    ∀ line ∈ layout.lines code, SingleLine line.text.toList := by
  have opening : ∀ text ∈ openingLines, SingleLine text.toList := by
    simp only [openingLines, List.forall_mem_cons]
    exact ⟨by decide, by decide, by decide, by decide, by simp⟩
  have array : SingleLine (arrayLine layout.memorySize).toList := by
    rw [arrayLine, String.toList_append, String.toList_append, List.append_assoc]
    exact .between (by decide) (newline_not_mem_toString _) (by decide)
  have statements : ∀ text ∈ code.map (·.statement), SingleLine text.toList := by
    simpa using fun i _ => i.statement_singleLine
  have all : ∀ text ∈ (layout.lines code).map (·.text), SingleLine text.toList := by
    rw [lines_text]
    simp only [List.forall_mem_append, List.forall_mem_cons]
    exact ⟨opening, array, by decide, statements, by decide, by decide, by simp⟩
  exact fun line mem => all line.text (List.mem_map_of_mem mem)

theorem CLayout.splitOn_of_emit {text : String} (h : layout.emit code = .ok text) :
    text.toList.splitOn '\n' = (layout.lines code).map layout.row ++ [[]] := by
  rw [toList_of_emit h]
  apply splitOn_ended
  intro row mem
  obtain ⟨line, hl, rfl⟩ := List.mem_map.mp mem
  exact (layout.lines_singleLine code line hl).unbroken_row layout

theorem CLayout.trimmedLines_of_emit {text : String} (h : layout.emit code = .ok text) :
    trimmedLines text =
      openingLines ++ arrayLine layout.memorySize :: pointerLine ::
        (code.map (·.statement) ++ [returnLine, "\x7d", ""]) := by
  have trimmed : ((layout.lines code).map layout.row).map (fun row => String.ofList (Text.trim row)) =
      (layout.lines code).map (·.text) := by
    rw [List.map_map]
    apply List.map_congr_left
    intro line mem
    rw [Function.comp_apply, row, (layout.lines_singleLine code line mem).trim_indented,
      String.ofList_toList]
  rw [trimmedLines, splitOn_of_emit h, List.map_append, trimmed, lines_text]
  simp only [List.append_assoc, List.cons_append, List.nil_append]
  rfl

theorem readArray_arrayLine (cells : Nat) : readArray (arrayLine cells) = some cells := by
  have bracket : "] = \x7b0\x7d;".toList = ']' :: " = \x7b0\x7d;".toList := by decide
  have number := readNat_toString cells (by decide : ']'.isDigit = false) " = \x7b0\x7d;".toList
  rw [← bracket] at number
  rw [arrayLine, readArray, String.toList_append, String.toList_append, List.append_assoc,
    isPrefixOf?_append]
  simp only [Option.bind_eq_bind, Option.bind_some, number, String.ofList_toList, if_true]

theorem Instr.statement_ne_returnLine (i : Instr) : i.statement ≠ returnLine := by
  intro h
  have unread : readItem returnLine = none := by decide
  have item := readItem_statement i
  rw [h, unread] at item
  cases item

/-- The frame of a text is read back, whether or not the loops of its code pair up. -/
theorem readFrame_of_emit {text : String} (h : layout.emit code = .ok text) :
    readFrame (trimmedLines text) = some (layout.memorySize, code.map (·.statement)) := by
  have body : ∀ line ∈ code.map (·.statement), decide (line ≠ returnLine) = true := by
    simpa using fun i _ => i.statement_ne_returnLine
  have pointer := isPrefixOf?_append [pointerLine]
    (code.map (·.statement) ++ [returnLine, "\x7d", ""])
  rw [List.singleton_append] at pointer
  rw [CLayout.trimmedLines_of_emit h]
  simp only [readFrame, isPrefixOf?_append, Option.bind_eq_bind, Option.bind_some, List.head?_cons,
    readArray_arrayLine, List.tail_cons, pointer, List.takeWhile_append_of_pos body,
    List.dropWhile_append_of_pos body]
  rw [List.dropWhile_cons_of_neg (by decide), List.takeWhile_cons_of_neg (by decide), if_pos rfl,
    List.append_nil]

theorem mapM_readItem (code : Code) :
    (code.map (·.statement)).mapM readItem = some (code.map Instr.item) := by
  induction code with
  | nil => rfl
  | cons i rest ih =>
    rw [List.map_cons, List.mapM_cons, readItem_statement, ih]
    rfl

/-- A block with the statements of its instructions. -/
def Block.toC : Block → CBlock
  | .done => .done
  | .step i unmarked next => .step (i.cStatement unmarked) next.toC
  | .loop body next => .loop body.toC next.toC

theorem CBlock.push_item {i : Instr} {block inner : Block} {outer waiting : List Block}
    (h : Block.push i inner waiting = some (block, outer)) :
    CBlock.push inner.toC (waiting.map Block.toC) i.item =
      some (block.toC, outer.map Block.toC) := by
  obtain ⟨unmarked, rfl, rfl⟩ | ⟨rfl, next, rfl, rfl⟩ | ⟨rfl, rfl, rfl⟩ := Block.push_cases h
  · rw [i.item_of_unmarked unmarked]
    rfl
  · rfl
  · rfl

theorem CBlock.nest_items {block : Block} {outer : List Block}
    (h : code.nest = some (block, outer)) :
    CBlock.nest (code.map Instr.item) = some (block.toC, outer.map Block.toC) := by
  induction code generalizing block outer with
  | nil =>
    cases Option.some.inj h
    rfl
  | cons i rest ih =>
    obtain ⟨inner, waiting, hn, hp⟩ := Code.nest_cons_eq_some_iff.mp h
    rw [List.map_cons, CBlock.nest, ih hn, Option.bind_some]
    exact CBlock.push_item hp

/-- The text of code whose loops pair up is a program. -/
theorem CProgram.read_of_emit {text : String} {block : Block} (h : layout.emit code = .ok text)
    (paired : code.block? = some block) :
    CProgram.read text = some ⟨layout.memorySize, block.toC⟩ := by
  have nested := CBlock.nest_items (Code.block?_eq_some_iff.mp paired)
  simp only [CProgram.read, readFrame_of_emit h, mapM_readItem, Option.bind_eq_bind,
    Option.bind_some, CBlock.ofItems, nested]
  rfl

end Programs

end TapeC
