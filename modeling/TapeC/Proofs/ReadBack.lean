import TapeC.Proofs.CReading

namespace TapeC

/-- The word that an integer is. -/
def word? (n : Int) : Option Int32 :=
  if -0x80000000 ≤ n ∧ n < 0x80000000 then some (Int32.ofInt n) else none

def CStatement.instr? : CStatement → Option Instr
  | .advance count => (word? count).map .move
  | .add count => (word? count).map .adjust
  | .put => some .output
  | .get => some .input
  | .assign none value => (word? value).map (.assign · none)
  | .assign (some index) value => do return .assign (← word? value) (some (← word? index))

def CItem.instr? : CItem → Option Instr
  | .statement st => st.instr?
  | .whileHead => some .loopStart
  | .closing => some .loopEnd

/-- The instruction that a line holds. -/
def readInstr (line : String) : Option Instr := (readItem line).bind CItem.instr?

/-- The lines after the pointer's declaration, up to the return statement. -/
def statementLines (lines : List String) : List String :=
  ((lines.dropWhile (· ≠ pointerLine)).drop 1).takeWhile (· ≠ returnLine)

/-- The code of a text. -/
def readCode (text : String) : Option Code := (statementLines (trimmedLines text)).mapM readInstr

/-- The size of the array that a text declares. -/
def readCells (text : String) : Option Nat := (trimmedLines text).findSome? readArray

theorem word?_toInt (word : Int32) : word? word.toInt = some word := by
  have lower := word.le_toInt
  have upper := word.toInt_lt
  rw [word?, if_pos (by omega), Int32.ofInt_toInt]

theorem Instr.instr?_item (i : Instr) : i.item.instr? = some i := by
  cases i with
  | move count => simp [item, cStatement, CItem.instr?, CStatement.instr?, word?_toInt]
  | adjust count => simp [item, cStatement, CItem.instr?, CStatement.instr?, word?_toInt]
  | assign value offset =>
    cases offset with
    | none => simp [item, cStatement, CItem.instr?, CStatement.instr?, word?_toInt]
    | some offset => simp [item, cStatement, CItem.instr?, CStatement.instr?, word?_toInt]
  | _ => rfl

theorem readInstr_statement (i : Instr) : readInstr i.statement = some i := by
  rw [readInstr, readItem_statement, Option.bind_some, i.instr?_item]

theorem mapM_readInstr (code : Code) : (code.map (·.statement)).mapM readInstr = some code := by
  induction code with
  | nil => rfl
  | cons i rest ih =>
    rw [List.map_cons, List.mapM_cons, readInstr_statement, ih]
    rfl

theorem arrayLine_ne_pointerLine (cells : Nat) : arrayLine cells ≠ pointerLine := by
  intro h
  have unread : readArray pointerLine = none := by decide
  have read := readArray_arrayLine cells
  rw [h, unread] at read
  cases read

section Emitted

variable {layout : CLayout} {code : Code} {text : String}

theorem statementLines_of_emit (h : layout.emit code = .ok text) :
    statementLines (trimmedLines text) = code.map (·.statement) := by
  have front : ∀ line ∈ openingLines ++ [arrayLine layout.memorySize],
      decide (line ≠ pointerLine) = true := by
    have array := arrayLine_ne_pointerLine layout.memorySize
    simp only [openingLines, List.mem_append, List.mem_singleton, decide_eq_true_eq]
    rintro line (opening | rfl)
    · revert opening line
      decide
    · exact array
  have body : ∀ line ∈ code.map (·.statement), decide (line ≠ returnLine) = true := by
    simpa using fun i _ => i.statement_ne_returnLine
  have lines := CLayout.trimmedLines_of_emit h
  rw [List.append_cons] at lines
  rw [lines, statementLines, List.dropWhile_append_of_pos front,
    List.dropWhile_cons_of_neg (by simp), List.drop_one, List.tail_cons,
    List.takeWhile_append_of_pos body, List.takeWhile_cons_of_neg (by simp), List.append_nil]

theorem readCode_of_emit (h : layout.emit code = .ok text) : readCode text = some code := by
  rw [readCode, statementLines_of_emit h, mapM_readInstr]

theorem readCells_of_emit (h : layout.emit code = .ok text) :
    readCells text = some layout.memorySize := by
  have opening : openingLines.findSome? readArray = none := by decide
  rw [readCells, CLayout.trimmedLines_of_emit h, List.findSome?_append, opening,
    List.findSome?_cons, readArray_arrayLine]
  rfl

end Emitted

/-- Emitted text is read back exactly, whether or not loops pair up: the code and the size of the
array. Hence no other code has the same text under one layout, and what is read does not depend on
the indentation. -/
theorem emit_read_back {layout : CLayout} {code : Code} {text : String}
    (emitted : layout.emit code = .ok text) :
    readCode text = some code ∧ readCells text = some layout.memorySize ∧
      (∀ other, layout.emit other = .ok text → other = code) ∧
      ∀ width indented, CLayout.emit ⟨layout.memorySize, width⟩ code = .ok indented →
        readCode indented = readCode text := by
  have read := readCode_of_emit emitted
  refine ⟨read, readCells_of_emit emitted, ?_, ?_⟩
  · intro other same
    have read' := readCode_of_emit same
    exact Option.some.inj (read'.symm.trans read)
  · intro width indented h
    rw [read, readCode_of_emit h]

/-- A loop end without a start, and counts of the largest magnitude. -/
theorem emit_read_back_unpaired :
    let code : Code := [.loopEnd, .move (-2147483648), .adjust 0, .assign (-2147483648) (some 0),
      .assign 0 none, .loopStart, .move 1, .adjust (-1)]
    ∃ text indented, CLayout.emit ⟨7, 2⟩ code = .ok text ∧
      CLayout.emit ⟨7, 0⟩ code = .ok indented ∧ readCode text = some code ∧
      readCells text = some 7 ∧ readCode indented = readCode text := by
  intro code
  have emitted : CLayout.emit ⟨7, 2⟩ code = .ok ("#include <stdio.h>\n\nint main(void)\n\x7b\n" ++
      "  char mem[7] = \x7b0\x7d;\n  char *ptr = mem;\n\x7d\nptr -= 2147483648;\n(*ptr) += 0;\n" ++
      "ptr[0] = -2147483648;\n*ptr = 0;\nwhile (*ptr) \x7b\n  ptr++;\n  (*ptr)--;\n" ++
      "  return 0;\n\x7d\n") := by
    decide +kernel
  have indented : CLayout.emit ⟨7, 0⟩ code = .ok ("#include <stdio.h>\n\nint main(void)\n\x7b\n" ++
      "char mem[7] = \x7b0\x7d;\nchar *ptr = mem;\n\x7d\nptr -= 2147483648;\n(*ptr) += 0;\n" ++
      "ptr[0] = -2147483648;\n*ptr = 0;\nwhile (*ptr) \x7b\nptr++;\n(*ptr)--;\n" ++
      "return 0;\n\x7d\n") := by
    decide +kernel
  obtain ⟨hcode, hcells, _, same⟩ := emit_read_back emitted
  exact ⟨_, _, emitted, indented, hcode, hcells, same 0 _ indented⟩

end TapeC
