import Mathlib.Control.Monad.Basic
import TapeC.Proofs.CReading
import TapeC.Proofs.BigStep

namespace TapeC

/-- The array, the offset of the pointer from its start, the input not yet read and the output so
far. -/
structure CState (size : Nat) where
  mem : Vector UInt8 size
  ptr : Int
  input : List UInt8
  output : List UInt8

variable {size : Nat}

namespace CState

def initial (size : Nat) (input : List UInt8) : CState size :=
  ⟨Vector.replicate size 0, 0, input, []⟩

/-- The cell at an offset from the start of the array, if it is inside. -/
def inside (offset : Int) : Option (Fin size) :=
  if h : 0 ≤ offset ∧ offset < size then some ⟨offset.toNat, by omega⟩ else none

/-- The value of the cell that the pointer points to. -/
def load (s : CState size) : Option Int :=
  (inside s.ptr).map fun place : Fin size => ((s.mem.get place).toNat : Int)

/-- Stores a value modulo 256 at an index from the pointer. -/
def store (s : CState size) (index value : Int) : Option (CState size) :=
  (inside (s.ptr + index)).map fun place : Fin size =>
    { s with mem := s.mem.set place (UInt8.ofInt value) place.isLt }

/-- The value of the next byte of the input, or the end-of-file value. -/
def nextValue (s : CState size) : Int :=
  match s.input with
  | [] => -1
  | byte :: _ => byte.toNat

end CState

/-- The effect of a statement. -/
def CStatement.exec (s : CState size) : CStatement → Option (CState size)
  | .advance count => (CState.inside (s.ptr + count)).map fun _ : Fin size =>
      { s with ptr := s.ptr + count }
  | .add count => s.load.bind fun value => s.store 0 (value + count)
  | .put => s.load.map fun value => { s with output := s.output ++ [UInt8.ofInt value] }
  | .get => (s.store 0 s.nextValue).map fun t => { t with input := s.input.tail }
  | .assign index value => s.store (index.getD 0) value

/-- A block executes from one state to another without leaving the array. -/
inductive CBlock.Executes : CBlock → CState size → CState size → Prop
  | done {s : CState size} : Executes .done s s
  | step {st : CStatement} {next : CBlock} {s t u : CState size} : st.exec s = some t →
      Executes next t u → Executes (.step st next) s u
  | skip {body next : CBlock} {s t : CState size} : s.load = some 0 → Executes next s t →
      Executes (.loop body next) s t
  | again {body next : CBlock} {s t u : CState size} {value : Int} : s.load = some value →
      value ≠ 0 → Executes body s t → Executes (.loop body next) t u →
      Executes (.loop body next) s u

/-- A program terminates on an input inside its array, with this output, these cells and this offset
of the pointer. -/
def CProgram.Terminates (program : CProgram) (input output : List UInt8) (cells : Array UInt8)
    (ptr : Int) : Prop :=
  ∃ final : CState program.cells,
    program.body.Executes (CState.initial program.cells input) final ∧
      final.output = output ∧ final.mem.toArray = cells ∧ final.ptr = ptr

section Bytes

theorem toNat_ofInt (value : Int) : (UInt8.ofInt value).toNat = (value % 256).toNat := by
  have bound : (value % 256).toNat < 256 := by omega
  simp [UInt8.ofInt, Nat.mod_eq_of_lt bound]

theorem ofInt_toNat (byte : UInt8) : UInt8.ofInt byte.toNat = byte := by
  apply UInt8.toNat_inj.mp
  have := byte.toNat_lt
  rw [toNat_ofInt]
  omega

theorem ofInt_toInt (word : Int32) : UInt8.ofInt word.toInt = lowByte word := by
  apply UInt8.toNat_inj.mp
  have low : (lowByte word).toNat = word.toBitVec.toNat % 256 := rfl
  rw [toNat_ofInt, low, ← Int32.toInt_toBitVec, BitVec.toInt_eq_toNat_cond]
  split <;> omega

theorem toNat_eq_zero_iff {byte : UInt8} : (byte.toNat : Int) = 0 ↔ byte = 0 := by
  rw [← UInt8.toNat_inj, UInt8.toNat_zero]
  omega

theorem ofInt_add (a b : Int) : UInt8.ofInt (a + b) = UInt8.ofInt a + UInt8.ofInt b := by
  apply UInt8.toNat_inj.mp
  rw [UInt8.toNat_add]
  simp only [toNat_ofInt]
  omega

end Bytes

namespace Store

/-- The machine's data as the state of a C program. -/
def toC (s : Store size) : CState size := ⟨s.cells, s.head, s.input, s.output.toList⟩

theorem inside_place (s : Store size) (offset : Int32) :
    CState.inside (s.toC.ptr + offset.toInt) = (s.place offset).toOption := by
  change CState.inside ((s.head : Int) + offset.toInt) = _
  simp only [CState.inside, place]
  split <;> rfl

theorem inside_head (s : Store size) : CState.inside s.toC.ptr = some s.head := by
  have := s.head.isLt
  simp [CState.inside, toC]

theorem load_toC (s : Store size) : s.toC.load = some (s.cell.toNat : Int) := by
  rw [CState.load, inside_head]
  rfl

theorem store_toC (s : Store size) (value : Int) :
    s.toC.store 0 value = some (s.write s.head (UInt8.ofInt value)).toC := by
  rw [CState.store, Int.add_zero, inside_head]
  rfl

theorem nextValue_toC (s : Store size) :
    UInt8.ofInt s.toC.nextValue = s.input.headD endOfInput := by
  unfold CState.nextValue toC
  cases s.input with
  | nil => rfl
  | cons byte rest => exact ofInt_toNat byte

/-- A statement does what its instruction does, and has a meaning exactly where the instruction
stays on the tape. -/
theorem exec_toC (s : Store size) (i : Instr) (unmarked : i.isLoopMark = false) :
    (i.cStatement unmarked).exec s.toC = (s.perform i).toOption.map toC := by
  cases i with
  | move count =>
    simp only [Instr.cStatement, CStatement.exec, inside_place, perform]
    cases h : s.place count with
    | ok place =>
      have hh : s.toC.ptr + count.toInt = place := place_eq_ok_iff.mp h
      simp only [hh]
      rfl
    | error place => rfl
  | adjust count =>
    simp only [Instr.cStatement, CStatement.exec, load_toC, Option.bind_some, store_toC,
      ofInt_add, ofInt_toNat, ofInt_toInt]
    rfl
  | output =>
    simp only [Instr.cStatement, CStatement.exec, load_toC, Option.map_some, ofInt_toNat]
    simp [toC, perform, Except.toOption]
  | input =>
    simp only [Instr.cStatement, CStatement.exec, store_toC, Option.map_some, nextValue_toC]
    rfl
  | loopStart => cases unmarked
  | loopEnd => cases unmarked
  | assign value offset =>
    have index : (offset.map Int32.toInt).getD 0 = (offset.getD 0).toInt := by
      cases offset <;> rfl
    simp only [Instr.cStatement, CStatement.exec, CState.store, index, inside_place, perform,
      ofInt_toInt]
    cases s.place (offset.getD 0) <;> rfl

end Store

section Programs

variable {block : Block} {s : Store size}

theorem Block.Runs.executes {n : Nat} {t : Store size} (h : block.Runs s n (.finished t)) :
    block.toC.Executes s.toC t.toC := by
  generalize hr : Outcome.finished t = r at h
  induction h generalizing t with
  | done =>
    cases hr
    exact .done
  | step hp _ ih =>
    refine .step ?_ (ih hr)
    rw [Store.exec_toC, hp]
    rfl
  | escape => cases hr
  | skip hz _ ih =>
    refine .skip ?_ (ih hr)
    rw [Store.load_toC, hz]
    rfl
  | again hz _ _ ihb ihl =>
    exact .again (Store.load_toC _) (mt toNat_eq_zero_iff.mp hz) (ihb rfl) (ihl hr)
  | escapeBody => cases hr

theorem CBlock.Executes.runs {final : CState size} (h : block.toC.Executes s.toC final) :
    ∃ n t, block.Runs s n (.finished t) ∧ final = t.toC := by
  generalize hb : block.toC = cblock at h
  generalize hs : s.toC = start at h
  induction h generalizing block s with
  | done =>
    cases block with
    | done => exact ⟨0, s, .done, hs.symm⟩
    | step | loop => cases hb
  | step he _ ih =>
    cases block with
    | step i unmarked next =>
      cases hb
      subst hs
      rw [Store.exec_toC] at he
      cases hp : s.perform i with
      | error place =>
        rw [hp] at he
        cases he
      | ok t =>
        rw [hp] at he
        obtain ⟨n, u, hr, hf⟩ := ih rfl (Option.some.inj he)
        exact ⟨n + 1, u, .step hp hr, hf⟩
    | done | loop => cases hb
  | skip hl _ ih =>
    cases block with
    | loop body next =>
      cases hb
      subst hs
      rw [Store.load_toC, Option.some.injEq, toNat_eq_zero_iff] at hl
      obtain ⟨n, u, hr, hf⟩ := ih rfl rfl
      exact ⟨n + 1, u, .skip hl hr, hf⟩
    | done | step => cases hb
  | again hl hz _ _ ihb ihl =>
    cases block with
    | loop body next =>
      cases hb
      subst hs
      cases Option.some.inj (s.load_toC.symm.trans hl)
      obtain ⟨m, t, hr, rfl⟩ := ihb rfl rfl
      obtain ⟨n, u, hl, hf⟩ := @ihl (.loop body next) t rfl rfl
      exact ⟨m + n + 1, u, .again (mt toNat_eq_zero_iff.mpr hz) hr hl, hf⟩
    | done | step => cases hb

theorem Store.toC_initial (positive : 0 < size) (input : List UInt8) :
    (Store.initial size positive input).toC = CState.initial size input := rfl

/-- The text of code whose loops pair up, read as C, computes what the machine computes: a clean run
under any limit is a termination of the program, and a termination of the program is a clean run
under every limit that is large enough. -/
theorem emit_means_run {layout : CLayout} {code : Code} {text : String}
    (positive : 0 < layout.memorySize) (paired : code.checkLoops = .ok ())
    (emitted : layout.emit code = .ok text) :
    ∃ program, CProgram.read text = some program ∧ program.cells = layout.memorySize ∧
      ∀ input,
        (∀ fuel out m,
          (Machine.new ⟨layout.memorySize, fuel⟩).run code input = (.ok out, m) →
            program.Terminates input out m.tape m.head) ∧
        ∀ out tape ptr, program.Terminates input out tape ptr →
          ∃ enough, ∀ fuel, enough ≤ fuel → ∃ head used : Nat, (head : Int) = ptr ∧
            (Machine.new ⟨layout.memorySize, fuel⟩).run code input =
              (.ok out, ⟨⟨layout.memorySize, fuel⟩, tape, head, used⟩) := by
  obtain ⟨block, hb⟩ := Code.checkLoops_eq_ok_iff.mp paired
  refine ⟨_, CProgram.read_of_emit emitted hb, rfl, fun input => ⟨?_, ?_⟩⟩
  · intro fuel out m hrun
    obtain ⟨_, n, s, hc, fits, hr⟩ :=
      Machine.finished_of_run ⟨layout.memorySize, fuel⟩ positive (congrArg Prod.fst hrun)
    cases Option.some.inj (hb.symm.trans hc)
    rw [Machine.run_of_runs ⟨layout.memorySize, fuel⟩ positive hb hr fits] at hrun
    cases hrun
    exact ⟨s.toC, hr.executes, rfl, rfl, rfl⟩
  · rintro out tape ptr ⟨final, executes, rfl, rfl, rfl⟩
    rw [← Store.toC_initial positive] at executes
    obtain ⟨n, s, hr, rfl⟩ := executes.runs
    exact ⟨n, fun fuel fits => ⟨s.head, n, rfl,
      Machine.run_of_runs ⟨layout.memorySize, fuel⟩ positive hb hr fits⟩⟩

theorem emit_means_run_echo :
    ∃ text program,
      CLayout.emit ⟨2, 1⟩ [.input, .loopStart, .output, .adjust (-1), .loopEnd, .move 1,
        .assign 300 (some (-1))] = .ok text ∧
      CProgram.read text = some program ∧ program.Terminates [2] [2, 1] #[44, 0] 1 ∧
      ∃ enough, ∀ fuel, enough ≤ fuel →
        ((Machine.new ⟨2, fuel⟩).run [.input, .loopStart, .output, .adjust (-1), .loopEnd, .move 1,
          .assign 300 (some (-1))] [2]).1 = .ok [2, 1] := by
  have emitted : CLayout.emit ⟨2, 1⟩ [.input, .loopStart, .output, .adjust (-1), .loopEnd, .move 1,
      .assign 300 (some (-1))] = .ok ("#include <stdio.h>\n\nint main(void)\n\x7b\n" ++
        " char mem[2] = \x7b0\x7d;\n char *ptr = mem;\n *ptr = getchar();\n while (*ptr) \x7b\n" ++
        "  putchar(*ptr);\n  (*ptr)--;\n \x7d\n ptr++;\n ptr[-1] = 300;\n return 0;\n\x7d\n") := by
    decide +kernel
  obtain ⟨program, read, _, means⟩ := emit_means_run (by decide) (by decide) emitted
  have terminates := (means [2]).1 12 [2, 1] ⟨⟨2, 12⟩, #[44, 0], 1, 10⟩ (by decide +kernel)
  obtain ⟨enough, clean⟩ := (means [2]).2 _ _ _ terminates
  refine ⟨_, program, emitted, read, terminates, enough, fun fuel fits => ?_⟩
  obtain ⟨head, used, _, run⟩ := clean fuel fits
  exact congrArg Prod.fst run

end Programs

end TapeC
