import Mathlib.Data.List.Basic
import TapeC.Proofs.Covering
import TapeC.Proofs.PeepholeRules
import TapeC.Proofs.UnitCode

namespace TapeC

namespace Block

/-- Unit moves that add up to a count. -/
def walk (count : Int32) : Block := times (.move (stride count)) rfl count.toInt.natAbs

/-- Unit adjustments that add up to a count. -/
def tally (count : Int32) : Block := times (.adjust (stride count)) rfl count.toInt.natAbs

/-- A loop that counts its cell down to zero. -/
def clearing : Block := .loop (.step (.adjust (-1)) rfl .done) .done

end Block

/-- The unit steps of an instruction that is no loop mark, as a block. -/
def Instr.unfold : (i : Instr) → i.isLoopMark = false → Block
  | .move count, _ => .walk count
  | .adjust count, _ => .tally count
  | .output, unmarked => .step .output unmarked .done
  | .input, unmarked => .step .input unmarked .done
  | .assign value offset, _ =>
    (Block.walk (offset.getD 0)).append
      (Block.clearing.append ((Block.tally value).append (.walk (-offset.getD 0))))

/-- A block with the unit steps of its instructions. -/
def Block.unfold : Block → Block
  | .done => .done
  | .step i unmarked next => (i.unfold unmarked).append next.unfold
  | .loop body next => .loop body.unfold next.unfold

section Nesting

theorem Instr.code_unfold {i : Instr} (unmarked : i.isLoopMark = false) :
    (i.unfold unmarked).code = i.units := by
  have walked : ∀ count, (Block.walk count).code = (Instr.move count).units := by
    intro count
    exact (Block.code_times _ rfl _).trans (units_move count).symm
  have tallied : ∀ count, (Block.tally count).code = (Instr.adjust count).units := by
    intro count
    exact (Block.code_times _ rfl _).trans (units_adjust count).symm
  cases i with
  | move count => exact walked count
  | adjust count => exact tallied count
  | output => rfl
  | input => rfl
  | loopStart => cases unmarked
  | loopEnd => cases unmarked
  | assign value offset =>
    have cleared : Block.clearing.code = [loopStart, adjust (-1), loopEnd] := rfl
    simp only [unfold, Block.code_append, walked, tallied, cleared, units_assign,
      List.append_assoc]

/-- Unit code nests as the code does, with every block unfolded. -/
theorem Code.nest_units (code : Code) :
    Code.nest (code.flatMap Instr.units) =
      code.nest.map fun (block, outer) => (block.unfold, outer.map Block.unfold) := by
  induction code with
  | nil => rfl
  | cons i rest ih =>
    rw [List.flatMap_cons]
    by_cases unmarked : i.isLoopMark = false
    · rw [← Instr.code_unfold unmarked, Block.nest_code_append, ih, nest_cons_unmarked unmarked,
        Option.map_map, Option.map_map]
      rfl
    · cases i with
      | loopStart =>
        change (Code.nest (rest.flatMap Instr.units)).bind _ = ((Code.nest rest).bind _).map _
        rw [ih]
        cases Code.nest rest with
        | none => rfl
        | some nested =>
          obtain ⟨block, outer⟩ := nested
          cases outer <;> rfl
      | loopEnd =>
        change (Code.nest (rest.flatMap Instr.units)).bind _ = ((Code.nest rest).bind _).map _
        rw [ih]
        cases Code.nest rest <;> rfl
      | _ => exact absurd rfl unmarked

theorem Code.block?_units (code : Code) :
    Code.block? (code.flatMap Instr.units) = code.block?.map Block.unfold := by
  unfold block?
  rw [nest_units]
  cases code.nest with
  | none => rfl
  | some nested =>
    obtain ⟨block, outer⟩ := nested
    cases outer <;> rfl

end Nesting

section Steps

variable {size : Nat}

theorem Block.times_move_ends {unit : Int32} (hunit : unit.toInt = 1 ∨ unit.toInt = -1)
    (count : Nat) {s : Store size} {place : Fin size}
    (h : (s.head : Int) + count * unit.toInt = place) :
    (times (.move unit) rfl count).Ends s (.finished { s with head := place }) := by
  induction count generalizing s with
  | zero =>
    have hp : s.head = place := Fin.ext (by omega)
    subst hp
    exact ⟨0, .done⟩
  | succ count ih =>
    have hhead := s.head.isLt
    have hplace := place.isLt
    -- The next place lies between the head and the end of the walk.
    have between : 0 ≤ (s.head : Int) + unit.toInt ∧ (s.head : Int) + unit.toInt < size := by
      rcases hunit with hu | hu
      · rw [hu] at h ⊢
        omega
      · rw [hu] at h ⊢
        omega
    let next : Fin size := ⟨((s.head : Int) + unit.toInt).toNat, by omega⟩
    have hnext : (next : Int) = s.head + unit.toInt := Int.toNat_of_nonneg between.1
    have hp : s.perform (.move unit) = .ok { s with head := next } :=
      Store.perform_move_eq_ok_iff.mpr ⟨hnext.symm, rfl⟩
    have hrest : (next : Int) + count * unit.toInt = place := by
      rw [strides_succ] at h
      omega
    obtain ⟨n, hn⟩ := ih (s := { s with head := next }) hrest
    exact ⟨_, .step hp hn⟩

theorem Block.times_move_escapes (unit : Int32) (count : Nat) {s : Store size}
    (h : ¬(0 ≤ (s.head : Int) + count * unit.toInt ∧
      (s.head : Int) + count * unit.toInt < size)) :
    ∃ place t, (times (.move unit) rfl count).Ends s (.escaped place t) := by
  induction count generalizing s with
  | zero =>
    have hhead := s.head.isLt
    exact absurd ⟨by omega, by omega⟩ h
  | succ count ih =>
    cases hp : s.perform (.move unit) with
    | error place => exact ⟨place, s, 1, .escape hp⟩
    | ok t =>
      have hhead := (Store.perform_move_eq_ok_iff.mp hp).1
      rw [strides_succ, ← Int.add_assoc, hhead] at h
      obtain ⟨place, u, n, hn⟩ := ih h
      exact ⟨place, u, _, .step hp hn⟩

theorem Block.walk_ends {s : Store size} {count : Int32} {place : Fin size}
    (h : s.place count = .ok place) :
    (walk count).Ends s (.finished { s with head := place }) := by
  have hplace := Store.place_eq_ok_iff.mp h
  rw [toInt_eq_strides] at hplace
  exact times_move_ends ((stride_toInt count).imp And.right And.right) _ hplace

theorem Block.walk_escapes {s : Store size} {count : Int32} {off : Int}
    (h : s.place count = .error off) : ∃ place t, (walk count).Ends s (.escaped place t) := by
  have outside := Store.outside_of_place_eq_error h
  rw [toInt_eq_strides] at outside
  exact times_move_escapes _ _ outside

theorem Block.times_adjust_ends (unit : Int32) (count : Nat) (s : Store size) :
    (times (.adjust unit) rfl count).Ends s
      (.finished (s.write s.head (s.cell + lowByte (Int32.ofInt (count * unit.toInt))))) := by
  induction count generalizing s with
  | zero =>
    have hz : lowByte (Int32.ofInt (((0 : Nat) : Int) * unit.toInt)) = 0 := by
      rw [Int.natCast_zero, Int.zero_mul]
      rfl
    rw [hz, UInt8.add_zero, Store.write_cell]
    exact ⟨0, .done⟩
  | succ count ih =>
    have hsum : lowByte (Int32.ofInt (((count + 1 : Nat) : Int) * unit.toInt)) =
        lowByte unit + lowByte (Int32.ofInt (count * unit.toInt)) := by
      rw [← lowByte_add, strides_succ, Int32.ofInt_add, Int32.ofInt_toInt]
    obtain ⟨n, hn⟩ := ih (s.write s.head (s.cell + lowByte unit))
    have hhead : (s.write s.head (s.cell + lowByte unit)).head = s.head := rfl
    rw [hhead, Store.cell_write, Store.write_write, UInt8.add_assoc, ← hsum] at hn
    exact ⟨_, .step (s.perform_adjust unit) hn⟩

theorem Block.tally_ends (count : Int32) (s : Store size) :
    (tally count).Ends s (.finished (s.write s.head (s.cell + lowByte count))) := by
  have h := times_adjust_ends (stride count) count.toInt.natAbs s
  rw [← toInt_eq_strides, Int32.ofInt_toInt] at h
  exact h

theorem Block.clearing_ends (s : Store size) :
    clearing.Ends s (.finished (s.write s.head 0)) := by
  have down : Peephole.isZeroStep false (-1) = true := by decide
  obtain ⟨rounds, hz⟩ := zeroStep_rounds down s.cell
  exact adjust_loop_runs rounds hz .done

/-- A walk to a place of the tape can be walked back. -/
theorem Store.place_back (short : size ≤ 0x80000000) {s t : Store size} {offset : Int32}
    (h : s.place offset = .ok t.head) : t.place (-offset) = .ok s.head := by
  have hs := s.head.isLt
  have ht := t.head.isLt
  have hp := place_eq_ok_iff.mp h
  have hneg : (-offset).toInt = -offset.toInt := by
    rw [Int32.toInt_neg, Int.bmod_eq_of_le] <;> omega
  refine place_eq_ok_iff.mpr ?_
  rw [hneg]
  omega

theorem Block.assign_unfold_ends (short : size ≤ 0x80000000) {s : Store size}
    (value : Int32) {offset : Option Int32} {place : Fin size}
    (h : s.place (offset.getD 0) = .ok place) :
    ((Instr.assign value offset).unfold rfl).Ends s (.finished (s.write place (lowByte value))) := by
  let there : Store size := { s with head := place }
  have walked : (walk (offset.getD 0)).Ends s (.finished there) := walk_ends h
  have cleared : clearing.Ends there (.finished (there.write place 0)) := clearing_ends there
  have counted : (tally value).Ends (there.write place 0)
      (.finished (there.write place (lowByte value))) := by
    have ends := tally_ends value (there.write place 0)
    have cell : (there.write place 0).cell = 0 := there.cell_write 0
    have twice := there.write_write 0 (lowByte value)
    rw [cell, UInt8.zero_add] at ends
    exact twice ▸ ends
  have back : (walk (-offset.getD 0)).Ends (there.write place (lowByte value))
      (.finished (s.write place (lowByte value))) :=
    walk_ends (Store.place_back short h)
  exact walked.append (cleared.append (counted.append back))

/-- The unit steps of an instruction do what it does. -/
theorem Instr.unfold_performs (short : size ≤ 0x80000000) {i : Instr}
    (unmarked : i.isLoopMark = false) : (i.unfold unmarked).Performs size i := by
  intro s
  cases i with
  | move count =>
    simp only [Store.perform]
    cases h : s.place count with
    | ok place => exact Block.walk_ends h
    | error off => exact Block.walk_escapes h
  | adjust count => exact Block.tally_ends count s
  | output => exact ⟨1, .step rfl .done⟩
  | input => exact ⟨1, .step rfl .done⟩
  | loopStart => cases unmarked
  | loopEnd => cases unmarked
  | assign value offset =>
    simp only [Store.perform]
    cases h : s.place (offset.getD 0) with
    | ok place => exact Block.assign_unfold_ends short value h
    | error off =>
      obtain ⟨place, t, escapes⟩ := Block.walk_escapes h
      exact ⟨place, t, escapes.append rfl⟩

theorem Block.covers_unfold (short : size ≤ 0x80000000) (block : Block) :
    block.Covers size block.unfold ∧ block.unfold.Covers size block := by
  induction block with
  | done => exact ⟨.done, .done⟩
  | step i unmarked next ih =>
    have performs := Instr.unfold_performs short unmarked
    exact ⟨performs.covers unmarked ih.1, performs.covered unmarked ih.2⟩
  | loop body next ihb ihn => exact ⟨.loop ihb.1 ihn.1, .loop ihb.2 ihn.2⟩

theorem Code.covers_units (short : size ≤ 0x80000000) (code : Code) :
    code.Covers size (code.flatMap Instr.units) ∧
      Code.Covers size (code.flatMap Instr.units) code := by
  constructor
  · intro block hb
    exact ⟨block.unfold, by rw [block?_units, hb]; rfl, (block.covers_unfold short).1⟩
  · intro unfolded hu
    rw [block?_units] at hu
    obtain ⟨block, hb, rfl⟩ := Option.map_eq_some_iff.mp hu
    exact ⟨block, hb, (block.covers_unfold short).2⟩

end Steps

/-- Code and its source text read again have the same clean runs, which end with the same tape and
the same head, and leave the tape on the same inputs. -/
theorem decompile_preserves_runs (code : Code) (input : List UInt8) (size : Nat)
    (positive : 0 < size) (short : size ≤ 0x80000000) :
    (∀ out,
      (∃ fuel, ((Machine.new ⟨size, fuel⟩).run code input).1 = .ok out) ↔
        ∃ fuel, ((Machine.new ⟨size, fuel⟩).run (.ofSource code.toSource) input).1 = .ok out) ∧
    (∀ fuel more out result,
      ((Machine.new ⟨size, fuel⟩).run code input).1 = .ok out →
      ((Machine.new ⟨size, more⟩).run (.ofSource code.toSource) input).1 = .ok result →
        ((Machine.new ⟨size, more⟩).run (.ofSource code.toSource) input).2.tape =
            ((Machine.new ⟨size, fuel⟩).run code input).2.tape ∧
          ((Machine.new ⟨size, more⟩).run (.ofSource code.toSource) input).2.head =
            ((Machine.new ⟨size, fuel⟩).run code input).2.head) ∧
    ((∃ fuel place cells,
        ((Machine.new ⟨size, fuel⟩).run code input).1 = .error (.outOfBounds place cells)) ↔
      ∃ fuel place cells,
        ((Machine.new ⟨size, fuel⟩).run (.ofSource code.toSource) input).1 =
          .error (.outOfBounds place cells)) := by
  obtain ⟨there, back⟩ := Code.covers_units short code
  rw [Code.ofSource_toSource]
  refine ⟨fun out => ⟨?_, ?_⟩, ?_, ?_, ?_⟩
  · rintro ⟨fuel, clean⟩
    exact Machine.ok_of_covers positive there clean
  · rintro ⟨fuel, clean⟩
    exact Machine.ok_of_covers positive back clean
  · intro fuel more out result clean clean'
    exact Machine.same_of_covers positive there clean clean'
  · rintro ⟨fuel, place, cells, leaves⟩
    exact Machine.escaped_of_covers positive there leaves
  · rintro ⟨fuel, place, cells, leaves⟩
    exact Machine.escaped_of_covers positive back leaves

/-- An assignment to the left of the head with steps to a negative value, and one off the tape. -/
theorem decompile_preserves_runs_excursion :
    let code : Code := [.move 2, .adjust 0, .assign (-3) (some (-1)), .move (-1), .output, .input]
    let off : Code := [.assign 1 (some 5), .output]
    (0 < 3 ∧ 3 ≤ 0x80000000) ∧
      (∃ fuel, ((Machine.new ⟨3, fuel⟩).run (.ofSource code.toSource) []).1 = .ok [253]) ∧
      (∀ fuel, ((Machine.new ⟨3, fuel⟩).run (.ofSource code.toSource) []).1 = .ok [253] →
        ((Machine.new ⟨3, fuel⟩).run (.ofSource code.toSource) []).2.tape = #[0, 255, 0] ∧
          ((Machine.new ⟨3, fuel⟩).run (.ofSource code.toSource) []).2.head = 1) ∧
      ∃ fuel place cells, ((Machine.new ⟨3, fuel⟩).run (.ofSource off.toSource) []).1 =
        .error (.outOfBounds place cells) := by
  intro code off
  obtain ⟨clean, same, _⟩ := decompile_preserves_runs code [] 3 (by decide) (by decide)
  obtain ⟨_, _, leaves⟩ := decompile_preserves_runs off [] 3 (by decide) (by decide)
  have run : (Machine.new ⟨3, 6⟩).run code [] = (.ok [253], ⟨⟨3, 6⟩, #[0, 255, 0], 1, 6⟩) := by
    decide +kernel
  have run_off : ((Machine.new ⟨3, 1⟩).run off []).1 = .error (.outOfBounds 5 3) := by
    decide +kernel
  have first := congrArg Prod.fst run
  refine ⟨⟨by decide, by decide⟩, (clean _).mp ⟨6, first⟩, ?_, leaves.mp ⟨1, 5, 3, run_off⟩⟩
  intro fuel again
  have ends := same 6 fuel _ _ first again
  rw [run] at ends
  exact ends

end TapeC
