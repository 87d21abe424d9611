import TapeC.Machine

namespace TapeC

/-- A tape of some size with its head on one of its cells, the input not yet read and the output so
far. -/
structure Store (size : Nat) where
  cells : Vector UInt8 size
  head : Fin size
  input : List UInt8
  output : Array UInt8

namespace Store

variable {size : Nat}

/-- The cell under the head. -/
def cell (s : Store size) : UInt8 := s.cells[s.head]

def write (s : Store size) (place : Fin size) (byte : UInt8) : Store size :=
  { s with cells := s.cells.set place byte }

/-- The place at an offset from the head, or how far off the tape it is. -/
def place (s : Store size) (offset : Int32) : Except Int (Fin size) :=
  let place := (s.head : Int) + offset.toInt
  if h : 0 ≤ place ∧ place < size then .ok ⟨place.toNat, by omega⟩ else .error place

/-- The effect of an instruction on the data, or the place off the tape that it asks for. Loop marks
have none. -/
def perform (s : Store size) : Instr → Except Int (Store size)
  | .move count =>
    match s.place count with
    | .ok place => .ok { s with head := place }
    | .error place => .error place
  | .adjust count => .ok (s.write s.head (s.cell + lowByte count))
  | .output => .ok { s with output := s.output.push s.cell }
  | .input => .ok { s.write s.head (s.input.headD endOfInput) with input := s.input.tail }
  | .loopStart => .ok s
  | .loopEnd => .ok s
  | .assign value offset =>
    match s.place (offset.getD 0) with
    | .ok place => .ok (s.write place (lowByte value))
    | .error place => .error place

/-- The data as the state of a run at a position. -/
def state (s : Store size) (position : Nat) : State :=
  ⟨position, s.cells.toArray, s.head, s.input, s.output⟩

/-- Zeros everywhere, the head on the first cell. -/
def initial (size : Nat) (positive : 0 < size) (input : List UInt8) : Store size :=
  ⟨Vector.replicate size 0, ⟨0, positive⟩, input, #[]⟩

theorem place_eq_ok_iff {s : Store size} {offset : Int32} {place : Fin size} :
    s.place offset = .ok place ↔ (s.head : Int) + offset.toInt = place := by
  simp only [Store.place]
  split
  next h =>
    constructor
    · intro he
      cases he
      simp only
      omega
    · intro he
      congr 1
      apply Fin.ext
      simp only
      omega
  next h =>
    constructor
    · intro he
      cases he
    · intro he
      have := place.isLt
      exact absurd ⟨by omega, by omega⟩ h

theorem outside_of_place_eq_error {s : Store size} {offset : Int32} {place : Int}
    (h : s.place offset = .error place) :
    ¬(0 ≤ (s.head : Int) + offset.toInt ∧ (s.head : Int) + offset.toInt < size) := by
  simp only [Store.place] at h
  split at h
  next => cases h
  next outside => exact outside

theorem perform_move_eq_ok_iff {s t : Store size} {count : Int32} :
    s.perform (.move count) = .ok t ↔
      (s.head : Int) + count.toInt = t.head ∧ t = { s with head := t.head } := by
  simp only [perform]
  cases hp : s.place count with
  | ok place =>
    have hh := place_eq_ok_iff.mp hp
    constructor
    · intro h
      cases h
      exact ⟨hh, rfl⟩
    · rintro ⟨h, ht⟩
      have : t.head = place := Fin.ext (by omega)
      rw [ht, this]
  | error place =>
    constructor
    · intro h
      cases h
    · rintro ⟨h, _⟩
      rw [place_eq_ok_iff.mpr h] at hp
      cases hp

theorem perform_move_zero (s : Store size) : s.perform (.move 0) = .ok s :=
  perform_move_eq_ok_iff.mpr ⟨by simp, rfl⟩

theorem cell_write (s : Store size) (byte : UInt8) : (s.write s.head byte).cell = byte := by
  simp [cell, write]

theorem write_write (s : Store size) (byte other : UInt8) :
    (s.write s.head byte).write s.head other = s.write s.head other := by
  simp [write]

theorem write_cell (s : Store size) : s.write s.head s.cell = s := by
  simp [cell, write]

theorem perform_adjust (s : Store size) (count : Int32) :
    s.perform (.adjust count) = .ok (s.write s.head (s.cell + lowByte count)) := rfl

theorem perform_adjust_zero (s : Store size) : s.perform (.adjust 0) = .ok s := by
  have hz : lowByte 0 = 0 := by decide
  rw [perform_adjust, hz, UInt8.add_zero, write_cell]

theorem perform_clear (s : Store size) : s.perform .clear = .ok (s.write s.head 0) := by
  have hp : s.place 0 = .ok s.head := place_eq_ok_iff.mpr (by simp)
  have hz : lowByte 0 = 0 := by decide
  simp [Instr.clear, perform, hp, hz]

theorem state_cell (s : Store size) (position : Nat) :
    (s.state position).tape[(s.state position).head]? = some s.cell := by
  simp [state, cell]

theorem write_cells (s : Store size) (place : Fin size) (byte : UInt8) :
    (s.write place byte).cells.toArray = s.cells.toArray.setIfInBounds place byte := by
  simp [write, Array.setIfInBounds]

theorem state_cellAt (s : Store size) (position : Nat) (offset : Int32) :
    (s.state position).cellAt offset =
      match s.place offset with
      | .ok place => .ok place
      | .error place => .error (.outOfBounds place) := by
  unfold State.cellAt place
  simp only [state, Vector.size_toArray]
  split
  next => simp
  next => simp

/-- A machine step at an instruction that is no loop mark: its effect, and one position on. -/
theorem step_state {i : Instr} (unmarked : i.isLoopMark = false) (s : Store size)
    (partners : Array Nat) (position : Nat) :
    (s.state position).step partners i =
      match s.perform i with
      | .ok next => .ok (next.state (position + 1))
      | .error place => .error (.outOfBounds place) := by
  have hcell := s.state_cell position
  cases i with
  | move count =>
    simp only [State.step, perform, state_cellAt]
    cases s.place count <;> rfl
  | adjust count =>
    simp only [State.step, perform, hcell]
    simp only [state, write_cells]
    rfl
  | output =>
    simp only [State.step, perform, hcell]
    rfl
  | input =>
    have bound : (s.state position).head < (s.state position).tape.size := by simp [state]
    simp only [State.step, perform, if_pos bound]
    simp only [state, write_cells]
    rfl
  | loopStart => cases unmarked
  | loopEnd => cases unmarked
  | assign value offset =>
    simp only [State.step, perform, state_cellAt]
    cases s.place (offset.getD 0) with
    | ok place =>
      simp only [state, write_cells]
      rfl
    | error place => rfl

end Store

end TapeC
