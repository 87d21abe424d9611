import TapeC.Proofs.Refinement
import TapeC.Proofs.Rewriting

namespace TapeC

open Peephole

theorem lowByte_wrapCell (count : Int32) : lowByte (wrapCell count) = lowByte count := by
  apply UInt8.toBitVec_inj.mp
  simp only [lowByte, wrapCell, UInt32.toBitVec_toUInt8, Int32.toBitVec_toUInt32,
    Int8.toBitVec_toInt32, Int32.toBitVec_toInt8]
  ext i hi
  have hw : i < 32 := by omega
  simp [BitVec.getElem_signExtend, hi, hw]

theorem lowByte_add (a b : Int32) : lowByte (a + b) = lowByte a + lowByte b := by
  simp [lowByte]

theorem lowByte_sumAdjusts (p : Peephole) (a b : Int32) :
    lowByte (p.sumAdjusts a b) = lowByte a + lowByte b := by
  unfold sumAdjusts
  split
  next => rw [lowByte_wrapCell, lowByte_add]
  next => exact lowByte_add a b

namespace Store

variable {size : Nat}

/-- On a tape that a signed word can address, two moves inside it have an exact sum. -/
theorem perform_move_add (short : size ≤ 0x80000000) {s t u : Store size} {a b : Int32}
    (ht : s.perform (.move a) = .ok t) (hu : t.perform (.move b) = .ok u) :
    s.perform (.move (a + b)) = .ok u := by
  obtain ⟨ha, ht⟩ := perform_move_eq_ok_iff.mp ht
  obtain ⟨hb, hu⟩ := perform_move_eq_ok_iff.mp hu
  have hs := s.head.isLt
  have hl := u.head.isLt
  have exact_sum : (a + b).toInt = a.toInt + b.toInt := by
    rw [Int32.toInt_add, Int.bmod_eq_of_le] <;> omega
  refine perform_move_eq_ok_iff.mpr ⟨by omega, ?_⟩
  rw [hu, ht]

theorem perform_adjust_sum (p : Peephole) {s t u : Store size} {a b : Int32}
    (ht : s.perform (.adjust a) = .ok t) (hu : t.perform (.adjust b) = .ok u) :
    s.perform (.adjust (p.sumAdjusts a b)) = .ok u := by
  cases ht
  cases hu
  have hh : (s.write s.head (s.cell + lowByte a)).head = s.head := rfl
  rw [perform_adjust, hh, cell_write, write_write, lowByte_sumAdjusts, UInt8.add_assoc]

end Store

namespace Block

variable {size : Nat}

theorem Refines.moves (short : size ≤ 0x80000000) (a b : Int32) {ha hb hs} (next : Block) :
    Refines size (.step (.move a) ha (.step (.move b) hb next))
      (.step (.move (a + b)) hs next) :=
  .merge next fun _ _ _ => Store.perform_move_add short

theorem Refines.adjusts (p : Peephole) (a b : Int32) {ha hb hs} (next : Block) :
    Refines size (.step (.adjust a) ha (.step (.adjust b) hb next))
      (.step (.adjust (p.sumAdjusts a b)) hs next) :=
  .merge next fun _ _ _ => Store.perform_adjust_sum p

/-- A loop over one adjustment does what follows it with the cell at zero. -/
theorem runs_next_of_adjust_loop {count : Int32} {ha} {next : Block} {s : Store size} {n : Nat}
    {r : Outcome size} (h : (Block.loop (.step (.adjust count) ha .done) next).Runs s n r) :
    ∃ m, m + 1 ≤ n ∧ next.Runs (s.write s.head 0) m r := by
  induction h using Runs.loop_induction with
  | @skip s n r hz hrun =>
    refine ⟨n, Nat.le_refl _, ?_⟩
    rw [← hz, Store.write_cell]
    exact hrun
  | again hz hbody _ ih =>
    cases hbody with
    | step hp hdone =>
      cases hp
      cases hdone
      obtain ⟨m, hm, hrun⟩ := ih
      refine ⟨m, by omega, ?_⟩
      exact Store.write_write _ _ _ ▸ hrun
  | escapeBody hz hbody =>
    cases hbody with
    | step hp hdone => cases hdone
    | escape hp => cases hp

/-- A loop over one adjustment ends if some number of adjustments takes the cell to zero. -/
theorem adjust_loop_runs {count : Int32} {ha} {next : Block} {n : Nat} {r : Outcome size}
    (rounds : Nat) {s : Store size} (h : s.cell + UInt8.ofNat rounds * lowByte count = 0)
    (hn : next.Runs (s.write s.head 0) n r) :
    ∃ m, (Block.loop (.step (.adjust count) ha .done) next).Runs s m r := by
  induction rounds generalizing s with
  | zero =>
    have hz : s.cell = 0 := by simpa using h
    rw [← hz, Store.write_cell] at hn
    exact ⟨n + 1, .skip hz hn⟩
  | succ rounds ih =>
    by_cases hz : s.cell = 0
    · rw [← hz, Store.write_cell] at hn
      exact ⟨n + 1, .skip hz hn⟩
    · have hcell : (s.write s.head (s.cell + lowByte count)).cell +
          UInt8.ofNat rounds * lowByte count = 0 := by
        rw [Store.cell_write, ← h, UInt8.ofNat_add, UInt8.add_mul, UInt8.add_assoc]
        simp [UInt8.add_comm]
      have hnext : next.Runs ((s.write s.head (s.cell + lowByte count)).write s.head 0) n r := by
        rw [Store.write_write]
        exact hn
      obtain ⟨m, hm⟩ := ih hcell hnext
      exact ⟨_, .again hz (.step (s.perform_adjust count) .done) hm⟩

theorem zeroStep_rounds {acceptsIncrement : Bool} {count : Int32}
    (h : isZeroStep acceptsIncrement count = true) (byte : UInt8) :
    ∃ rounds, byte + UInt8.ofNat rounds * lowByte count = 0 := by
  have hcount : count = -1 ∨ count = 1 := by
    simp only [isZeroStep, Bool.or_eq_true, beq_iff_eq, Bool.and_eq_true] at h
    exact h.imp_right And.right
  rcases hcount with rfl | rfl
  · have hb : lowByte (-1) = -1 := by decide
    refine ⟨byte.toNat, ?_⟩
    rw [hb, UInt8.ofNat_toNat, UInt8.mul_neg, UInt8.mul_one, UInt8.add_right_neg]
  · have hb : lowByte 1 = 1 := by decide
    refine ⟨(-byte).toNat, ?_⟩
    rw [hb, UInt8.ofNat_toNat, UInt8.mul_one, UInt8.add_right_neg]

theorem Refines.zeroIdiom {acceptsIncrement : Bool} {count : Int32}
    (h : isZeroStep acceptsIncrement count = true) {ha hc} (next : Block) :
    Refines size (.loop (.step (.adjust count) ha .done) next) (.step .clear hc next) := by
  constructor
  · intro s t n hr
    obtain ⟨m, hm, hrun⟩ := runs_next_of_adjust_loop hr
    exact ⟨m + 1, hm, .step s.perform_clear hrun⟩
  · intro s n r hr
    cases hr with
    | step hp hrun =>
      cases hp.symm.trans s.perform_clear
      obtain ⟨rounds, hz⟩ := zeroStep_rounds h s.cell
      obtain ⟨m, hm⟩ := adjust_loop_runs rounds hz hrun
      exact ⟨m, r, hm, .inl rfl⟩
    | escape hp => cases hp.symm.trans s.perform_clear

end Block

end TapeC
