import Mathlib.Algebra.Ring.Int.Defs
import TapeC.Proofs.Rewriting
import TapeC.Proofs.UnitCode

namespace TapeC.Peephole

/-- How a scan counts: the instruction of a count, and the reduction of sums. A sum that reduces to
zero leaves nothing. -/
structure Counting (count? : Instr → Option Int32) (merge : Int32 → Int32 → Option Instr) where
  make : Int32 → Instr
  reduce : Int32 → Int32
  count_make : ∀ a, count? (make a) = some a
  eq_make : ∀ {i a}, count? i = some a → i = make a
  merge_eq : ∀ a b,
    merge a b = if reduce (a + b) = 0 then none else some (make (reduce (a + b)))
  reduce_add : ∀ a b, reduce (reduce a + b) = reduce (a + b)
  reduce_stride : ∀ a, reduce (stride a) = stride a

theorem wrapCell_add (a b : Int32) : wrapCell (wrapCell a + b) = wrapCell (a + b) := by
  simp [wrapCell]

theorem toInt_wrapCell (a : Int32) : (wrapCell a).toInt = a.toInt.bmod 256 := by
  simp [wrapCell]

theorem wrapCell_eq_self_iff {a : Int32} : wrapCell a = a ↔ -128 ≤ a ∧ a ≤ 127 := by
  have least : (-128 : Int32).toInt = -128 := by decide
  have greatest : (127 : Int32).toInt = 127 := by decide
  rw [← Int32.toInt_inj, toInt_wrapCell, Int32.le_iff_toInt_le, Int32.le_iff_toInt_le, least,
    greatest]
  constructor
  · intro h
    have lower := Int.le_bmod (x := a.toInt) (m := 256) (by decide)
    have upper := Int.bmod_lt (x := a.toInt) (m := 256) (by decide)
    omega
  · rintro ⟨lower, upper⟩
    rw [Int.bmod_eq_of_le] <;> omega

/-- Moves are counted by words. -/
def movesCounting : Counting Instr.moveCount? (fun a b => Instr.move? (a + b)) where
  make := .move
  reduce := id
  count_make _ := rfl
  eq_make := eq_move_of_moveCount?
  merge_eq _ _ := rfl
  reduce_add _ _ := rfl
  reduce_stride _ := rfl

/-- Adjustments are counted by words, or by signed bytes if cells wrap. -/
def adjustsCounting (wrapCells : Bool) :
    Counting Instr.adjustCount?
      (fun a b => Instr.adjust? (if wrapCells then wrapCell (a + b) else a + b)) where
  make := .adjust
  reduce a := if wrapCells then wrapCell a else a
  count_make _ := rfl
  eq_make := eq_adjust_of_adjustCount?
  merge_eq _ _ := rfl
  reduce_add a b := by
    cases wrapCells with
    | true => exact wrapCell_add a b
    | false => rfl
  reduce_stride a := by
    rcases stride_cases a with ⟨_, hs⟩ | ⟨_, hs⟩
    · rw [hs]
      cases wrapCells <;> rfl
    · rw [hs]
      cases wrapCells <;> rfl

section Scan

variable {count? : Instr → Option Int32} {merge : Int32 → Int32 → Option Instr}

theorem mergeRuns_some (i : Instr) (code : Code) :
    mergeRuns count? merge (some i) code = mergeRuns count? merge none (i :: code) := rfl

theorem mergeRuns_eq_none (held : Option Instr) (code : Code) :
    mergeRuns count? merge held code = mergeRuns count? merge none (held.toList ++ code) := by
  cases held <;> rfl

theorem mergeRuns_uncounted {i : Instr} (h : count? i = none) (rest : Code) :
    mergeRuns count? merge none (i :: rest) = i :: mergeRuns count? merge none rest := by
  rw [← mergeRuns_some]
  cases rest with
  | nil => rfl
  | cons j rest => simp [mergeRuns, h]

theorem mergeRuns_before_uncounted {i j : Instr} (h : count? j = none) (rest : Code) :
    mergeRuns count? merge none (i :: j :: rest) =
      i :: mergeRuns count? merge none (j :: rest) := by
  rw [← mergeRuns_some, ← mergeRuns_some, mergeRuns]
  simp [h]

theorem mergeRuns_counted {i j : Instr} {a b : Int32} (hi : count? i = some a)
    (hj : count? j = some b) (rest : Code) :
    mergeRuns count? merge none (i :: j :: rest) = mergeRuns count? merge (merge a b) rest := by
  rw [← mergeRuns_some, mergeRuns]
  simp [hi, hj]

/-- What is held back is passed on if it has no count. -/
theorem mergeRuns_flush {held : Option Instr} (h : held.bind count? = none) (code : Code) :
    mergeRuns count? merge held code = held.toList ++ mergeRuns count? merge none code := by
  cases held with
  | none => rfl
  | some i => exact mergeRuns_uncounted h code

/-- What is held back is passed on before an instruction without a count. -/
theorem mergeRuns_held_uncounted (held : Option Instr) {i : Instr} (h : count? i = none)
    (rest : Code) :
    mergeRuns count? merge held (i :: rest) =
      held.toList ++ i :: mergeRuns count? merge none rest := by
  cases held with
  | none => exact mergeRuns_uncounted h rest
  | some j =>
    rw [mergeRuns_some, mergeRuns_before_uncounted h, mergeRuns_uncounted h]
    rfl

theorem mergeRuns_uncounted_append {part : Code} (h : ∀ i ∈ part, count? i = none) (rest : Code) :
    mergeRuns count? merge none (part ++ rest) = part ++ mergeRuns count? merge none rest := by
  induction part with
  | nil => rfl
  | cons i part ih =>
    obtain ⟨hi, later⟩ := List.forall_mem_cons.mp h
    rw [List.cons_append, mergeRuns_uncounted hi, ih later]
    rfl

/-- An instruction without a count divides the scan in two. -/
theorem mergeRuns_append_uncounted (held : Option Instr) (first : Code) {i : Instr}
    (h : count? i = none) (rest : Code) :
    mergeRuns count? merge held (first ++ i :: rest) =
      mergeRuns count? merge held first ++ i :: mergeRuns count? merge none rest := by
  induction first generalizing held with
  | nil => exact mergeRuns_held_uncounted held h rest
  | cons now first ih =>
    rw [List.cons_append, mergeRuns, mergeRuns]
    split
    next a b _ _ => exact ih (merge a b)
    next => rw [ih (some now), List.append_assoc]

theorem mergeRuns_cons_congr {code other : Code}
    (h : ∀ held, mergeRuns count? merge held code = mergeRuns count? merge held other)
    (held : Option Instr) (i : Instr) :
    mergeRuns count? merge held (i :: code) = mergeRuns count? merge held (i :: other) := by
  rw [mergeRuns, mergeRuns]
  split
  next => rw [h]
  next => rw [h]

end Scan

section Units

variable {count? : Instr → Option Int32} {merge : Int32 → Int32 → Option Instr}

namespace Counting

/-- What is held back for a count. -/
def hold (k : Counting count? merge) (a : Int32) : Option Instr :=
  if a = 0 then none else some (k.make a)

theorem hold_of_ne {k : Counting count? merge} {a : Int32} (h : a ≠ 0) :
    k.hold a = some (k.make a) := if_neg h

theorem merge_eq_hold (k : Counting count? merge) (a b : Int32) :
    merge a b = k.hold (k.reduce (a + b)) := k.merge_eq a b

variable (k : Counting count? merge) (rest : Code)

/-- A sum that happens to be zero holds nothing, and the next count starts from itself. -/
theorem mergeRuns_count (a : Int32) {c : Int32} (nonzero : c ≠ 0) (hr : k.reduce c = c) :
    mergeRuns count? merge (k.hold (k.reduce a)) (k.make c :: rest) =
      mergeRuns count? merge (k.hold (k.reduce (a + c))) rest := by
  by_cases hz : k.reduce a = 0
  · have hsum : k.reduce (a + c) = c := by
      rw [← k.reduce_add, hz, Int32.zero_add, hr]
    have empty : k.hold 0 = none := if_pos rfl
    rw [hz, hsum, empty, hold_of_ne nonzero, mergeRuns_some]
  · rw [hold_of_ne hz, mergeRuns_some,
      mergeRuns_counted (k.count_make _) (k.count_make _), k.merge_eq_hold, k.reduce_add]

theorem mergeRuns_counts (a : Int32) {counts : List Int32}
    (valid : ∀ c ∈ counts, c ≠ 0 ∧ k.reduce c = c) :
    mergeRuns count? merge (k.hold (k.reduce a)) (counts.map k.make ++ rest) =
      mergeRuns count? merge
        (k.hold (k.reduce (a + Int32.ofInt (counts.map Int32.toInt).sum))) rest := by
  induction counts generalizing a with
  | nil => simp
  | cons c counts ih =>
    obtain ⟨nonzero, hr⟩ := valid c List.mem_cons_self
    have hrest := ih (a + c) fun d hd => valid d (List.mem_cons_of_mem c hd)
    rw [List.map_cons, List.cons_append, k.mergeRuns_count _ a nonzero hr, hrest, List.map_cons,
      List.sum_cons, Int32.ofInt_add, Int32.ofInt_toInt, Int32.add_assoc]

theorem mergeRuns_replicate (count : Nat) (a : Int32) {unit : Int32} (nonzero : unit ≠ 0)
    (hr : k.reduce unit = unit) :
    mergeRuns count? merge (k.hold (k.reduce a)) (List.replicate count (k.make unit) ++ rest) =
      mergeRuns count? merge (k.hold (k.reduce (a + Int32.ofInt (count * unit.toInt)))) rest := by
  have valid : ∀ c ∈ List.replicate count unit, c ≠ 0 ∧ k.reduce c = c := by
    intro c hc
    rw [List.eq_of_mem_replicate hc]
    exact ⟨nonzero, hr⟩
  have h := k.mergeRuns_counts rest a valid
  rw [List.map_replicate, List.map_replicate, List.sum_replicate_int] at h
  exact h

/-- The unit steps of a count are merged as the count itself. -/
theorem mergeRuns_strides {c : Int32} (nonzero : c ≠ 0) (hr : k.reduce c = c)
    (held : Option Instr) :
    mergeRuns count? merge held
        (List.replicate c.toInt.natAbs (k.make (stride c)) ++ rest) =
      mergeRuns count? merge held (k.make c :: rest) := by
  have hne : c.toInt ≠ 0 := by
    intro h
    exact nonzero (Int32.toInt_inj.mp h)
  obtain ⟨count, hcount⟩ : ∃ count, c.toInt.natAbs = count + 1 :=
    Nat.exists_eq_add_one.mpr (by omega)
  have hunit : stride c ≠ 0 := by
    rcases stride_cases c with ⟨_, hs⟩ | ⟨_, hs⟩
    · rw [hs]
      decide
    · rw [hs]
      decide
  have total : stride c + Int32.ofInt (count * (stride c).toInt) = c := by
    have hsum := congrArg Int32.ofInt (toInt_eq_strides c)
    rw [hcount, strides_succ, Int32.ofInt_toInt, Int32.ofInt_add, Int32.ofInt_toInt] at hsum
    exact hsum.symm
  rw [hcount, List.replicate_succ, List.cons_append]
  cases hh : held.bind count? with
  | some a =>
    obtain ⟨i, rfl, hi⟩ := Option.bind_eq_some_iff.mp hh
    rw [mergeRuns_some, mergeRuns_some, mergeRuns_counted hi (k.count_make _),
      mergeRuns_counted hi (k.count_make _), k.merge_eq_hold, k.merge_eq_hold,
      k.mergeRuns_replicate rest count _ hunit (k.reduce_stride c), Int32.add_assoc, total]
  | none =>
    have first : some (k.make (stride c)) = k.hold (k.reduce (stride c)) := by
      rw [k.reduce_stride, hold_of_ne hunit]
    have last : some (k.make c) = k.hold (k.reduce c) := by
      rw [hr, hold_of_ne nonzero]
    rw [mergeRuns_flush hh, mergeRuns_flush hh, ← mergeRuns_some, ← mergeRuns_some, first, last,
      k.mergeRuns_replicate rest count _ hunit (k.reduce_stride c), total]

end Counting

end Units

section Expansion

variable {count? : Instr → Option Int32} {merge : Int32 → Int32 → Option Instr}

/-- Unit steps of the instructions with a count are merged as the instructions are. -/
theorem Counting.mergeRuns_expand (k : Counting count? merge)
    (units_make : ∀ a,
      (k.make a).units = List.replicate a.toInt.natAbs (k.make (stride a)))
    {code : Code}
    (valid : ∀ i ∈ code, ∀ a, count? i = some a → a ≠ 0 ∧ k.reduce a = a)
    (held : Option Instr) :
    mergeRuns count? merge held (code.flatMap (Instr.expandIf fun i => (count? i).isSome)) =
      mergeRuns count? merge held code := by
  induction code generalizing held with
  | nil => rfl
  | cons i rest ih =>
    have hrest := ih fun j hj => valid j (List.mem_cons_of_mem i hj)
    rw [List.flatMap_cons]
    cases hi : count? i with
    | none =>
      have same : Instr.expandIf (fun i => (count? i).isSome) i = [i] := by
        simp [Instr.expandIf, hi]
      rw [same]
      exact mergeRuns_cons_congr hrest held i
    | some a =>
      obtain ⟨nonzero, hr⟩ := valid i List.mem_cons_self a hi
      have spelt : Instr.expandIf (fun i => (count? i).isSome) i =
          List.replicate a.toInt.natAbs (k.make (stride a)) := by
        rw [Instr.expandIf, hi, ← units_make, ← k.eq_make hi]
        rfl
      rw [spelt, k.mergeRuns_strides _ nonzero hr, ← k.eq_make hi]
      exact mergeRuns_cons_congr hrest held i

/-- Code that a scan passes over whole, and that ends what is held back before it. -/
structure Inert (count? : Instr → Option Int32) (merge : Int32 → Int32 → Option Instr)
    (part : Code) : Prop where
  starts : ∃ first more, part = first :: more ∧ count? first = none
  passes : ∀ rest, mergeRuns count? merge none (part ++ rest) =
    part ++ mergeRuns count? merge none rest

theorem inert_of_uncounted {part : Code} (nonempty : part ≠ [])
    (h : ∀ i ∈ part, count? i = none) : Inert count? merge part := by
  obtain ⟨first, more, rfl⟩ := List.exists_cons_of_ne_nil nonempty
  exact ⟨⟨first, more, rfl, h first List.mem_cons_self⟩, mergeRuns_uncounted_append h⟩

theorem Counting.merge_counted (k : Counting count? merge) {a b : Int32} {i : Instr}
    (h : merge a b = some i) : count? i = some (k.reduce (a + b)) := by
  rw [k.merge_eq] at h
  split at h
  next => cases h
  next =>
    cases h
    exact k.count_make _

/-- Instructions without a count can be spelt out before or after merging. -/
theorem Counting.mergeRuns_flatMap (k : Counting count? merge) {spell : Instr → Code}
    (counted : ∀ {i a}, count? i = some a → spell i = [i]) (held : Option Instr) {code : Code}
    (inert : ∀ i ∈ held.toList ++ code, count? i = none → Inert count? merge (spell i)) :
    mergeRuns count? merge none ((held.toList ++ code).flatMap spell) =
      (mergeRuns count? merge held code).flatMap spell := by
  induction code generalizing held with
  | nil =>
    rw [List.append_nil] at inert ⊢
    cases held with
    | none => rfl
    | some i =>
      cases hi : count? i with
      | some a => simp [counted hi, mergeRuns]
      | none =>
        have passes := (inert i (by simp) hi).passes []
        simpa [mergeRuns] using passes
  | cons now rest ih =>
    rw [mergeRuns]
    split
    next a b ha hb =>
      obtain ⟨i, rfl, hi⟩ := Option.bind_eq_some_iff.mp ha
      have merged : (merge a b).toList.flatMap spell = (merge a b).toList := by
        cases hm : merge a b with
        | none => rfl
        | some j => simp [counted (k.merge_counted hm)]
      have hrest := ih (merge a b) (by
        intro j hj hnone
        rcases List.mem_append.mp hj with hj | hj
        · have hcount := k.merge_counted (Option.mem_toList.mp hj)
          rw [hnone] at hcount
          cases hcount
        · exact inert j (by simp [hj]) hnone)
      rw [List.flatMap_append, merged, ← mergeRuns_eq_none] at hrest
      have spelt : ((some i).toList ++ now :: rest).flatMap spell =
          i :: now :: rest.flatMap spell := by
        simp [counted hi, counted hb]
      rw [spelt, mergeRuns_counted hi hb, hrest]
    next separate =>
      have hrest := ih (some now) fun j hj => inert j (List.mem_append_right _ hj)
      rw [List.flatMap_append, List.flatMap_append, ← hrest]
      cases held with
      | none => rfl
      | some i =>
        cases hi : count? i with
        | none =>
          have passes := (inert i (by simp) hi).passes ((now :: rest).flatMap spell)
          simpa using passes
        | some a =>
          have hnow : count? now = none := by
            cases hb : count? now with
            | none => rfl
            | some b => exact absurd hb (separate a b hi)
          obtain ⟨first, more, hspell, hfirst⟩ := (inert now (by simp) hnow).starts
          simp [counted hi, hspell, mergeRuns_before_uncounted hfirst]

end Expansion

end TapeC.Peephole
