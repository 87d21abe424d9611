import TapeC.Proofs.Balance
import TapeC.Proofs.History

namespace TapeC

/-- Whether a loop goes from one place of code to another: a loop start, balanced code, a loop end. -/
def Code.Spans (code : Code) (i j : Nat) : Prop :=
  ∃ before body after : Code, code = before ++ .loopStart :: (body ++ .loopEnd :: after) ∧
    before.length = i ∧ body.Balanced ∧ i + 1 + body.length = j

theorem Code.Spans.within {code : Code} {i j : Nat} (h : code.Spans i j) (front back : Code) :
    (front ++ code ++ back).Spans (front.length + i) (front.length + j) := by
  obtain ⟨before, body, after, rfl, rfl, balanced, rfl⟩ := h
  refine ⟨front ++ before, body, after ++ back, by simp, by simp, balanced, by omega⟩

/-- Whether a place of code is an end of a loop, the two ends of which have each other in a table. The
code begins at a position of the table. -/
def Code.Paired (code : Code) (table : Array Nat) (position k : Nat) : Prop :=
  ∃ start stop, code.Spans start stop ∧ (k = start ∨ k = stop) ∧
    table[position + start]? = some (position + stop) ∧
    table[position + stop]? = some (position + start)

theorem Code.Paired.within {code front : Code} {table : Array Nat} {position k : Nat}
    (h : code.Paired table (position + front.length) k) (back : Code) :
    (front ++ code ++ back).Paired table position (front.length + k) := by
  obtain ⟨start, stop, spans, here, hstart, hstop⟩ := h
  rw [Nat.add_assoc, Nat.add_assoc] at hstart hstop
  exact ⟨front.length + start, front.length + stop, spans.within front back, by omega, hstart, hstop⟩

theorem Block.Linked.paired {block : Block} {table : Array Nat} {position k : Nat} {i : Instr}
    (h : block.Linked table position) (hk : block.code[k]? = some i) (marked : i.isLoopMark = true) :
    block.code.Paired table position k := by
  induction block generalizing position k with
  | done => simp [Block.code] at hk
  | step first unmarked next ih =>
    cases k with
    | zero =>
      cases Option.some.inj hk
      rw [marked] at unmarked
      cases unmarked
    | succ k =>
      have later : next.code.Paired table (position + [first].length) k := ih h hk
      have whole := later.within []
      rw [List.append_nil, List.length_singleton, Nat.add_comm] at whole
      exact whole
  | loop inner next ihb ihn =>
    obtain ⟨hstart, hstop, hinner, hnext⟩ := h
    have outer : (Block.loop inner next).code.Spans 0 (1 + inner.code.length) :=
      ⟨[], inner.code, next.code, rfl, rfl, Code.balanced_block inner, by omega⟩
    rw [Nat.add_assoc] at hstart hstop
    cases k with
    | zero => exact ⟨0, 1 + inner.code.length, outer, .inl rfl, hstart, hstop⟩
    | succ k =>
      have hk : (inner.code ++ .loopEnd :: next.code)[k]? = some i := hk
      rcases Nat.lt_trichotomy k inner.code.length with inside | rfl | behind
      · rw [List.getElem?_append_left inside] at hk
        have within : inner.code.Paired table (position + [Instr.loopStart].length) k := ihb hinner hk
        have whole := within.within (.loopEnd :: next.code)
        rw [List.length_singleton, Nat.add_comm] at whole
        exact whole
      · exact ⟨0, 1 + inner.code.length, outer, .inr (by omega), hstart, hstop⟩
      · obtain ⟨m, rfl⟩ := Nat.exists_eq_add_of_lt behind
        have hm : next.code[m]? = some i := by
          rw [List.getElem?_append_right (by omega)] at hk
          have shift : inner.code.length + m + 1 - inner.code.length = m + 1 := by omega
          rw [shift] at hk
          exact hk
        have front : (Instr.loopStart :: (inner.code ++ [.loopEnd])).length =
            1 + inner.code.length + 1 := by
          simp only [List.length_cons, List.length_append, List.length_nil]
          omega
        have later : next.code.Paired table
            (position + (Instr.loopStart :: (inner.code ++ [.loopEnd])).length) m := by
          rw [front, ← Nat.add_assoc, ← Nat.add_assoc]
          exact ihn hnext hm
        have whole := later.within []
        have place : 1 + inner.code.length + 1 + m = inner.code.length + m + 1 + 1 := by omega
        have code : Instr.loopStart :: (inner.code ++ [.loopEnd]) ++ next.code ++ [] =
            (Block.loop inner next).code := by
          simp [Block.code]
        rw [front, place, code] at whole
        exact whole

/-- A loop mark of code is the start or the end of a loop, and the table has the place of each of the two
at the other one. -/
theorem Code.exists_spans_of_loopPartners {code : Code} {partners : Array Nat} {k : Nat} {i : Instr}
    (h : code.loopPartners = .ok partners) (hk : code[k]? = some i) (marked : i.isLoopMark = true) :
    ∃ start stop, code.Spans start stop ∧ (k = start ∨ k = stop) ∧
      partners[start]? = some stop ∧ partners[stop]? = some start := by
  obtain ⟨block, hb⟩ := block?_of_loopPartners h
  obtain ⟨table, ht, linked⟩ := loopPartners_of_block? hb
  cases Except.ok.inj (h.symm.trans ht)
  rw [eq_of_block? hb] at hk ⊢
  have paired := linked.paired hk marked
  simp only [Paired, Nat.zero_add] at paired
  exact paired

section Ends

variable {code : Code} {i j : Nat}

theorem Code.Spans.lt (h : code.Spans i j) : i < j := by
  obtain ⟨_, body, _, _, _, _, rfl⟩ := h
  omega

theorem Code.Spans.getElem?_start (h : code.Spans i j) : code[i]? = some .loopStart := by
  obtain ⟨before, body, after, rfl, rfl, _, _⟩ := h
  simp

theorem Code.Spans.getElem?_stop (h : code.Spans i j) : code[j]? = some .loopEnd := by
  obtain ⟨before, body, after, rfl, rfl, _, rfl⟩ := h
  have place : before.length + 1 + body.length - before.length = body.length + 1 := by omega
  rw [List.getElem?_append_right (by omega), place, List.getElem?_cons_succ]
  simp

/-- The code behind the start of a loop begins with the loop's body and its end. -/
theorem Code.Spans.drop_start (h : code.Spans i j) :
    ∃ body after : Code, code.drop (i + 1) = body ++ .loopEnd :: after ∧ body.Balanced ∧
      i + 1 + body.length = j := by
  obtain ⟨before, body, after, rfl, rfl, balanced, hj⟩ := h
  refine ⟨body, after, ?_, balanced, hj⟩
  rw [← List.drop_drop, List.drop_left, List.drop_one, List.tail_cons]

theorem Code.Spans.balanced_extract (h : code.Spans i j) : Balanced (code.extract (i + 1) j) := by
  obtain ⟨body, after, hdrop, balanced, rfl⟩ := h.drop_start
  rw [List.extract_eq_take_drop, hdrop, Nat.add_sub_cancel_left, List.take_left]
  exact balanced

/-- The check stops at a loop end behind balanced code. -/
theorem Code.Balanced.checkLoops_append_loopEnd {body : Code} (h : body.Balanced) (after : Code) :
    checkLoops (body ++ .loopEnd :: after) = .error (.unmatchedEnd body.length) := by
  rw [checkLoops, h.checkLoopsFrom_append, Nat.zero_add]
  rfl

theorem Code.Spans.unique {other : Nat} (h : code.Spans i j) (h' : code.Spans i other) :
    j = other := by
  obtain ⟨body, after, hdrop, balanced, rfl⟩ := h.drop_start
  obtain ⟨body', after', hdrop', balanced', rfl⟩ := h'.drop_start
  have verdict := balanced.checkLoops_append_loopEnd after
  rw [← hdrop, hdrop', balanced'.checkLoops_append_loopEnd after'] at verdict
  injection verdict with error
  injection error with same
  rw [same]

end Ends

section Partners

variable {code : Code} {partners : Array Nat}

theorem Code.spans_of_loopStart {i : Nat} (h : code.loopPartners = .ok partners)
    (hi : code[i]? = some .loopStart) :
    ∃ j, code.Spans i j ∧ partners[i]? = some j ∧ partners[j]? = some i := by
  obtain ⟨start, stop, spans, rfl | rfl, hstart, hstop⟩ := exists_spans_of_loopPartners h hi rfl
  · exact ⟨stop, spans, hstart, hstop⟩
  · cases hi.symm.trans spans.getElem?_stop

theorem Code.spans_of_loopEnd {j : Nat} (h : code.loopPartners = .ok partners)
    (hj : code[j]? = some .loopEnd) :
    ∃ i, code.Spans i j ∧ partners[i]? = some j ∧ partners[j]? = some i := by
  obtain ⟨start, stop, spans, rfl | rfl, hstart, hstop⟩ := exists_spans_of_loopPartners h hj rfl
  · cases hj.symm.trans spans.getElem?_start
  · exact ⟨start, spans, hstart, hstop⟩

theorem Code.Balanced.exists_spans {i : Nat} (h : code.Balanced) (hi : code[i]? = some .loopStart) :
    ∃ j, code.Spans i j := by
  obtain ⟨partners, hp⟩ := loopPartners_eq_ok_iff.mpr (checkLoops_eq_ok_iff_balanced.mpr h)
  obtain ⟨j, spans, _⟩ := spans_of_loopStart hp hi
  exact ⟨j, spans⟩

/-- Of two loops, the one that begins later stands behind the other one or inside it. -/
theorem Code.Spans.behind_or_inside {i i' j j' : Nat} (h : code.Spans i j) (h' : code.Spans i' j')
    (later : i < i') : j < i' ∨ j' < j := by
  rcases Nat.lt_trichotomy i' j with sooner | rfl | behind
  · obtain ⟨before, body, after, rfl, rfl, balanced, rfl⟩ := h
    obtain ⟨m, rfl⟩ := Nat.exists_eq_add_of_lt later
    -- The second loop begins in the body of the first one, which is balanced and so has its end as well.
    have inside : m < body.length := by omega
    have place : before.length + m + 1 - before.length = m + 1 := by omega
    have hm := h'.getElem?_start
    rw [List.getElem?_append_right (by omega), place, List.getElem?_cons_succ,
      List.getElem?_append_left inside] at hm
    obtain ⟨stop, spans⟩ := balanced.exists_spans hm
    obtain ⟨short, _⟩ := List.getElem?_eq_some_iff.mp spans.getElem?_stop
    have spans := spans.within (before ++ [.loopStart]) (.loopEnd :: after)
    have front : (before ++ [Instr.loopStart]).length + m = before.length + m + 1 := by
      rw [List.length_append, List.length_singleton]
      omega
    rw [front, List.length_append, List.length_singleton, List.append_assoc, List.append_assoc] at spans
    have same := h'.unique spans
    omega
  · cases h.getElem?_stop.symm.trans h'.getElem?_start
  · exact .inl behind

end Partners

/-- The table of partners is as long as the code. At a loop start it has the place of a loop end behind
it, and there the place of the loop start; and the other way round at a loop end. The code between the
two passes the loop check by itself. Two different loops stand one behind the other or one inside the
other. -/
theorem partners_pair_loops {code : Code} {partners : Array Nat}
    (linked : code.loopPartners = .ok partners) :
    partners.size = code.length ∧
    (∀ i, code[i]? = some .loopStart →
      ∃ j, partners[i]? = some j ∧ i < j ∧ code[j]? = some .loopEnd ∧ partners[j]? = some i ∧
        Code.checkLoops (code.extract (i + 1) j) = .ok ()) ∧
    (∀ j, code[j]? = some .loopEnd →
      ∃ i, partners[j]? = some i ∧ i < j ∧ code[i]? = some .loopStart ∧ partners[i]? = some j ∧
        Code.checkLoops (code.extract (i + 1) j) = .ok ()) ∧
    (∀ i i' j j' : Nat, code[i]? = some .loopStart → code[i']? = some .loopStart → i ≠ i' →
      partners[i]? = some j → partners[i']? = some j' →
        (j < i' ∨ j' < i) ∨ (i < i' ∧ j' < j ∨ i' < i ∧ j < j')) := by
  refine ⟨?_, fun i hi => ?_, fun j hj => ?_, fun i i' j j' hi hi' different hj hj' => ?_⟩
  · have size := Code.size_of_linkLoops linked
    rwa [Array.size_replicate] at size
  · obtain ⟨j, spans, there, back⟩ := Code.spans_of_loopStart linked hi
    exact ⟨j, there, spans.lt, spans.getElem?_stop, back,
      Code.checkLoops_eq_ok_iff_balanced.mpr spans.balanced_extract⟩
  · obtain ⟨i, spans, there, back⟩ := Code.spans_of_loopEnd linked hj
    exact ⟨i, back, spans.lt, spans.getElem?_start, there,
      Code.checkLoops_eq_ok_iff_balanced.mpr spans.balanced_extract⟩
  · obtain ⟨stop, spans, there, _⟩ := Code.spans_of_loopStart linked hi
    obtain ⟨stop', spans', there', _⟩ := Code.spans_of_loopStart linked hi'
    cases Option.some.inj (hj.symm.trans there)
    cases Option.some.inj (hj'.symm.trans there')
    rcases Nat.lt_or_gt_of_ne different with later | earlier
    · have := spans.behind_or_inside spans' later
      omega
    · have := spans'.behind_or_inside spans earlier
      omega

/-- A loop with two loops in it, the second of which has one more inside. -/
theorem partners_pair_loops_nested :
    let code : Code := [.loopStart, .loopStart, .adjust (-1), .loopEnd, .loopStart, .move 1, .loopStart,
      .loopEnd, .loopEnd, .loopEnd]
    let partners : Array Nat := #[9, 3, 0, 1, 8, 0, 7, 6, 4, 0]
    code.loopPartners = .ok partners ∧ partners.size = code.length ∧
      Code.checkLoops (code.extract 1 9) = .ok () ∧ Code.checkLoops (code.extract 5 8) = .ok () ∧
      ∃ i, partners[7]? = some i ∧ code[i]? = some .loopStart ∧ partners[i]? = some 7 := by
  intro code partners
  have linked : code.loopPartners = .ok partners := by decide +kernel
  obtain ⟨size, starts, ends, _⟩ := partners_pair_loops linked
  obtain ⟨j, hj, _, _, _, outer⟩ := starts 0 rfl
  obtain ⟨j', hj', _, _, _, inner⟩ := starts 4 rfl
  obtain ⟨i, hi, _, start, back, _⟩ := ends 7 rfl
  cases Option.some.inj hj
  cases Option.some.inj hj'
  exact ⟨linked, size, outer, inner, i, hi, start, back⟩

end TapeC
