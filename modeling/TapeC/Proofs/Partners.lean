import TapeC.Proofs.Nesting

namespace TapeC

/-- Linking and the loop check agree, on success and on the error. -/
theorem Code.linkLoops_map_eq_checkLoopsFrom (code : Code) (position : Nat) (opened : List Nat)
    (table : Array Nat) :
    (linkLoops position opened table code).map (fun _ => ()) =
      checkLoopsFrom position opened.length code := by
  induction code generalizing position opened table with
  | nil => cases opened <;> rfl
  | cons i rest ih =>
    cases i with
    | loopStart =>
      rw [checkLoopsFrom_loopStart, ← List.length_cons (a := position), ← ih _ _ table]
      cases opened <;> rfl
    | loopEnd =>
      cases opened with
      | nil => rfl
      | cons start opened => exact ih _ _ _
    | _ =>
      rw [checkLoopsFrom_unmarked rfl, ← ih _ _ table]
      cases opened <;> rfl

theorem Code.map_loopPartners (code : Code) :
    code.loopPartners.map (fun _ => ()) = code.checkLoops :=
  linkLoops_map_eq_checkLoopsFrom code 0 [] (Array.replicate code.length 0)

theorem Code.linkLoops_unmarked {i : Instr} (unmarked : i.isLoopMark = false) (position : Nat)
    (opened : List Nat) (table : Array Nat) (rest : Code) :
    linkLoops position opened table (i :: rest) = linkLoops (position + 1) opened table rest := by
  cases i with
  | loopStart => cases unmarked
  | loopEnd => cases unmarked
  | _ => cases opened <;> rfl

theorem Code.linkLoops_loopStart (position : Nat) (opened : List Nat) (table : Array Nat)
    (rest : Code) :
    linkLoops position opened table (.loopStart :: rest) =
      linkLoops (position + 1) (position :: opened) table rest := by
  cases opened <;> rfl

namespace Block

/-- Writes the partners of all loops of a block that stands at a position. -/
def link : Block → Nat → Array Nat → Array Nat
  | .done, _, table => table
  | .step _ _ next, position, table => next.link (position + 1) table
  | .loop body next, position, table =>
    let close := position + 1 + body.code.length
    next.link (close + 1)
      (((body.link (position + 1) table).setIfInBounds position close).setIfInBounds close
        position)

/-- Whether a table has the partners of all loops of a block that stands at a position. -/
def Linked (table : Array Nat) : Block → Nat → Prop
  | .done, _ => True
  | .step _ _ next, position => Linked table next (position + 1)
  | .loop body next, position =>
    table[position]? = some (position + 1 + body.code.length) ∧
      table[position + 1 + body.code.length]? = some position ∧
      Linked table body (position + 1) ∧
      Linked table next (position + 1 + body.code.length + 1)

theorem linkLoops_code_append (block : Block) (position : Nat) (opened : List Nat)
    (table : Array Nat) (rest : Code) :
    Code.linkLoops position opened table (block.code ++ rest) =
      Code.linkLoops (position + block.code.length) opened (block.link position table) rest := by
  induction block generalizing position opened table rest with
  | done => rfl
  | step i unmarked next ih =>
    simp only [code, List.cons_append, Code.linkLoops_unmarked unmarked, ih, link,
      List.length_cons]
    congr 1
    omega
  | loop body next ihb ihn =>
    simp only [code, List.cons_append, List.append_assoc, Code.linkLoops_loopStart, ihb, link,
      List.length_cons, List.length_append]
    rw [Code.linkLoops, ihn]
    congr 1
    omega

theorem size_link (block : Block) (position : Nat) (table : Array Nat) :
    (block.link position table).size = table.size := by
  induction block generalizing position table with
  | done => rfl
  | step i unmarked next ih => exact ih _ _
  | loop body next ihb ihn => simp [link, ihb, ihn]

/-- Linking a block writes inside the block only. -/
theorem link_outside (block : Block) {position k : Nat} (table : Array Nat)
    (h : k < position ∨ position + block.code.length ≤ k) :
    (block.link position table)[k]? = table[k]? := by
  induction block generalizing position table with
  | done => rfl
  | step i unmarked next ih =>
    simp only [code, List.length_cons] at h
    exact ih table (by omega)
  | loop body next ihb ihn =>
    simp only [code, List.length_cons, List.length_append] at h
    simp only [link]
    rw [ihn _ (by omega), Array.getElem?_setIfInBounds_ne (by omega),
      Array.getElem?_setIfInBounds_ne (by omega), ihb _ (by omega)]

theorem Linked.congr {block : Block} {position : Nat} {table other : Array Nat}
    (h : Linked table block position)
    (same : ∀ k, position ≤ k → k < position + block.code.length → other[k]? = table[k]?) :
    Linked other block position := by
  induction block generalizing position with
  | done => trivial
  | step i unmarked next ih =>
    simp only [code, List.length_cons] at same
    exact ih h fun k lower upper => same k (by omega) (by omega)
  | loop body next ihb ihn =>
    simp only [code, List.length_cons, List.length_append] at same
    obtain ⟨hs, he, hb, hn⟩ := h
    refine ⟨?_, ?_, ?_, ?_⟩
    · rw [same _ (by omega) (by omega), hs]
    · rw [same _ (by omega) (by omega), he]
    · exact ihb hb fun k lower upper => same k (by omega) (by omega)
    · exact ihn hn fun k lower upper => same k (by omega) (by omega)

theorem linked_link (block : Block) (position : Nat) (table : Array Nat)
    (room : position + block.code.length ≤ table.size) :
    Linked (block.link position table) block position := by
  induction block generalizing position table with
  | done => trivial
  | step i unmarked next ih =>
    simp only [code, List.length_cons] at room
    exact ih _ _ (by omega)
  | loop body next ihb ihn =>
    simp only [code, List.length_cons, List.length_append] at room
    have hsize := size_link body (position + 1) table
    refine ⟨?_, ?_, ?_, ?_⟩
    · rw [link, link_outside _ _ (by omega), Array.getElem?_setIfInBounds_ne (by omega),
        Array.getElem?_setIfInBounds_self_of_lt (by omega)]
    · rw [link, link_outside _ _ (by omega),
        Array.getElem?_setIfInBounds_self_of_lt (by simp only [Array.size_setIfInBounds]; omega)]
    · refine (ihb (position + 1) table (by omega)).congr fun k lower upper => ?_
      rw [link, link_outside _ _ (by omega), Array.getElem?_setIfInBounds_ne (by omega),
        Array.getElem?_setIfInBounds_ne (by omega)]
    · exact ihn _ _ (by simp only [Array.size_setIfInBounds]; omega)

end Block

/-- The partners of nested code are linked as its block says. -/
theorem Code.loopPartners_of_block? {code : Code} {block : Block}
    (h : code.block? = some block) :
    ∃ partners, code.loopPartners = .ok partners ∧ block.Linked partners 0 := by
  have hc := eq_of_block? h
  have hl := block.linkLoops_code_append 0 [] (Array.replicate code.length 0) []
  rw [List.append_nil, ← hc] at hl
  exact ⟨_, hl, block.linked_link 0 _ (by simp [hc])⟩

theorem Code.block?_of_loopPartners {code : Code} {partners : Array Nat}
    (h : code.loopPartners = .ok partners) : ∃ block, code.block? = some block := by
  apply checkLoops_eq_ok_iff.mp
  rw [← map_loopPartners, h]
  rfl

end TapeC
