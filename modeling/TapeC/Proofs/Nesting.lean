import TapeC.Loops

namespace TapeC

/-- A sequence of instructions in which every loop holds its body as a block of its own. -/
inductive Block where
  | done
  | step (i : Instr) (unmarked : i.isLoopMark = false) (next : Block)
  | loop (body next : Block)

/-- The instructions of a block, in order. -/
def Block.code : Block → Code
  | .done => []
  | .step i _ next => i :: next.code
  | .loop body next => .loopStart :: body.code ++ .loopEnd :: next.code

/-- Puts an instruction in front of a block. The blocks that continue after the loops still open to
the right are given with it, innermost first. -/
def Block.push (i : Instr) (block : Block) (outer : List Block) : Option (Block × List Block) :=
  if unmarked : i.isLoopMark = false then some (.step i unmarked block, outer)
  else
    match i, outer with
    | .loopStart, next :: outer => some (.loop block next, outer)
    | .loopEnd, outer => some (.done, block :: outer)
    | _, _ => none

namespace Code

/-- Nests code from its right end. -/
def nest : Code → Option (Block × List Block)
  | [] => some (.done, [])
  | i :: rest => (nest rest).bind fun (block, outer) => Block.push i block outer

/-- The block of code whose loops pair up. -/
def block? (code : Code) : Option Block :=
  match code.nest with
  | some (block, []) => some block
  | _ => none

end Code

theorem Block.push_loopStart (block next : Block) (outer : List Block) :
    Block.push .loopStart block (next :: outer) = some (.loop block next, outer) := rfl

theorem Block.push_loopEnd (block : Block) (outer : List Block) :
    Block.push .loopEnd block outer = some (.done, block :: outer) := rfl

theorem Block.push_unmarked {i : Instr} (unmarked : i.isLoopMark = false) (block : Block)
    (outer : List Block) : Block.push i block outer = some (.step i unmarked block, outer) := by
  simp [Block.push, unmarked]

theorem Code.nest_cons_unmarked {i : Instr} (unmarked : i.isLoopMark = false) (rest : Code) :
    Code.nest (i :: rest) =
      (Code.nest rest).map fun (block, outer) => (.step i unmarked block, outer) := by
  rw [Code.nest]
  cases Code.nest rest with
  | none => rfl
  | some nested => exact Block.push_unmarked unmarked _ _

theorem Code.checkLoopsFrom_unmarked {i : Instr} (unmarked : i.isLoopMark = false)
    (position opened : Nat) (rest : Code) :
    checkLoopsFrom position opened (i :: rest) = checkLoopsFrom (position + 1) opened rest := by
  cases i with
  | loopStart => cases unmarked
  | loopEnd => cases unmarked
  | _ => cases opened <;> rfl

theorem Code.checkLoopsFrom_loopStart (position opened : Nat) (rest : Code) :
    checkLoopsFrom position opened (.loopStart :: rest) =
      checkLoopsFrom (position + 1) (opened + 1) rest := by
  cases opened <;> rfl

/-- What pushing an instruction can give. -/
theorem Block.push_cases {i : Instr} {block result : Block} {outer left : List Block}
    (h : Block.push i block outer = some (result, left)) :
    (∃ unmarked, result = .step i unmarked block ∧ left = outer) ∨
    (i = .loopStart ∧ ∃ next, outer = next :: left ∧ result = .loop block next) ∨
    (i = .loopEnd ∧ result = .done ∧ left = block :: outer) := by
  by_cases unmarked : i.isLoopMark = false
  · rw [Block.push_unmarked unmarked] at h
    cases Option.some.inj h
    exact .inl ⟨unmarked, rfl, rfl⟩
  · cases i with
    | loopStart =>
      cases outer with
      | nil => cases h
      | cons next outer =>
        cases Option.some.inj h
        exact .inr (.inl ⟨rfl, next, rfl, rfl⟩)
    | loopEnd =>
      cases Option.some.inj h
      exact .inr (.inr ⟨rfl, rfl, rfl⟩)
    | _ => exact absurd rfl unmarked

theorem Code.nest_cons_eq_some_iff {i : Instr} {rest : Code} {block : Block}
    {outer : List Block} :
    nest (i :: rest) = some (block, outer) ↔
      ∃ inner waiting, nest rest = some (inner, waiting) ∧
        Block.push i inner waiting = some (block, outer) := by
  rw [nest, Option.bind_eq_some_iff]
  exact Prod.exists

/-- Nesting loses nothing: the code is the block's, followed by a loop end and a block for every
loop that is still open. -/
theorem Code.eq_of_nest {code : Code} {block : Block} {outer : List Block}
    (h : code.nest = some (block, outer)) :
    code = block.code ++ outer.flatMap fun next => .loopEnd :: next.code := by
  induction code generalizing block outer with
  | nil =>
    cases Option.some.inj h
    rfl
  | cons i rest ih =>
    obtain ⟨inner, waiting, hn, hp⟩ := nest_cons_eq_some_iff.mp h
    have hrest := ih hn
    obtain ⟨_, rfl, rfl⟩ | ⟨rfl, next, rfl, rfl⟩ | ⟨rfl, rfl, rfl⟩ := Block.push_cases hp
    · simp [Block.code, hrest]
    · simp [Block.code, hrest]
    · simp [Block.code, hrest]

theorem Code.block?_eq_some_iff {code : Code} {block : Block} :
    code.block? = some block ↔ code.nest = some (block, []) := by
  unfold block?
  split
  next inner hn => simp [hn]
  next hn => simpa using hn block

theorem Code.eq_of_block? {code : Code} {block : Block} (h : code.block? = some block) :
    code = block.code := by
  simpa using eq_of_nest (block?_eq_some_iff.mp h)

theorem Code.nest_of_checkLoopsFrom {code : Code} {position opened : Nat}
    (h : checkLoopsFrom position opened code = .ok ()) :
    ∃ block outer, code.nest = some (block, outer) ∧ outer.length = opened := by
  induction code generalizing position opened with
  | nil =>
    cases opened with
    | zero => exact ⟨.done, [], rfl, rfl⟩
    | succ opened => cases h
  | cons i rest ih =>
    by_cases unmarked : i.isLoopMark = false
    · rw [checkLoopsFrom_unmarked unmarked] at h
      obtain ⟨block, outer, hn, hl⟩ := ih h
      exact ⟨_, outer, nest_cons_eq_some_iff.mpr
        ⟨block, outer, hn, Block.push_unmarked unmarked block outer⟩, hl⟩
    · cases i with
      | loopStart =>
        rw [checkLoopsFrom_loopStart] at h
        obtain ⟨block, outer, hn, hl⟩ := ih h
        obtain ⟨next, outer, rfl⟩ := List.exists_cons_of_length_eq_add_one hl
        exact ⟨_, outer, nest_cons_eq_some_iff.mpr
          ⟨block, _, hn, Block.push_loopStart block next outer⟩, by simpa using hl⟩
      | loopEnd =>
        cases opened with
        | zero => cases h
        | succ opened =>
          obtain ⟨block, outer, hn, hl⟩ := ih h
          exact ⟨_, block :: outer, nest_cons_eq_some_iff.mpr
            ⟨block, outer, hn, Block.push_loopEnd block outer⟩, by simp [hl]⟩
      | _ => exact absurd rfl unmarked

theorem Code.checkLoopsFrom_of_nest {code : Code} {block : Block} {outer : List Block}
    (h : code.nest = some (block, outer)) (position : Nat) :
    checkLoopsFrom position outer.length code = .ok () := by
  induction code generalizing block outer position with
  | nil =>
    cases Option.some.inj h
    rfl
  | cons i rest ih =>
    obtain ⟨inner, waiting, hn, hp⟩ := nest_cons_eq_some_iff.mp h
    have hrest := ih hn (position + 1)
    obtain ⟨unmarked, rfl, rfl⟩ | ⟨rfl, next, rfl, rfl⟩ | ⟨rfl, rfl, rfl⟩ := Block.push_cases hp
    · rw [checkLoopsFrom_unmarked unmarked]
      exact hrest
    · rw [checkLoopsFrom_loopStart]
      exact hrest
    · exact hrest

/-- Code passes the loop check if and only if it has a block. -/
theorem Code.checkLoops_eq_ok_iff {code : Code} :
    code.checkLoops = .ok () ↔ ∃ block, code.block? = some block := by
  constructor
  · intro h
    obtain ⟨block, outer, hn, hl⟩ := nest_of_checkLoopsFrom h
    cases List.eq_nil_of_length_eq_zero hl
    exact ⟨block, block?_eq_some_iff.mpr hn⟩
  · rintro ⟨block, h⟩
    exact checkLoopsFrom_of_nest (block?_eq_some_iff.mp h) 0

end TapeC
