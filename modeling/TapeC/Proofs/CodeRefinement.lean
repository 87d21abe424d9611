import Mathlib.Data.List.Forall2
import TapeC.Proofs.Refinement

namespace TapeC

variable {size : Nat}

/-- Refinement of nested code together with the blocks that wait. -/
def Nested.Refines (size : Nat) (first second : Block × List Block) : Prop :=
  first.1.Refines size second.1 ∧ List.Forall₂ (Block.Refines size) first.2 second.2

/-- Refinement of code: both can be nested and refine, or neither can. -/
def Code.Refines (size : Nat) (code other : Code) : Prop :=
  Option.Rel (Nested.Refines size) code.nest other.nest

theorem Block.forall₂_refines_refl (blocks : List Block) :
    List.Forall₂ (Block.Refines size) blocks blocks :=
  List.forall₂_same.mpr fun block _ => .refl block

theorem Block.forall₂_refines_trans {first second third : List Block}
    (h : List.Forall₂ (Block.Refines size) first second)
    (h' : List.Forall₂ (Block.Refines size) second third) :
    List.Forall₂ (Block.Refines size) first third := by
  induction h generalizing third with
  | nil =>
    cases h'
    exact .nil
  | cons hb _ ih =>
    cases h' with
    | cons hb' h' => exact .cons (hb.trans hb') (ih h')

theorem Block.push_refines (i : Instr) {block other : Block} {outer others : List Block}
    (h : block.Refines size other) (ho : List.Forall₂ (Block.Refines size) outer others) :
    Option.Rel (Nested.Refines size) (Block.push i block outer) (Block.push i other others) := by
  by_cases unmarked : i.isLoopMark = false
  · rw [Block.push_unmarked unmarked, Block.push_unmarked unmarked]
    exact .some ⟨h.step, ho⟩
  · cases i with
    | loopStart =>
      cases ho with
      | nil => exact .none
      | cons hn ho => exact .some ⟨h.loop hn, ho⟩
    | loopEnd => exact .some ⟨.refl .done, .cons h ho⟩
    | _ => exact absurd rfl unmarked

namespace Code.Refines

theorem refl (code : Code) : code.Refines size code := by
  unfold Code.Refines
  cases code.nest with
  | none => exact .none
  | some nested => exact .some ⟨.refl _, Block.forall₂_refines_refl _⟩

theorem trans {first second third : Code} (h : first.Refines size second)
    (h' : second.Refines size third) : first.Refines size third := by
  unfold Code.Refines at h h' ⊢
  generalize first.nest = x at h
  generalize second.nest = y at h h'
  generalize third.nest = z at h'
  cases h with
  | none => exact h'
  | some h =>
    cases h' with
    | some h' => exact .some ⟨h.1.trans h'.1, Block.forall₂_refines_trans h.2 h'.2⟩

theorem cons (i : Instr) {code other : Code} (h : code.Refines size other) :
    Code.Refines size (i :: code) (i :: other) := by
  unfold Code.Refines at h ⊢
  rw [Code.nest, Code.nest]
  generalize code.nest = x at h
  generalize other.nest = y at h
  cases h with
  | none => exact .none
  | some h => exact Block.push_refines i h.1 h.2

theorem append_left (first : Code) {code other : Code} (h : code.Refines size other) :
    (first ++ code).Refines size (first ++ other) := by
  induction first with
  | nil => exact h
  | cons i first ih => exact .cons i ih

end Code.Refines

/-- Code that nests over the rest in two ways refines if the two blocks over it do. -/
theorem Code.refines_of_nest (after : Code) (first second : Block → Block) {code other : Code}
    (hc : code.nest = after.nest.map fun (block, outer) => (first block, outer))
    (ho : other.nest = after.nest.map fun (block, outer) => (second block, outer))
    (h : ∀ block, (first block).Refines size (second block)) : code.Refines size other := by
  unfold Code.Refines
  rw [hc, ho]
  cases after.nest with
  | none => exact .none
  | some nested => exact .some ⟨h nested.1, Block.forall₂_refines_refl _⟩

theorem Code.refines_merge {i j k : Instr} (hi : i.isLoopMark = false) (hj : j.isLoopMark = false)
    (hk : k.isLoopMark = false) (after : Code)
    (h : ∀ next, Block.Refines size (.step i hi (.step j hj next)) (.step k hk next)) :
    Code.Refines size (i :: j :: after) (k :: after) := by
  refine refines_of_nest after _ _ ?_ (nest_cons_unmarked hk after) h
  rw [nest_cons_unmarked hi, nest_cons_unmarked hj, Option.map_map]
  rfl

theorem Code.refines_drop {i : Instr} (hi : i.isLoopMark = false) (after : Code)
    (h : ∀ next, Block.Refines size (.step i hi next) next) :
    Code.Refines size (i :: after) after :=
  refines_of_nest after _ id (nest_cons_unmarked hi after) (by simp) h

/-- An instruction that a merge leaves may be kept out if it has no effect. -/
theorem Code.Refines.keep {i : Instr} (hi : i.isLoopMark = false) {code after : Code}
    (h : code.Refines size (i :: after)) {kept : Option Instr}
    (hk : kept = some i ∨ kept = none ∧ ∀ s : Store size, s.perform i = .ok s) :
    code.Refines size (kept.toList ++ after) := by
  rcases hk with rfl | ⟨rfl, idle⟩
  · exact h
  · exact h.trans (refines_drop hi after fun next => .drop next idle)

theorem Code.Refines.block {code other : Code} {block : Block} (h : code.Refines size other)
    (hb : code.block? = some block) :
    ∃ next, other.block? = some next ∧ block.Refines size next := by
  unfold Code.Refines at h
  rw [Code.block?_eq_some_iff.mp hb] at h
  generalize hn : other.nest = nested at h
  cases h with
  | @some _ found h =>
    obtain ⟨next, outer⟩ := found
    cases List.forall₂_nil_left_iff.mp h.2
    exact ⟨next, Code.block?_eq_some_iff.mpr hn, h.1⟩

theorem Code.Refines.block_of_block {code other : Code} {next : Block}
    (h : code.Refines size other) (hb : other.block? = some next) :
    ∃ block, code.block? = some block ∧ block.Refines size next := by
  unfold Code.Refines at h
  rw [Code.block?_eq_some_iff.mp hb] at h
  generalize hn : code.nest = nested at h
  cases h with
  | @some found _ h =>
    obtain ⟨block, outer⟩ := found
    cases List.forall₂_nil_right_iff.mp h.2
    exact ⟨block, Code.block?_eq_some_iff.mpr hn, h.1⟩

end TapeC
