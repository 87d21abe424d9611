import TapeC.Proofs.BigStep

namespace TapeC

variable {size : Nat}

/-- Whether an execution left the tape. -/
def Outcome.Escaped : Outcome size → Prop
  | .finished _ => False
  | .escaped _ _ => True

namespace Block

/-- The second block can stand in for the first one on tapes of a size. -/
structure Refines (size : Nat) (block other : Block) : Prop where
  finishes : ∀ {s t : Store size} {n : Nat}, block.Runs s n (.finished t) →
    ∃ m, m ≤ n ∧ other.Runs s m (.finished t)
  reflects : ∀ {s : Store size} {n : Nat} {r : Outcome size}, other.Runs s n r →
    ∃ m q, block.Runs s m q ∧ (q = r ∨ q.Escaped)

namespace Refines

theorem refl (block : Block) : Refines size block block :=
  ⟨fun h => ⟨_, Nat.le_refl _, h⟩, fun h => ⟨_, _, h, .inl rfl⟩⟩

theorem trans {first second third : Block} (h : Refines size first second)
    (h' : Refines size second third) : Refines size first third := by
  constructor
  · intro s t n hr
    obtain ⟨m, hm, hr⟩ := h.finishes hr
    obtain ⟨k, hk, hr⟩ := h'.finishes hr
    exact ⟨k, Nat.le_trans hk hm, hr⟩
  · intro s n r hr
    obtain ⟨m, q, hq, hqr⟩ := h'.reflects hr
    obtain ⟨k, p, hp, hpq⟩ := h.reflects hq
    refine ⟨k, p, hp, ?_⟩
    rcases hpq with rfl | he
    · exact hqr
    · exact .inr he

theorem step {i : Instr} {unmarked : i.isLoopMark = false} {next other : Block}
    (h : Refines size next other) :
    Refines size (.step i unmarked next) (.step i unmarked other) := by
  constructor
  · intro s t n hr
    cases hr with
    | step hp hr =>
      obtain ⟨m, hm, hr⟩ := h.finishes hr
      exact ⟨m + 1, by omega, .step hp hr⟩
  · intro s n r hr
    cases hr with
    | step hp hr =>
      obtain ⟨m, q, hq, hqr⟩ := h.reflects hr
      exact ⟨m + 1, q, .step hp hq, hqr⟩
    | escape hp => exact ⟨1, _, .escape hp, .inl rfl⟩

theorem loop_finishes {body other next after : Block} (hb : Refines size body other)
    (hn : Refines size next after) {s t : Store size} {n : Nat}
    (h : (Block.loop body next).Runs s n (.finished t)) :
    ∃ m, m ≤ n ∧ (Block.loop other after).Runs s m (.finished t) := by
  generalize hr : Outcome.finished t = r at h
  induction h using Runs.loop_induction with
  | skip hz hrun =>
    subst hr
    obtain ⟨m, hm, hrun⟩ := hn.finishes hrun
    exact ⟨m + 1, by omega, .skip hz hrun⟩
  | again hz hbody _ ih =>
    obtain ⟨m, hm, hbody⟩ := hb.finishes hbody
    obtain ⟨k, hk, hloop⟩ := ih hr
    exact ⟨m + k + 1, by omega, .again hz hbody hloop⟩
  | escapeBody => cases hr

theorem loop_reflects {body other next after : Block} (hb : Refines size body other)
    (hn : Refines size next after) {s : Store size} {n : Nat} {r : Outcome size}
    (h : (Block.loop other after).Runs s n r) :
    ∃ m q, (Block.loop body next).Runs s m q ∧ (q = r ∨ q.Escaped) := by
  induction h using Runs.loop_induction with
  | skip hz hrun =>
    obtain ⟨m, q, hrun, hq⟩ := hn.reflects hrun
    exact ⟨m + 1, q, .skip hz hrun, hq⟩
  | again hz hbody _ ih =>
    obtain ⟨m, p, hbody, hp⟩ := hb.reflects hbody
    cases p with
    | escaped place t => exact ⟨m + 1, _, .escapeBody hz hbody, .inr trivial⟩
    | finished t =>
      cases hp.resolve_right id
      obtain ⟨k, q, hloop, hq⟩ := ih
      exact ⟨m + k + 1, q, .again hz hbody hloop, hq⟩
  | escapeBody hz hbody =>
    obtain ⟨m, p, hbody, hp⟩ := hb.reflects hbody
    cases p with
    | escaped place t => exact ⟨m + 1, _, .escapeBody hz hbody, .inr trivial⟩
    | finished t => cases hp.resolve_right id

theorem loop {body other next after : Block} (hb : Refines size body other)
    (hn : Refines size next after) :
    Refines size (.loop body next) (.loop other after) :=
  ⟨loop_finishes hb hn, loop_reflects hb hn⟩

/-- Two instructions can be replaced by one that has the effect of both, where both have one. -/
theorem merge {i j k : Instr} {hi : i.isLoopMark = false} {hj : j.isLoopMark = false}
    {hk : k.isLoopMark = false} (next : Block)
    (both : ∀ s t u : Store size, s.perform i = .ok t → t.perform j = .ok u →
      s.perform k = .ok u) :
    Refines size (.step i hi (.step j hj next)) (.step k hk next) := by
  constructor
  · intro s t n hr
    cases hr with
    | step hp hr =>
      cases hr with
      | step hq hr => exact ⟨_, by omega, .step (both _ _ _ hp hq) hr⟩
  · intro s n r hr
    cases hp : s.perform i with
    | error place => exact ⟨1, _, .escape hp, .inr trivial⟩
    | ok t =>
      cases hq : t.perform j with
      | error place => exact ⟨2, _, .step hp (.escape hq), .inr trivial⟩
      | ok u =>
        have hb := both s t u hp hq
        cases hr with
        | step hs hr =>
          cases hs.symm.trans hb
          exact ⟨_, r, .step hp (.step hq hr), .inl rfl⟩
        | escape hs => cases hs.symm.trans hb

/-- An instruction without effect can be left out. -/
theorem drop {i : Instr} {hi : i.isLoopMark = false} (next : Block)
    (idle : ∀ s : Store size, s.perform i = .ok s) : Refines size (.step i hi next) next := by
  constructor
  · intro s t n hr
    cases hr with
    | step hp hr =>
      cases hp.symm.trans (idle s)
      exact ⟨_, by omega, hr⟩
  · intro s n r hr
    exact ⟨n + 1, r, .step (idle s) hr, .inl rfl⟩

end Refines

end Block

end TapeC
