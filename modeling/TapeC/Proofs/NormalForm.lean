import Mathlib.Data.Int.ModEq
import TapeC.Proofs.IdiomRule
import TapeC.Proofs.RunSums

namespace TapeC

/-- Code as the standard passes leave it: every instruction is tidy, no two adjustments are neighbours,
and there is no zero idiom. -/
structure Code.Normal (code : Code) : Prop where
  tidy : code.Tidy true
  apart : code.IsChain fun i j => ¬(i.adjustCount?.isSome = true ∧ j.adjustCount?.isSome = true)
  cleared : ¬[.loopStart, .adjust (-1), .loopEnd] <:+: code

namespace Peephole

/-- What a scan passes on has no two neighbours with a count, whatever was given. -/
theorem mergeRuns_apart {count? : Instr → Option Int32} {merge : Int32 → Int32 → Option Instr}
    (held : Option Instr) (code : Code) :
    (mergeRuns count? merge held code).IsChain
      fun i j => ¬((count? i).isSome = true ∧ (count? j).isSome = true) := by
  induction code generalizing held with
  | nil => cases held <;> simp [mergeRuns]
  | cons now rest ih =>
    rw [mergeRuns]
    split
    next a b _ _ => exact ih (merge a b)
    next separate =>
      have later := ih (some now)
      cases held with
      | none => exact later
      | some i =>
        refine List.isChain_cons.mpr ⟨fun j hj both => ?_, later⟩
        obtain ⟨a, ha⟩ := Option.isSome_iff_exists.mp both.1
        have hnow : count? now = none :=
          Option.eq_none_iff_forall_ne_some.mpr fun b hb => separate a b ha hb
        rw [mergeRuns_some, mergeRuns_uncounted hnow] at hj
        cases hj
        simp [hnow] at both

end Peephole

namespace Code

variable {acceptsIncrement : Bool} {code rest : Code}

/-! ### The rule for idioms -/

theorem head?_clearIdioms (code : Code) :
    (code.clearIdioms acceptsIncrement).head? = code.head? ∨
      (code.clearIdioms acceptsIncrement).head? = some .clear := by
  fun_cases Code.clearIdioms acceptsIncrement code with
  | case1 => exact .inr rfl
  | case2 => exact .inl rfl
  | case3 => exact .inl rfl
  | case4 => exact .inl rfl

/-- A relation between neighbours is kept if it holds on both sides of an assignment. -/
theorem isChain_clearIdioms {R : Instr → Instr → Prop} (before : ∀ i, R i .clear)
    (after : ∀ i, R .clear i) (h : code.IsChain R) :
    (code.clearIdioms acceptsIncrement).IsChain R := by
  have behind : ∀ {i : Instr} {rest : Code}, (i :: rest).IsChain R →
      (rest.clearIdioms acceptsIncrement).IsChain R →
      (i :: rest.clearIdioms acceptsIncrement).IsChain R := by
    intro i rest hi hrest
    refine List.isChain_cons.mpr ⟨fun j hj => ?_, hrest⟩
    rcases rest.head?_clearIdioms with same | new
    · exact (List.isChain_cons.mp hi).1 j (same ▸ hj)
    · cases new.symm.trans hj
      exact before i
  fun_induction Code.clearIdioms acceptsIncrement code with
  | case1 step rest zero ih =>
    exact List.isChain_cons.mpr ⟨fun j _ => after j, ih h.tail.tail.tail⟩
  | case2 step rest nonzero ih => exact behind h (ih h.tail)
  | case3 i rest other ih => exact behind h (ih h.tail)
  | case4 => exact h

theorem eq_cons_of_clearIdioms_eq_cons {j : Instr} {more : Code}
    (h : code.clearIdioms acceptsIncrement = j :: more) (hj : j ≠ .clear) :
    ∃ rest : Code, code = j :: rest ∧ rest.clearIdioms acceptsIncrement = more := by
  revert h
  fun_cases Code.clearIdioms acceptsIncrement code with
  | case1 step rest zero =>
    intro h
    exact absurd (List.cons.inj h).1.symm hj
  | case2 step rest nonzero =>
    intro h
    obtain ⟨rfl, hmore⟩ := List.cons.inj h
    exact ⟨_, rfl, hmore⟩
  | case3 i rest other =>
    intro h
    obtain ⟨rfl, hmore⟩ := List.cons.inj h
    exact ⟨_, rfl, hmore⟩
  | case4 =>
    intro h
    cases h

/-- An instruction in front of rewritten code begins an idiom only if it did so before. -/
theorem eq_of_idiom_prefix {step : Int32} {i : Instr}
    (h : [.loopStart, .adjust step, .loopEnd] <+: i :: rest.clearIdioms acceptsIncrement) :
    i = .loopStart ∧ ∃ more, rest = .adjust step :: .loopEnd :: more := by
  obtain ⟨behind, h⟩ := h
  obtain ⟨rfl, hrest⟩ := List.cons.inj h
  obtain ⟨second, rfl, hsecond⟩ := eq_cons_of_clearIdioms_eq_cons hrest.symm (by simp [Instr.clear])
  obtain ⟨third, rfl, _⟩ := eq_cons_of_clearIdioms_eq_cons hsecond (by simp [Instr.clear])
  exact ⟨rfl, third, rfl⟩

/-- No idiom is left, since an assignment is part of none, and the rest stands as it stood. -/
theorem idiom_not_infix_clearIdioms {step : Int32}
    (zero : step = -1 ∨ acceptsIncrement = true ∧ step = 1) (code : Code) :
    ¬[.loopStart, .adjust step, .loopEnd] <:+: code.clearIdioms acceptsIncrement := by
  have behind : ∀ {i : Instr} {rest : Code},
      (∀ more, i = .loopStart → rest ≠ .adjust step :: .loopEnd :: more) →
      ¬[.loopStart, .adjust step, .loopEnd] <:+: rest.clearIdioms acceptsIncrement →
      ¬[.loopStart, .adjust step, .loopEnd] <:+: i :: rest.clearIdioms acceptsIncrement := by
    intro i rest other later h
    rcases List.infix_cons_iff.mp h with first | inside
    · obtain ⟨hi, more, hrest⟩ := eq_of_idiom_prefix first
      exact other more hi hrest
    · exact later inside
  fun_induction Code.clearIdioms acceptsIncrement code with
  | case1 other rest _ ih =>
    refine behind (fun more h => ?_) ih
    cases h
  | case2 other rest nonzero ih =>
    refine behind (fun more _ h => ?_) ih
    cases h
    exact nonzero zero
  | case3 i rest other ih => exact behind (other step) ih
  | case4 => simp

/-- A loop start is never the middle or the end of an idiom, so the rule begins again there. -/
theorem clearIdioms_append_loopStart (first rest : Code) :
    clearIdioms acceptsIncrement (first ++ .loopStart :: rest) =
      clearIdioms acceptsIncrement first ++ clearIdioms acceptsIncrement (.loopStart :: rest) := by
  fun_induction Code.clearIdioms acceptsIncrement first with
  | case1 step first zero ih =>
    have h := clearIdioms_idiom zero (first ++ .loopStart :: rest)
    rw [ih] at h
    exact h
  | case2 step first nonzero ih =>
    rw [List.cons_append, clearIdioms_cons, ih]
    · rfl
    · intro step' more _ h
      cases h
      exact nonzero
  | case3 i first other ih =>
    rw [List.cons_append, clearIdioms_cons, ih]
    · rfl
    · intro step more hi h
      cases first with
      | nil => cases h
      | cons j first =>
        cases first with
        | nil => cases h
        | cons k first =>
          cases h
          exact absurd rfl (other step first hi)
  | case4 => rfl

end Code

/-! ### Steps in source text -/

theorem step_of_char {c : Char} (h : c = '+' ∨ c = '-') :
    ∃ a : Int32, Instr.ofChar? c = some (.adjust a) ∧ (a = 1 ∨ a = -1) ∧
      a.toInt = ([c].count '+' : Int) - [c].count '-' := by
  rcases h with rfl | rfl
  · exact ⟨1, rfl, .inl rfl, by decide⟩
  · exact ⟨-1, rfl, .inr rfl, by decide⟩

/-- The counts of a text that has steps and comments only. -/
theorem exists_steps {chars : List Char}
    (steps : ∀ c ∈ chars, (Instr.ofChar? c).isSome = true → c = '+' ∨ c = '-') :
    ∃ counts : List Int32, chars.filterMap Instr.ofChar? = counts.map .adjust ∧
      (∀ a ∈ counts, a = 1 ∨ a = -1) ∧
      (counts.map Int32.toInt).sum = (chars.count '+' : Int) - chars.count '-' := by
  induction chars with
  | nil => exact ⟨[], rfl, by simp, rfl⟩
  | cons c chars ih =>
    obtain ⟨hc, later⟩ := List.forall_mem_cons.mp steps
    obtain ⟨counts, spelt, units, total⟩ := ih later
    cases hi : Instr.ofChar? c with
    | none =>
      have plus : c ≠ '+' := by
        rintro rfl
        cases hi
      have minus : c ≠ '-' := by
        rintro rfl
        cases hi
      refine ⟨counts, ?_, units, ?_⟩
      · rw [List.filterMap_cons_none hi, spelt]
      · rw [List.count_cons_of_ne plus, List.count_cons_of_ne minus, total]
    | some i =>
      obtain ⟨a, ha, unit, value⟩ := step_of_char (hc (by rw [hi]; rfl))
      refine ⟨a :: counts, ?_, List.forall_mem_cons.mpr ⟨unit, units⟩, ?_⟩
      · rw [List.filterMap_cons_some ha, spelt, List.map_cons]
      · have parts : c :: chars = [c] ++ chars := rfl
        rw [List.map_cons, List.sum_cons, total, value, parts, List.count_append, List.count_append]
        omega

namespace Peephole

theorem mergeAdjusts_steps {counts : List Int32} (units : ∀ a ∈ counts, a = 1 ∨ a = -1)
    (total : (counts.map Int32.toInt).sum ≡ -1 [ZMOD 256]) :
    mergeAdjusts true (counts.map .adjust) = [.adjust (-1)] := by
  have nonempty : counts ≠ [] := by
    rintro rfl
    revert total
    decide
  have valid : ∀ a ∈ counts, a ≠ 0 ∧ (adjustsCounting true).reduce a = a := by
    intro a ha
    rcases units a ha with rfl | rfl
    · decide
    · decide
  have ends : ∀ i ∈ ([] : Code).head?, i.adjustCount? = none := by simp
  have hrun := (adjustsCounting true).mergeRuns_run nonempty valid ends
  have least : (counts.map Int32.toInt).sum.bmod 256 = -1 := by
    calc (counts.map Int32.toInt).sum.bmod 256
        = ((counts.map Int32.toInt).sum % 256).bmod 256 := (Int.emod_bmod _ 256).symm
      _ = (-1 % 256 : Int).bmod 256 := by rw [total.eq]
      _ = -1 := by decide
  have hsum : (adjustsCounting true).reduce (Int32.ofInt (counts.map Int32.toInt).sum) = -1 := by
    have hbyte := ofInt_bmod_eq_wrapCell (counts.map Int32.toInt).sum
    rw [least] at hbyte
    exact hbyte.symm
  rw [List.append_nil, hsum] at hrun
  exact hrun

/-- A loop of steps that come to one down is an assignment, and no pass works across it. -/
theorem optimize_around_steps {counts : List Int32} (units : ∀ a ∈ counts, a = 1 ∨ a = -1)
    (total : (counts.map Int32.toInt).sum ≡ -1 [ZMOD 256]) (first rest : Code) :
    Peephole.optimize {} (first ++ .loopStart :: (counts.map .adjust ++ .loopEnd :: rest)) =
      Peephole.optimize {} first ++ .clear :: Peephole.optimize {} rest := by
  have uncounted : ∀ i ∈ counts.map Instr.adjust, i.moveCount? = none := by
    intro i hi
    obtain ⟨a, _, rfl⟩ := List.mem_map.mp hi
    rfl
  have moves : mergeMoves (first ++ .loopStart :: (counts.map .adjust ++ .loopEnd :: rest)) =
      mergeMoves first ++ .loopStart :: (counts.map .adjust ++ .loopEnd :: mergeMoves rest) := by
    unfold mergeMoves
    rw [mergeRuns_append_uncounted none first rfl, mergeRuns_uncounted_append uncounted,
      mergeRuns_uncounted rfl]
  have adjusts : ∀ before after : Code,
      mergeAdjusts true (before ++ .loopStart :: (counts.map .adjust ++ .loopEnd :: after)) =
        mergeAdjusts true before ++
          .loopStart :: .adjust (-1) :: .loopEnd :: mergeAdjusts true after := by
    intro before after
    have hsteps := mergeAdjusts_steps units total
    unfold mergeAdjusts at hsteps ⊢
    rw [mergeRuns_append_uncounted none before rfl, mergeRuns_append_uncounted none _ rfl, hsteps]
    rfl
  rw [optimize_standard rfl, optimize_standard rfl, optimize_standard rfl, moves, adjusts]
  simp only [collapseZeroIdiom_eq_clearIdioms]
  rw [Code.clearIdioms_append_loopStart, Code.clearIdioms_idiom (.inl rfl)]

theorem optimize_ofSource_normal (source : String) :
    (Peephole.optimize {} (.ofSource source)).Normal := by
  constructor
  · exact tidy_of_rewrites (optimize_rewrites {} _) (Code.tidy_ofSource source)
  · rw [optimize_standard rfl, collapseZeroIdiom_eq_clearIdioms]
    refine Code.isChain_clearIdioms (fun i h => ?_) (fun i h => ?_) (mergeRuns_apart none _)
    · cases h.2
    · cases h.1
  · rw [optimize_standard rfl, collapseZeroIdiom_eq_clearIdioms]
    exact Code.idiom_not_infix_clearIdioms (.inl rfl) _

end Peephole

/-- The standard passes take every source text to a normal form. In it, a loop of steps that come to one
down modulo 256 has become an assignment of zero, and the text before the loop and the text behind it
are what they would be alone. -/
theorem optimized_source_normal :
    (∀ source : String, (Peephole.optimize {} (.ofSource source)).Normal) ∧
    ∀ before steps after : String,
      (∀ c ∈ steps.toList, (Instr.ofChar? c).isSome = true → c = '+' ∨ c = '-') →
      (steps.toList.count '+' : Int) - steps.toList.count '-' ≡ -1 [ZMOD 256] →
      Peephole.optimize {} (.ofSource (before ++ "[" ++ steps ++ "]" ++ after)) =
        Peephole.optimize {} (.ofSource before) ++ [.clear] ++
          Peephole.optimize {} (.ofSource after) := by
  refine ⟨Peephole.optimize_ofSource_normal, fun before steps after only total => ?_⟩
  obtain ⟨counts, spelt, units, sum⟩ := exists_steps only
  rw [← sum] at total
  have whole : Code.ofSource (before ++ "[" ++ steps ++ "]" ++ after) =
      Code.ofSource before ++
        .loopStart :: (counts.map .adjust ++ .loopEnd :: Code.ofSource after) := by
    simp only [Code.ofSource, String.toList_append, List.filterMap_append, spelt]
    simp [Instr.ofChar?]
  rw [whole, Peephole.optimize_around_steps units total, List.append_assoc]
  rfl

/-- Steps that come to one down by wrapping, between loops that do not pair up. -/
theorem optimized_source_normal_wrapped :
    let steps := String.ofList (List.replicate 255 '+')
    (∀ c ∈ steps.toList, (Instr.ofChar? c).isSome = true → c = '+' ∨ c = '-') ∧
      (steps.toList.count '+' : Int) - steps.toList.count '-' ≡ -1 [ZMOD 256] ∧
      Peephole.optimize {} (.ofSource ("]>" ++ "[" ++ steps ++ "]" ++ "+-[-")) =
        [.loopEnd, .move 1, .clear, .loopStart, .adjust (-1)] := by
  intro steps
  have chars : steps.toList = List.replicate 255 '+' := String.toList_ofList
  have only : ∀ c ∈ steps.toList, (Instr.ofChar? c).isSome = true → c = '+' ∨ c = '-' := by
    intro c hc _
    rw [chars] at hc
    exact .inl (List.eq_of_mem_replicate hc)
  have total : (steps.toList.count '+' : Int) - steps.toList.count '-' ≡ -1 [ZMOD 256] := by
    rw [chars, List.count_replicate_self, List.count_replicate]
    decide
  have given : Peephole.optimize {} (.ofSource "]>") = [.loopEnd, .move 1] := by decide
  have behind : Peephole.optimize {} (.ofSource "+-[-") = [.loopStart, .adjust (-1)] := by decide
  have divided := optimized_source_normal.2 "]>" steps "+-[-" only total
  rw [given, behind] at divided
  exact ⟨only, total, divided⟩

end TapeC
