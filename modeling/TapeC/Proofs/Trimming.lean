import Mathlib.Data.List.TakeWhile
import TapeC.Text.Blank

namespace TapeC.Text

/-- Whether a text is nothing but white space. -/
def Blank (text : List Char) : Prop := ∀ c ∈ text, isBlank c = true

instance (text : List Char) : Decidable (Blank text) :=
  List.decidableBAll (fun c => isBlank c = true) text

/-- Whether a text neither begins nor ends with white space. -/
structure Bare (text : List Char) : Prop where
  front : text.head?.any isBlank = false
  back : text.getLast?.any isBlank = false

/-- Whether a text is a core, bare itself, with white space around it. -/
def Padded (core text : List Char) : Prop :=
  Bare core ∧ ∃ front back, Blank front ∧ Blank back ∧ text = front ++ (core ++ back)

theorem dropWhile_of_head? {p : Char → Bool} {text : List Char}
    (h : text.head?.any p = false) : text.dropWhile p = text := by
  cases text with
  | nil => rfl
  | cons c rest => exact List.dropWhile_cons_of_neg (by simpa using h)

theorem head?_dropWhile_any (p : Char → Bool) (text : List Char) :
    (text.dropWhile p).head?.any p = false := by
  have h := List.head?_dropWhile_not p text
  cases hc : (text.dropWhile p).head? with
  | none => rfl
  | some c =>
    rw [hc] at h
    exact h

theorem Blank.dropWhile {text : List Char} (h : Blank text) (rest : List Char) :
    (text ++ rest).dropWhile isBlank = rest.dropWhile isBlank :=
  List.dropWhile_append_of_pos h

theorem Padded.trim_eq {core text : List Char} (h : Padded core text) : trim text = core := by
  obtain ⟨⟨unblank, unblank'⟩, front, back, hfront, hback, rfl⟩ := h
  have reversed : Blank back.reverse := fun c mem => hback c (List.mem_reverse.mp mem)
  rw [trim, hfront.dropWhile]
  cases core with
  | nil =>
    have nothing := hback.dropWhile []
    rw [List.append_nil] at nothing
    rw [List.nil_append, nothing]
    rfl
  | cons c rest =>
    have kept : (c :: rest ++ back).dropWhile isBlank = c :: rest ++ back := dropWhile_of_head? unblank
    rw [kept, List.reverse_append, reversed.dropWhile, dropWhile_of_head? (by rwa [List.head?_reverse]),
      List.reverse_reverse]

/-- Text is white space, its core and white space. -/
theorem trim_split (text : List Char) :
    ∃ front back, Blank front ∧ Blank back ∧ text.dropWhile isBlank = trim text ++ back ∧
      text = front ++ (trim text ++ back) := by
  have hfront := List.takeWhile_append_dropWhile (p := isBlank) (l := text)
  generalize hrest : text.dropWhile isBlank = rest at hfront
  have hback := List.takeWhile_append_dropWhile (p := isBlank) (l := rest.reverse)
  have kept : rest = trim text ++ (rest.reverse.takeWhile isBlank).reverse := by
    rw [trim, hrest, ← List.reverse_append, hback, List.reverse_reverse]
  refine ⟨text.takeWhile isBlank, (rest.reverse.takeWhile isBlank).reverse, ?_, ?_, kept, ?_⟩
  · exact fun c mem => List.mem_takeWhile_imp mem
  · exact fun c mem => List.mem_takeWhile_imp (List.mem_reverse.mp mem)
  · rw [← kept, hfront]

theorem bare_trim (text : List Char) : Bare (trim text) := by
  constructor
  · obtain ⟨_, back, _, _, hrest, _⟩ := trim_split text
    have unblank := head?_dropWhile_any isBlank text
    rw [hrest] at unblank
    cases hcore : trim text with
    | nil => rfl
    | cons c rest =>
      rw [hcore] at unblank
      exact unblank
  · rw [trim, List.getLast?_reverse]
    exact head?_dropWhile_any isBlank _

theorem padded_iff {core text : List Char} : Padded core text ↔ trim text = core := by
  constructor
  · exact Padded.trim_eq
  · rintro rfl
    obtain ⟨front, back, hfront, hback, _, split⟩ := trim_split text
    exact ⟨bare_trim text, front, back, hfront, hback, split⟩

end TapeC.Text
