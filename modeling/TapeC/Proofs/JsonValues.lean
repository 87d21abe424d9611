import TapeC.Proofs.JsonReading

namespace TapeC.Json

/-- Whether a token is a string; a key or a value that is skipped may be a string without a text. -/
def Token.isString : Token → Bool
  | .string _ => true
  | .faultyString _ => true
  | _ => false

/-- The tokens of a value. -/
inductive IsValue : List Token → Prop
  | null : IsValue [.null]
  | bool (b : Bool) : IsValue [.bool b]
  | number (value : Number) : IsValue [.number value]
  | string {token : Token} (h : token.isString = true) : IsValue [token]
  | array {items : List (List Token)} (h : ∀ item ∈ items, IsValue item) : IsValue (array items)
  | object {members : List (Token × List Token)} (keys : ∀ m ∈ members, m.1.isString = true)
      (h : ∀ m ∈ members, IsValue m.2) :
      IsValue (object (members.map fun m => m.1 :: .colon :: m.2))

/-- The step that completes a value inside some frames. -/
def afterSkip : List Frame → List Token → Except Fault (List Token)
  | [], rest => .ok rest
  | frames, rest => skipFrom .next frames rest

theorem skipFrom_of_afterValue {expect : Expect} {frames outer : List Frame} {token : Token}
    (h : expect.step frames token = .ok (.afterValue outer)) (rest : List Token) :
    skipFrom expect frames (token :: rest) = afterSkip outer rest := by
  rw [skipFrom, h]
  cases outer <;> rfl

theorem skipFrom_of_more {expect after : Expect} {frames outer : List Frame} {token : Token}
    (h : expect.step frames token = .ok (.more after outer)) (rest : List Token) :
    skipFrom expect frames (token :: rest) = skipFrom after outer rest := by
  rw [skipFrom, h]

/-- The items of a list or an object, when each of them is skipped from where an item is expected. -/
theorem skipFrom_separated {frame : Frame} {between : Expect} {close : Token} {outer : List Frame}
    (comma : Expect.next.step (frame :: outer) .comma = .ok (.more between (frame :: outer)))
    (closeFirst : Expect.first.step (frame :: outer) close = .ok (.afterValue outer))
    (closeNext : Expect.next.step (frame :: outer) close = .ok (.afterValue outer))
    {items : List (List Token)}
    (begin : ∀ item ∈ items, ∀ rest, skipFrom .first (frame :: outer) (item ++ rest) =
      skipFrom between (frame :: outer) (item ++ rest))
    (skipped : ∀ item ∈ items, ∀ rest,
      skipFrom between (frame :: outer) (item ++ rest) = skipFrom .next (frame :: outer) rest)
    (rest : List Token) :
    skipFrom .first (frame :: outer) (separated items ++ close :: rest) = afterSkip outer rest := by
  have more : ∀ items : List (List Token), (∀ item ∈ items, ∀ rest,
      skipFrom between (frame :: outer) (item ++ rest) = skipFrom .next (frame :: outer) rest) →
      skipFrom .next (frame :: outer) (items.flatMap (.comma :: ·) ++ close :: rest) =
        afterSkip outer rest := by
    intro items skipped
    induction items with
    | nil => exact skipFrom_of_afterValue closeNext rest
    | cons item items ih =>
      rw [List.flatMap_cons, List.cons_append, List.cons_append, List.append_assoc,
        skipFrom_of_more comma, skipped item List.mem_cons_self]
      exact ih fun next mem => skipped next (List.mem_cons_of_mem _ mem)
  cases items with
  | nil => exact skipFrom_of_afterValue closeFirst rest
  | cons item items =>
    rw [separated, List.append_assoc, begin item List.mem_cons_self,
      skipped item List.mem_cons_self]
    exact more items fun next mem => skipped next (List.mem_cons_of_mem _ mem)

theorem Token.isNumber_of_isString {token : Token} (h : token.isString = true) :
    token.isNumber = false := by
  cases token <;> first | rfl | cases h

theorem step_key {token : Token} (h : token.isString = true) (frames : List Frame) :
    Expect.key.step frames token = .ok (.more .colon frames) := by
  cases token <;> first | rfl | cases h

theorem step_first_key {token : Token} (h : token.isString = true) (outer : List Frame) :
    Expect.first.step (.object :: outer) token = .ok (.more .colon (.object :: outer)) := by
  cases token <;> first | rfl | cases h

namespace IsValue

theorem apart {ts : List Token} (h : IsValue ts) : Apart ts := by
  induction h with
  | null => exact .singleton _
  | bool b => exact .singleton _
  | number value => exact .singleton _
  | string h => exact .singleton _
  | array h ih => exact .array ih
  | @object members keys h ih =>
    apply Apart.object
    intro item mem
    obtain ⟨m, hm, rfl⟩ := List.mem_map.mp mem
    have key := Token.isNumber_of_isString (keys m hm)
    exact .cons key (.cons rfl (ih m hm))

/-- A value where the first item of a list may stand; no value begins with a closing bracket. -/
theorem skipFrom_first {ts : List Token} (h : IsValue ts) (outer : List Frame) (rest : List Token) :
    skipFrom .first (.list :: outer) (ts ++ rest) = skipFrom .value (.list :: outer) (ts ++ rest) := by
  obtain ⟨token, more, rfl, opens⟩ : Opens ts := by
    cases h with
    | @string token h =>
      have opens : token ≠ .bracketClose := by
        rintro rfl
        cases h
      exact ⟨token, [], rfl, opens⟩
    | _ => exact ⟨_, _, rfl, by simp⟩
  have step : Expect.first.step (.list :: outer) token = Expect.value.step (.list :: outer) token := by
    simp [Expect.step, opens]
  rw [List.cons_append, skipFrom, skipFrom, step]

/-- A value is skipped inside any frames, and leaves them as they are. -/
theorem skipFrom_value {ts : List Token} (h : IsValue ts) (frames : List Frame) (rest : List Token) :
    skipFrom .value frames (ts ++ rest) = afterSkip frames rest := by
  induction h generalizing frames rest with
  | null => exact skipFrom_of_afterValue rfl rest
  | bool b => exact skipFrom_of_afterValue rfl rest
  | number value => exact skipFrom_of_afterValue rfl rest
  | @string token h =>
    have step : Expect.value.step frames token = .ok (.afterValue frames) := by
      cases token <;> first | rfl | cases h
    exact skipFrom_of_afterValue step rest
  | @array items h ih =>
    have opened : Expect.value.step frames .bracketOpen = .ok (.more .first (.list :: frames)) := rfl
    rw [Json.array, List.cons_append, skipFrom_of_more opened, List.append_assoc]
    exact skipFrom_separated rfl rfl rfl (fun item mem => (h item mem).skipFrom_first frames)
      (fun item mem => ih item mem (.list :: frames)) rest
  | @object members keys h ih =>
    have opened : Expect.value.step frames .braceOpen = .ok (.more .first (.object :: frames)) := rfl
    have colon : Expect.colon.step (.object :: frames) .colon =
      .ok (.more .value (.object :: frames)) := rfl
    rw [Json.object, List.cons_append, skipFrom_of_more opened, List.append_assoc]
    apply skipFrom_separated rfl rfl rfl
    · intro item mem rest
      obtain ⟨m, hm, rfl⟩ := List.mem_map.mp mem
      rw [List.cons_append, skipFrom_of_more (step_first_key (keys m hm) frames),
        skipFrom_of_more (step_key (keys m hm) _)]
    · intro item mem rest
      obtain ⟨m, hm, rfl⟩ := List.mem_map.mp mem
      rw [List.cons_append, skipFrom_of_more (step_key (keys m hm) _), List.cons_append,
        skipFrom_of_more colon, ih m hm]
      rfl

theorem skip_append {ts : List Token} (h : IsValue ts) (rest : List Token) :
    skip (ts ++ rest) = .ok rest := h.skipFrom_value [] rest

end IsValue

end TapeC.Json
