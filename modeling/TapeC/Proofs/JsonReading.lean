import TapeC.Json.Reader
import TapeC.Proofs.JsonSpelling

namespace TapeC.Json

/-- Items with commas between them. -/
def separated : List (List Token) → List Token
  | [] => []
  | item :: items => item ++ items.flatMap (.comma :: ·)

def array (items : List (List Token)) : List Token :=
  .bracketOpen :: (separated items ++ [.bracketClose])

def member (name : String) (value : List Token) : List Token := .string name :: .colon :: value

def object (members : List (List Token)) : List Token :=
  .braceOpen :: (separated members ++ [.braceClose])

/-- The number of tokens bounds the number of items. -/
theorem length_lt_separated (first : List Token) (items : List (List Token)) (close : Token)
    (rest : List Token) :
    items.length < (first ++ (items.flatMap (.comma :: ·) ++ close :: rest)).length := by
  have room : items.length ≤ (items.flatMap (.comma :: ·)).length := by
    induction items with
    | nil => exact Nat.le_refl 0
    | cons item items ih =>
      simp only [List.flatMap_cons, List.length_cons, List.length_append]
      omega
  simp only [List.length_append, List.length_cons]
  omega

namespace Apart

theorem flatMap_comma {items : List (List Token)} (h : ∀ item ∈ items, Apart item) :
    Apart (items.flatMap (.comma :: ·)) ∧
      ∀ token ∈ (items.flatMap (.comma :: ·)).head?, token.isNumber = false := by
  induction items with
  | nil => exact ⟨List.IsChain.nil, by simp⟩
  | cons item items ih =>
    obtain ⟨rest, first⟩ := ih fun next mem => h next (List.mem_cons_of_mem _ mem)
    have hitem := h item List.mem_cons_self
    refine ⟨?_, by simp [Token.isNumber]⟩
    rw [List.flatMap_cons, List.cons_append]
    exact .cons rfl (hitem.append rest first)

/-- Items between commas and in front of a closing mark. -/
theorem separated_append {items : List (List Token)} (h : ∀ item ∈ items, Apart item)
    {close : Token} (hclose : close.isNumber = false) : Apart (separated items ++ [close]) := by
  have hend : Apart [close] := .singleton close
  have last : ∀ token ∈ [close].head?, token.isNumber = false := by simpa using hclose
  cases items with
  | nil => exact hend
  | cons item items =>
    obtain ⟨rest, first⟩ := flatMap_comma fun next mem => h next (List.mem_cons_of_mem _ mem)
    exact ((h item List.mem_cons_self).append rest first).append hend last

theorem array {items : List (List Token)} (h : ∀ item ∈ items, Apart item) :
    Apart (array items) := .cons rfl (separated_append h rfl)

theorem object {members : List (List Token)} (h : ∀ item ∈ members, Apart item) :
    Apart (object members) := .cons rfl (separated_append h rfl)

theorem member (name : String) {value : List Token} (h : Apart value) :
    Apart (member name value) := .cons rfl (.cons rfl h)

end Apart

namespace Legible

theorem singleton {token : Token} (h : token.Spelt) : Legible [token] :=
  ⟨by simpa using h, .singleton _⟩

theorem spelt_separated {items : List (List Token)} (h : ∀ item ∈ items, Legible item) :
    ∀ token ∈ separated items, token.Spelt := by
  intro token mem
  cases items with
  | nil => cases mem
  | cons first items =>
    simp only [separated, List.mem_append, List.mem_flatMap, List.mem_cons] at mem
    rcases mem with mem | ⟨item, hitem, rfl | mem⟩
    · exact (h first List.mem_cons_self).spelt token mem
    · trivial
    · exact (h item (List.mem_cons_of_mem _ hitem)).spelt token mem

theorem array {items : List (List Token)} (h : ∀ item ∈ items, Legible item) :
    Legible (array items) where
  spelt token mem := by
    simp only [Json.array, List.mem_cons, List.mem_append, List.not_mem_nil, or_false] at mem
    rcases mem with rfl | mem | rfl
    exacts [trivial, spelt_separated h token mem, trivial]
  apart := .array fun item mem => (h item mem).apart

theorem object {members : List (List Token)} (h : ∀ item ∈ members, Legible item) :
    Legible (object members) where
  spelt token mem := by
    simp only [Json.object, List.mem_cons, List.mem_append, List.not_mem_nil, or_false] at mem
    rcases mem with rfl | mem | rfl
    exacts [trivial, spelt_separated h token mem, trivial]
  apart := .object fun item mem => (h item mem).apart

theorem member (name : String) {value : List Token} (h : Legible value) :
    Legible (member name value) where
  spelt := List.forall_mem_cons.mpr ⟨trivial, List.forall_mem_cons.mpr ⟨trivial, h.spelt⟩⟩
  apart := .member name h.apart

end Legible

/-- A reader takes exactly these tokens from the front of any others and gives this value. -/
def Reads {α : Type} (reader : Reader α) (ts : List Token) (a : α) : Prop :=
  ∀ rest, reader (ts ++ rest) = .ok (a, rest)

/-- Tokens that an item of a list may begin with: any but the closing bracket. -/
def Opens (ts : List Token) : Prop := ∃ token rest, ts = token :: rest ∧ token ≠ .bracketClose

/-- The members of an object, in order, take one draft of a record to another. -/
inductive Record.Fills {δ α : Type} (r : Record δ α) : δ → List (List Token) → δ → Prop
  | nil (draft : δ) : Fills r draft [] draft
  | cons {name : String} {field : Field δ} {value : List Token} {draft next final : δ}
      {members : List (List Token)} (found : r.fields.find? (·.name == name) = some field)
      (fresh : field.given draft = false) (head : Reads (field.read draft) value next)
      (tail : Fills r next members final) :
      Fills r draft (member name value :: members) final
  | skipped {name : String} {value : List Token} {draft final : δ} {members : List (List Token)}
      (unknown : r.fields.find? (·.name == name) = none)
      (head : ∀ rest, skip (value ++ rest) = .ok rest) (tail : Fills r draft members final) :
      Fills r draft (member name value :: members) final

namespace Reads

variable {α β δ : Type}

/-! ### Numbers and truth values -/

theorem int {least greatest value : Int} (expected : String)
    (h : least ≤ value ∧ value ≤ greatest) :
    Reads (readInt least greatest expected) [.number (.integer value)] value := by
  intro rest
  simp [readInt, h]

theorem int32 (value : Int32) : Reads readInt32 [.number (.integer value.toInt)] value := by
  intro rest
  have lower := value.le_toInt
  have upper := value.toInt_lt
  have bounds : -0x80000000 ≤ value.toInt ∧ value.toInt ≤ 0x7fffffff := by omega
  rw [readInt32, int "i32" bounds rest]
  simp [bind, Except.bind, pure, Except.pure]

theorem uint32 (value : UInt32) : Reads readUInt32 [.number (.integer value.toNat)] value := by
  intro rest
  have upper := value.toNat_lt
  have bounds : (0 : Int) ≤ value.toNat ∧ (value.toNat : Int) ≤ 0xffffffff := by omega
  rw [readUInt32, int "u32" bounds rest]
  simp [bind, Except.bind, pure, Except.pure]

theorem nat64 (expected : String) {value : Nat} (h : value < UInt64.size) :
    Reads (readNat64 expected) [.number (.integer value)] value := by
  intro rest
  have bounds : (0 : Int) ≤ value ∧ (value : Int) ≤ 0xffffffffffffffff := by
    simp only [UInt64.size] at h
    omega
  rw [readNat64, int expected bounds rest]
  simp [bind, Except.bind, pure, Except.pure]

theorem bool (b : Bool) : Reads readBool [.bool b] b := fun _ => rfl

theorem option_some {item : Reader α} {token : Token} {ts : List Token} {a : α}
    (h : Reads item (token :: ts) a) (hnull : token ≠ .null) :
    Reads (readOption item) (token :: ts) (some a) := by
  intro rest
  have hread := h rest
  rw [List.cons_append] at hread ⊢
  rw [readOption]
  · rw [hread]
    rfl
  · intro more heq
    exact hnull (List.cons.inj heq).1

/-! ### Lists -/

theorem nextItem_first {ts : List Token} (h : Opens ts) (rest : List Token) :
    nextItem true (ts ++ rest) = .ok (some (ts ++ rest)) := by
  obtain ⟨token, tail, rfl, hclose⟩ := h
  simp [nextItem, hclose]

theorem nextItem_comma {ts : List Token} (h : Opens ts) (rest : List Token) :
    nextItem false (.comma :: (ts ++ rest)) = .ok (some (ts ++ rest)) := by
  obtain ⟨token, tail, rfl, hclose⟩ := h
  simp [nextItem, hclose]

theorem readItems_comma {item : Reader α} {write : α → List Token} {as : List α}
    (opens : ∀ a ∈ as, Opens (write a)) (h : ∀ a ∈ as, Reads item (write a) a) {bound : Nat}
    (enough : as.length < bound) (rest : List Token) :
    readItems item bound false
      ((as.map write).flatMap (.comma :: ·) ++ .bracketClose :: rest) = .ok (as, rest) := by
  induction as generalizing bound with
  | nil =>
    obtain ⟨bound, rfl⟩ := Nat.exists_eq_succ_of_ne_zero (Nat.ne_of_gt enough)
    rfl
  | cons a as ih =>
    obtain ⟨bound, rfl⟩ := Nat.exists_eq_succ_of_ne_zero (Nat.ne_of_gt (Nat.zero_lt_of_lt enough))
    have hmore := ih (fun b mem => opens b (List.mem_cons_of_mem _ mem))
      (fun b mem => h b (List.mem_cons_of_mem _ mem)) (Nat.lt_of_succ_lt_succ enough)
    rw [List.map_cons, List.flatMap_cons, List.cons_append, List.cons_append, List.append_assoc,
      readItems, nextItem_comma (opens a List.mem_cons_self)]
    simp only [bind, Except.bind, h a List.mem_cons_self _, hmore]
    rfl

theorem list {item : Reader α} {write : α → List Token} {as : List α}
    (opens : ∀ a ∈ as, Opens (write a)) (h : ∀ a ∈ as, Reads item (write a) a) :
    Reads (readList item) (array (as.map write)) as := by
  intro rest
  rw [array, List.cons_append, readList]
  cases as with
  | nil => rfl
  | cons a as =>
    rw [List.map_cons, separated, List.append_assoc, List.append_assoc, List.singleton_append]
    have enough := length_lt_separated (write a) (as.map write) .bracketClose rest
    rw [List.length_map] at enough
    have hmore := readItems_comma (fun b mem => opens b (List.mem_cons_of_mem _ mem))
      (fun b mem => h b (List.mem_cons_of_mem _ mem)) enough rest
    rw [readItems, nextItem_first (opens a List.mem_cons_self)]
    simp only [bind, Except.bind, h a List.mem_cons_self _, hmore]
    rfl

/-! ### Records -/

/-- A field that is kept as an option. -/
theorem field {name : String} {get : δ → Option β} {set : δ → β → δ} {item : Reader β}
    {value : List Token} {b : β} (h : Reads item value b) (draft : δ) :
    Reads ((Field.of name get set item).read draft) value (set draft b) := by
  intro rest
  simp only [Field.of]
  rw [h rest]
  rfl

theorem fills_cons {r : Record δ α} {name : String} {get : δ → Option β} {set : δ → β → δ}
    {item : Reader β} {value : List Token} {b : β} {draft final : δ} {members : List (List Token)}
    (h : Reads item value b) (found : r.fields.find? (·.name == name) = some (.of name get set item))
    (fresh : get draft = none) (tail : r.Fills (set draft b) members final) :
    r.Fills draft (member name value :: members) final := by
  apply Record.Fills.cons found _ (h.field draft) tail
  simp [Field.of, fresh]

/-- What reading the first of some members comes to. -/
theorem exists_readMembers {r : Record δ α} {draft final : δ} {item : List Token}
    {members : List (List Token)} (fills : r.Fills draft (item :: members) final) :
    ∃ name value next, item = member name value ∧ r.Fills next members final ∧
      ∀ {first : Bool} {ts rest : List Token},
        nextKey first ts = .ok (some (name, .colon :: (value ++ rest))) → ∀ bound,
          r.readMembers (bound + 1) first draft ts = r.readMembers bound false next rest := by
  cases fills with
  | @cons name field value _ next _ _ found fresh head tail =>
    refine ⟨name, value, next, rfl, tail, ?_⟩
    intro first ts rest key bound
    rw [Record.readMembers, key]
    simp only [bind, Except.bind, found, fresh]
    simp only [readColon, head rest]
    rfl
  | @skipped name value _ _ _ unknown head tail =>
    refine ⟨name, value, draft, rfl, tail, ?_⟩
    intro first ts rest key bound
    rw [Record.readMembers, key]
    simp only [bind, Except.bind, unknown, readColon, head rest]

theorem readMembers_close {r : Record δ α} {draft : δ} {a : α} (complete : r.complete draft = .ok a)
    (bound : Nat) (first : Bool) (rest : List Token) :
    r.readMembers (bound + 1) first draft (.braceClose :: rest) = .ok (a, rest) := by
  simp [Record.readMembers, nextKey, complete, bind, Except.bind, pure, Except.pure]

theorem readMembers_comma {r : Record δ α} {draft final : δ} {members : List (List Token)}
    (fills : r.Fills draft members final) {a : α} (complete : r.complete final = .ok a)
    {bound : Nat} (enough : members.length < bound) (rest : List Token) :
    r.readMembers bound false draft (members.flatMap (.comma :: ·) ++ .braceClose :: rest) =
      .ok (a, rest) := by
  induction members generalizing draft bound with
  | nil =>
    obtain ⟨bound, rfl⟩ := Nat.exists_eq_succ_of_ne_zero (Nat.ne_of_gt enough)
    cases fills
    exact readMembers_close complete bound false rest
  | cons item members ih =>
    obtain ⟨bound, rfl⟩ := Nat.exists_eq_succ_of_ne_zero (Nat.ne_of_gt (Nat.zero_lt_of_lt enough))
    obtain ⟨name, value, next, rfl, tail, head⟩ := exists_readMembers fills
    rw [List.flatMap_cons, List.cons_append, List.cons_append, List.append_assoc]
    exact (head rfl bound).trans (ih tail (Nat.lt_of_succ_lt_succ enough))

theorem record {r : Record δ α} {members : List (List Token)} {final : δ} {a : α}
    (fills : r.Fills r.draft members final) (complete : r.complete final = .ok a) :
    Reads r.read (object members) a := by
  intro rest
  rw [object, List.cons_append, Record.read]
  cases members with
  | nil =>
    cases fills
    exact readMembers_close complete _ true rest
  | cons item members =>
    obtain ⟨name, value, next, rfl, tail, head⟩ := exists_readMembers fills
    rw [separated, List.append_assoc, List.append_assoc, List.singleton_append]
    have enough := length_lt_separated (member name value) members .braceClose rest
    exact (head rfl _).trans (readMembers_comma tail complete enough rest)

/-! ### Variants -/

theorem bareVariant {variants : List (String × Payload α)} {name : String} {a : α}
    (found : variants.lookup name = some (.nothing a)) :
    Reads (readVariant variants) [.string name] a := by
  intro rest
  simp [readVariant, findVariant, found, bind, Except.bind, pure, Except.pure]

theorem variant {variants : List (String × Payload α)} {name : String} {payload : Payload α}
    (found : variants.lookup name = some payload) {value : List Token} {a : α}
    (h : Reads payload.read value a) :
    Reads (readVariant variants) (object [member name value]) a := by
  intro rest
  have hread := h (.braceClose :: rest)
  simp [object, separated, member, readVariant, readVariantName, readKey, readColon, findVariant,
    found, hread, bind, Except.bind, pure, Except.pure]

/-! ### Texts -/

theorem written {reader : Reader α} {ts : List Token} {a : α} (h : Reads reader ts a)
    {text : String} (written : Written ts text.toList) (apart : Apart ts) :
    readText reader text = .ok a := by
  have hread := h []
  rw [List.append_nil] at hread
  rw [readText, written.tokens_eq apart, hread]
  rfl

theorem text {reader : Reader α} {ts : List Token} {a : α} (h : Reads reader ts a)
    {text : String} (spaced : Spaced ts text.toList) (legible : Legible ts) :
    readText reader text = .ok a :=
  h.written (spaced.written legible.spelt) legible.apart

end Reads

end TapeC.Json
