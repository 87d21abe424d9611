import Mathlib.Algebra.Order.Ring.Nat
import TapeC.Program.Binary

namespace TapeC

namespace Binary

/-- A reader that takes no bytes. -/
def Reader.give {α : Type} (a : α) : Reader α := fun bytes => .ok (a, bytes)

/-- Reads, and then reads on with what the value chooses. -/
def Reader.andThen {α β : Type} (read : Reader α) (next : α → Reader β) : Reader β := fun bytes =>
  read bytes >>= fun (a, rest) => next a rest

def Reader.map {α β : Type} (read : Reader α) (build : α → β) : Reader β :=
  read.andThen fun a => .give (build a)

/-- A reader is exact for a way of writing, on the values that have a written form. -/
structure Exact {α : Type} (valid : α → Prop) (write : α → List UInt8) (read : Reader α) :
    Prop where
  reads : ∀ {a : α} (rest : List UInt8), valid a → read (write a ++ rest) = .ok (a, rest)
  truncated : ∀ {a : α} {cut : List UInt8}, valid a → cut <+: write a → cut ≠ write a →
    read cut = .error .endOfData
  canonical : ∀ {a : α} {bytes rest : List UInt8}, read bytes = .ok (a, rest) →
    valid a ∧ bytes = write a ++ rest

theorem bind_eq_ok {α β : Type} {x : Except Error α} {f : α → Except Error β} {b : β}
    (h : x >>= f = .ok b) : ∃ a, x = .ok a ∧ f a = .ok b := by
  cases x with
  | ok a => exact ⟨a, rfl, h⟩
  | error e => cases h

/-- Where two parts are cut short, the first one is, or the second one is behind the first. -/
theorem cut_append {first second cut : List UInt8} (h : cut <+: first ++ second)
    (hne : cut ≠ first ++ second) :
    (cut <+: first ∧ cut ≠ first) ∨
      ∃ front, cut = first ++ front ∧ front <+: second ∧ front ≠ second := by
  by_cases hf : first <+: cut
  · obtain ⟨front, rfl⟩ := hf
    refine .inr ⟨front, rfl, (List.prefix_append_right_inj first).mp h, ?_⟩
    intro heq
    exact hne (by rw [heq])
  · refine .inl ⟨?_, ?_⟩
    · exact (List.prefix_or_prefix_of_prefix h (List.prefix_append _ _)).resolve_right hf
    · rintro rfl
      exact hf (List.prefix_refl _)

section Readers

variable {α β : Type} {valid : α → Prop} {write : α → List UInt8} {read : Reader α}

/-- A single value that takes no bytes. -/
theorem exact_give {a : α} (hvalid : ∀ b, valid b ↔ b = a) (hwrite : write a = []) :
    Exact valid write (.give a) := by
  constructor
  · intro b rest hb
    rw [(hvalid b).mp hb, hwrite]
    rfl
  · intro b cut hb hcut hne
    rw [(hvalid b).mp hb, hwrite] at hcut hne
    exact absurd (List.prefix_nil.mp hcut) hne
  · intro b bytes rest h
    cases h
    exact ⟨(hvalid a).mpr rfl, by rw [hwrite, List.nil_append]⟩

theorem andThen_ok {a : α} {bytes rest : List UInt8} (h : read bytes = .ok (a, rest))
    (next : α → Reader β) : read.andThen next bytes = next a rest := by
  rw [Reader.andThen, h]
  rfl

theorem andThen_error {e : Error} {bytes : List UInt8} (h : read bytes = .error e)
    (next : α → Reader β) : read.andThen next bytes = .error e := by
  rw [Reader.andThen, h]
  rfl

/-- Two readers in a row, the second chosen by what the first one found, are exact for the two
written forms in a row. -/
theorem Exact.andThen {valid₂ : α → β → Prop} {write₂ : α → β → List UInt8}
    {next : α → Reader β} {valid' : β → Prop} {write' : β → List UInt8}
    (first : Exact valid write read)
    (second : ∀ a, valid a → Exact (valid₂ a) (write₂ a) (next a))
    (hvalid : ∀ b, valid' b ↔ ∃ a, valid a ∧ valid₂ a b)
    (hwrite : ∀ a b, valid₂ a b → write' b = write a ++ write₂ a b) :
    Exact valid' write' (read.andThen next) := by
  constructor
  · intro b rest hb
    obtain ⟨a, ha, hb⟩ := (hvalid b).mp hb
    rw [hwrite a b hb, List.append_assoc, andThen_ok (first.reads _ ha)]
    exact (second a ha).reads rest hb
  · intro b cut hb hcut hne
    obtain ⟨a, ha, hb⟩ := (hvalid b).mp hb
    rw [hwrite a b hb] at hcut hne
    rcases cut_append hcut hne with ⟨hf, hfne⟩ | ⟨front, rfl, hs, hsne⟩
    · exact andThen_error (first.truncated ha hf hfne) next
    · rw [andThen_ok (first.reads front ha)]
      exact (second a ha).truncated hb hs hsne
  · intro b bytes rest h
    obtain ⟨⟨a, middle⟩, hfirst, hsecond⟩ := bind_eq_ok h
    obtain ⟨ha, rfl⟩ := first.canonical hfirst
    obtain ⟨hb, rfl⟩ := (second a ha).canonical hsecond
    exact ⟨(hvalid b).mpr ⟨a, ha, hb⟩, by rw [hwrite a b hb, List.append_assoc]⟩

/-- A value built from another one keeps its written form. -/
theorem Exact.map {valid' : β → Prop} {write' : β → List UInt8} (h : Exact valid write read)
    (build : α → β) (hvalid : ∀ b, valid' b ↔ ∃ a, valid a ∧ b = build a)
    (hwrite : ∀ a, valid a → write' (build a) = write a) :
    Exact valid' write' (read.map build) := by
  have second : ∀ a, valid a →
      Exact (fun b => valid a ∧ b = build a) (fun _ => []) (.give (build a)) := by
    intro a ha
    exact exact_give (by simp [ha]) rfl
  refine h.andThen second ?_ ?_
  · intro b
    simp [hvalid]
  · rintro a _ ⟨ha, rfl⟩
    rw [hwrite a ha, List.append_nil]

/-- Numbers that fit into a count of bytes. -/
theorem exact_decode (width : Nat) : Exact (· < 256 ^ width) (encode width) (decode width) := by
  induction width with
  | zero => exact exact_give (by simp) rfl
  | succ width ih =>
    have hroom : ∀ n, n < 256 ^ (width + 1) → n / 256 < 256 ^ width := by
      intro n hn
      rw [Nat.pow_succ] at hn
      omega
    constructor
    · intro n rest hn
      have hlow : (UInt8.ofNat (n % 256)).toNat = n % 256 := by simp
      have hsum : n % 256 + 256 * (n / 256) = n := Nat.mod_add_div n 256
      simp only [encode, List.cons_append, decode, ih.reads rest (hroom n hn)]
      change Except.ok ((UInt8.ofNat (n % 256)).toNat + 256 * (n / 256), rest) = _
      rw [hlow, hsum]
    · intro n cut hn hcut hne
      cases cut with
      | nil => rfl
      | cons byte front =>
        obtain ⟨rfl, hf⟩ := List.cons_prefix_cons.mp hcut
        have hfne : front ≠ encode width (n / 256) := by
          rintro rfl
          exact hne rfl
        simp only [decode, ih.truncated (hroom n hn) hf hfne]
        rfl
    · intro n bytes rest h
      cases bytes with
      | nil => cases h
      | cons byte tail =>
        obtain ⟨⟨m, left⟩, hm, h⟩ := bind_eq_ok h
        cases h
        obtain ⟨hbound, rfl⟩ := ih.canonical hm
        have hlt := byte.toNat_lt
        have hlow : (byte.toNat + 256 * m) % 256 = byte.toNat := by omega
        have hhigh : (byte.toNat + 256 * m) / 256 = m := by omega
        refine ⟨?_, ?_⟩
        · rw [Nat.pow_succ]
          omega
        · simp only [encode, hlow, hhigh, UInt8.ofNat_toNat, List.cons_append]

theorem exact_decodeUInt32 : Exact (fun _ => True) encodeUInt32 decodeUInt32 := by
  have read : decodeUInt32 = (decode 4).map UInt32.ofNat := rfl
  rw [read]
  refine (exact_decode 4).map UInt32.ofNat ?_ ?_
  · intro n
    have hlt := n.toNat_lt
    simp only [true_iff]
    exact ⟨n.toNat, by omega, by simp⟩
  · intro n hn
    have hsame : (UInt32.ofNat n).toNat = n := UInt32.toNat_ofNat_of_lt' hn
    rw [encodeUInt32, hsame]

theorem exact_decodeInt32 : Exact (fun _ => True) encodeInt32 decodeInt32 := by
  have read : decodeInt32 = decodeUInt32.map UInt32.toInt32 := rfl
  rw [read]
  refine exact_decodeUInt32.map UInt32.toInt32 ?_ ?_
  · intro n
    simp only [true_iff, true_and]
    exact ⟨n.toUInt32, by simp⟩
  · intro n _
    simp [encodeInt32]

theorem exact_decodeOption : Exact (fun _ => True) encodeOption decodeOption := by
  have hword := exact_decodeInt32
  constructor
  · intro offset rest _
    cases offset with
    | none => rfl
    | some n =>
      simp only [encodeOption, List.cons_append, decodeOption, hword.reads rest trivial]
      rfl
  · intro offset cut _ hcut hne
    cases cut with
    | nil => rfl
    | cons tag front =>
      cases offset with
      | none =>
        obtain ⟨rfl, hf⟩ := List.cons_prefix_cons.mp hcut
        cases List.prefix_nil.mp hf
        exact absurd rfl hne
      | some n =>
        obtain ⟨rfl, hf⟩ := List.cons_prefix_cons.mp hcut
        have hfne : front ≠ encodeInt32 n := by
          rintro rfl
          exact hne rfl
        simp only [decodeOption, hword.truncated trivial hf hfne]
        rfl
  · intro offset bytes rest h
    cases bytes with
    | nil => cases h
    | cons tag tail =>
      simp only [decodeOption] at h
      split at h
      next hz =>
        cases h
        exact ⟨trivial, by simp [encodeOption, hz]⟩
      next =>
        split at h
        next ho =>
          obtain ⟨⟨n, left⟩, hn, h⟩ := bind_eq_ok h
          cases h
          obtain ⟨_, rfl⟩ := hword.canonical hn
          exact ⟨trivial, by simp [encodeOption, ho]⟩
        next => cases h

/-- A count of items, one after the other. -/
theorem exact_decodeMany (item : Exact (fun _ => True) write read) (count : Nat) :
    Exact (·.length = count) (·.flatMap write) (decodeMany read count) := by
  induction count with
  | zero => exact exact_give (by simp) rfl
  | succ count ih =>
    have read_succ : decodeMany read (count + 1) =
        read.andThen fun a => (decodeMany read count).map (List.cons a) := rfl
    have second : ∀ a, True → Exact (fun as => ∃ more, more.length = count ∧ as = a :: more)
        (·.tail.flatMap write) ((decodeMany read count).map (List.cons a)) := by
      intro a _
      exact ih.map (List.cons a) (fun _ => Iff.rfl) fun _ _ => rfl
    rw [read_succ]
    refine item.andThen second ?_ ?_
    · intro as
      cases as with
      | nil => simp
      | cons a more => simp
    · rintro a _ ⟨more, _, rfl⟩
      rfl

end Readers

end Binary

namespace Instr

open Binary

/-- Reads the arguments of an instruction of some variant. -/
def decodeArguments : Nat → Reader Instr
  | 0 => decodeInt32.map move
  | 1 => decodeInt32.map adjust
  | 2 => .give output
  | 3 => .give input
  | 4 => .give loopStart
  | 5 => .give loopEnd
  | 6 => decodeInt32.andThen fun value => decodeOption.map (assign value)
  | index + 7 => fun _ => .error (.unknownVariant (index + 7) 7)

theorem decodeBytes_eq_andThen : decodeBytes = (Binary.decode 4).andThen decodeArguments := by
  funext bytes
  unfold decodeBytes Reader.andThen
  congr
  funext ⟨index, rest⟩
  match index with
  | 0 | 1 | 2 | 3 | 4 | 5 | 6 => rfl
  | index + 7 => rfl

/-- The binary form of an assignment's offset. -/
def offsetBytes : Instr → List UInt8
  | assign _ offset => encodeOption offset
  | _ => []

theorem exact_decodeAssign : Exact (·.variant = 6) argumentBytes (decodeArguments 6) := by
  have offsets : ∀ value, True → Exact (fun i => ∃ offset, i = assign value offset)
      offsetBytes (decodeOption.map (assign value)) := by
    intro value _
    exact exact_decodeOption.map (assign value) (by simp) fun _ _ => rfl
  refine exact_decodeInt32.andThen offsets ?_ ?_
  · intro i
    cases i <;> simp [variant]
  · rintro value _ ⟨offset, rfl⟩
    rfl

theorem exact_decodeArguments (index : Nat) :
    Exact (·.variant = index) argumentBytes (decodeArguments index) := by
  -- An instruction without arguments is the only one of its variant.
  have only : ∀ i : Instr, i.argumentBytes = [] → ∀ j : Instr, j.variant = i.variant ↔ j = i := by
    intro i hi j
    cases i <;> cases j <;>
      simp [variant, argumentBytes, encodeInt32, encodeUInt32, Binary.encode] at hi ⊢
  match index with
  | 0 =>
    refine exact_decodeInt32.map move ?_ fun _ _ => rfl
    intro i
    cases i <;> simp [variant]
  | 1 =>
    refine exact_decodeInt32.map adjust ?_ fun _ _ => rfl
    intro i
    cases i <;> simp [variant]
  | 2 => exact exact_give (only output rfl) rfl
  | 3 => exact exact_give (only input rfl) rfl
  | 4 => exact exact_give (only loopStart rfl) rfl
  | 5 => exact exact_give (only loopEnd rfl) rfl
  | 6 => exact exact_decodeAssign
  | index + 7 =>
    have none : ∀ i : Instr, i.variant ≠ index + 7 := by
      intro i
      cases i <;> simp only [variant] <;> omega
    exact ⟨fun _ h => absurd h (none _), fun h => absurd h (none _), fun h => by cases h⟩

theorem exact_decodeBytes : Exact (fun _ => True) toBytes decodeBytes := by
  rw [decodeBytes_eq_andThen]
  refine (exact_decode 4).andThen (fun index _ => exact_decodeArguments index) ?_ ?_
  · intro i
    have bound : i.variant < 256 ^ 4 := by
      cases i <;> simp [variant]
    exact ⟨fun _ => ⟨i.variant, bound, rfl⟩, fun _ => trivial⟩
  · rintro _ i rfl
    rfl

end Instr

namespace Program

open Binary

/-- Reads a program and hands on what follows it. -/
def decodeBytes : Reader Program :=
  (decode 8).andThen fun count =>
    (decodeMany Instr.decodeBytes count).andThen fun code => decodeUInt32.map (mk code)

theorem ofBytes_eq_map (bytes : List UInt8) :
    ofBytes bytes = Prod.fst <$> decodeBytes bytes := by
  unfold ofBytes decodeBytes Reader.andThen
  rw [map_bind]
  congr
  funext ⟨count, rest⟩
  simp only [map_bind]
  congr
  funext ⟨code, rest⟩
  change _ = Prod.fst <$> (decodeUInt32 rest >>= fun found => .ok (mk code found.1, found.2))
  rw [map_bind]
  rfl

theorem exact_decodeBytes : Exact (·.code.length < 256 ^ 8) toBytes decodeBytes := by
  have versions : ∀ code : Code, Exact (fun p : Program => p.code = code)
      (fun p => encodeUInt32 p.version) (decodeUInt32.map (mk code)) := by
    intro code
    refine exact_decodeUInt32.map (mk code) ?_ fun _ _ => rfl
    rintro ⟨other, version⟩
    simp
  have codes : ∀ count, count < 256 ^ 8 → Exact (fun p : Program => p.code.length = count)
      (fun p => p.code.flatMap Instr.toBytes ++ encodeUInt32 p.version)
      ((decodeMany Instr.decodeBytes count).andThen fun code => decodeUInt32.map (mk code)) := by
    intro count _
    refine (exact_decodeMany Instr.exact_decodeBytes count).andThen
      (fun code _ => versions code) ?_ ?_
    · intro p
      simp
    · rintro _ p rfl
      rfl
  refine (exact_decode 8).andThen codes ?_ ?_
  · intro p
    simp
  · rintro _ p rfl
    simp [toBytes]

end Program

/-- The binary form of a program whose code eight bytes can count is read back whatever follows it,
and cannot be cut short anywhere; and whatever is read as a program starts with its binary form. -/
theorem program_bytes_exact :
    (∀ p : Program, p.code.length < 2 ^ 64 →
      (∀ more, Program.ofBytes (p.toBytes ++ more) = .ok p) ∧
      ∀ cut, cut <+: p.toBytes → cut ≠ p.toBytes →
        Program.ofBytes cut = .error .endOfData) ∧
    ∀ (bytes : List UInt8) (p : Program), Program.ofBytes bytes = .ok p → p.toBytes <+: bytes := by
  have exact := Program.exact_decodeBytes
  refine ⟨fun p counted => ⟨fun more => ?_, fun cut hcut hne => ?_⟩, fun bytes p h => ?_⟩
  · rw [Program.ofBytes_eq_map, exact.reads more counted]
    rfl
  · rw [Program.ofBytes_eq_map, exact.truncated counted hcut hne]
    rfl
  · rw [Program.ofBytes_eq_map] at h
    cases hr : Program.decodeBytes bytes with
    | error e =>
      rw [hr] at h
      cases h
    | ok found =>
      rw [hr] at h
      cases h
      exact ⟨found.2, (exact.canonical hr).2.symm⟩

/-- Arguments of every shape, bytes that follow, and a cut inside the version. -/
theorem program_bytes_exact_arguments :
    let p : Program := ⟨[.move (-2), .loopStart, .assign 300 (some (-1)), .loopEnd, .clear], 7⟩
    p.code.length < 2 ^ 64 ∧ Program.ofBytes (p.toBytes ++ [9]) = .ok p ∧
      Program.ofBytes (p.toBytes.take 48) = .error .endOfData ∧ p.toBytes <+: p.toBytes ++ [9] := by
  intro p
  have counted : p.code.length < 2 ^ 64 := by decide
  have read := (program_bytes_exact.1 p counted).1 [9]
  have cut := (program_bytes_exact.1 p counted).2 (p.toBytes.take 48) (List.take_prefix _ _)
    (by decide)
  exact ⟨counted, read, cut, program_bytes_exact.2 _ p read⟩

end TapeC
