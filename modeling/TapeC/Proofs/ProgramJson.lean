import Mathlib.Data.List.Permutation
import TapeC.Program.Json
import TapeC.Proofs.JsonReading

namespace TapeC

open Json (Token Legible Opens Reads Record Spaced)

theorem Json.memberTokens_eq (name : String) (value : List Token) :
    Json.memberTokens name value = Json.object [Json.member name value] := by
  simp [Json.memberTokens, Json.object, Json.separated, Json.member, Token.key]

theorem Json.legible_int32 (value : Int32) : Legible [.int32 value] := by
  have lower := value.le_toInt
  have upper := value.toInt_lt
  apply Legible.singleton
  show -0x8000000000000000 ≤ value.toInt ∧ value.toInt ≤ 0xffffffffffffffff
  omega

theorem Json.legible_object_member (name : String) {value : List Token} (h : Legible value) :
    Legible (Json.object [Json.member name value]) := by
  apply Legible.object
  intro item mem
  rw [List.mem_singleton.mp mem]
  exact .member name h

namespace Instr

/-! ### Instructions -/

/-- The members of an assignment. -/
def assignMembers (value : Int32) (offset : Option Int32) : List (List Token) :=
  [Json.member "value" [.int32 value], Json.member "offset" [offsetToken offset]]

theorem jsonTokens_assign (value : Int32) (offset : Option Int32) :
    (assign value offset).jsonTokens =
      Json.object [Json.member "Assign" (Json.object (assignMembers value offset))] := by
  rw [jsonTokens, Json.memberTokens_eq]
  rfl

theorem legible_jsonTokens (i : Instr) : Legible i.jsonTokens := by
  cases i with
  | move count | adjust count =>
    rw [jsonTokens, Json.memberTokens_eq]
    exact Json.legible_object_member _ (Json.legible_int32 count)
  | assign value offset =>
    have hoffset : Legible [offsetToken offset] := by
      cases offset with
      | none => exact .singleton trivial
      | some offset => exact Json.legible_int32 offset
    rw [jsonTokens_assign]
    apply Json.legible_object_member
    apply Legible.object
    intro item mem
    rcases List.mem_pair.mp mem with rfl | rfl
    · exact .member "value" (Json.legible_int32 value)
    · exact .member "offset" hoffset
  | _ => exact .singleton trivial

theorem opens_jsonTokens (i : Instr) : Opens i.jsonTokens := by
  cases i <;> exact ⟨_, _, rfl, by simp [Token.key]⟩

theorem reads_offset (offset : Option Int32) :
    Reads (Json.readOption Json.readInt32) [offsetToken offset] offset := by
  cases offset with
  | none => exact fun rest => rfl
  | some offset => exact (Reads.int32 offset).option_some (by simp)

theorem reads_assign (value : Int32) (offset : Option Int32) :
    Reads AssignDraft.record.read (Json.object (assignMembers value offset))
      (assign value offset) := by
  have fills : AssignDraft.record.Fills {} (assignMembers value offset)
      { value := some value, offset := some offset } :=
    (Reads.int32 value).fills_cons rfl rfl ((reads_offset offset).fills_cons rfl rfl (.nil _))
  exact .record fills rfl

/-- An instruction is read from its own tokens. -/
theorem reads_jsonTokens (i : Instr) : Reads readJson i.jsonTokens i := by
  cases i with
  | move count | adjust count =>
    rw [jsonTokens, Json.memberTokens_eq]
    apply Reads.variant rfl
    intro rest
    have hcount : Json.readInt32 ([.int32 count] ++ rest) = .ok (count, rest) :=
      Reads.int32 count rest
    simp only [Json.Payload.read]
    rw [hcount]
    rfl
  | assign value offset =>
    rw [jsonTokens_assign]
    apply Reads.variant rfl
    exact reads_assign value offset
  | output | input | loopStart | loopEnd => exact .bareVariant rfl

end Instr

theorem Code.jsonTokens_eq (code : Code) :
    code.jsonTokens = Json.separated (code.map Instr.jsonTokens) := by
  fun_induction Code.jsonTokens code with
  | case1 => rfl
  | case2 i => simp [Json.separated]
  | case3 i rest nonempty ih =>
    obtain ⟨next, more, rfl⟩ := List.exists_cons_of_ne_nil nonempty
    rw [ih]
    simp [Json.separated]

namespace Program

/-! ### Programs -/

def nodesMember (code : Code) : List Token :=
  Json.member "nodes" (Json.array (code.map Instr.jsonTokens))

def versionMember (version : UInt32) : List Token :=
  Json.member "version" [.number (.integer version.toNat)]

/-- The two members of a program's JSON object. -/
def jsonMembers (p : Program) : List (List Token) := [nodesMember p.code, versionMember p.version]

theorem jsonTokens_eq (p : Program) : p.jsonTokens = Json.object p.jsonMembers := by
  rw [jsonTokens, Code.jsonTokens_eq]
  simp [Json.object, jsonMembers, nodesMember, versionMember, Json.member, Json.array, Json.separated,
    Token.key]

theorem legible_jsonMembers (p : Program) : ∀ item ∈ p.jsonMembers, Legible item := by
  intro item mem
  rcases List.mem_pair.mp mem with rfl | rfl
  · apply Legible.member
    apply Legible.array
    intro tokens mem
    obtain ⟨i, _, rfl⟩ := List.mem_map.mp mem
    exact i.legible_jsonTokens
  · have upper := p.version.toNat_lt
    apply Legible.member
    apply Legible.singleton
    show -0x8000000000000000 ≤ (p.version.toNat : Int) ∧ (p.version.toNat : Int) ≤ 0xffffffffffffffff
    omega

theorem reads_code (code : Code) :
    Reads (Json.readList Instr.readJson) (Json.array (code.map Instr.jsonTokens)) code :=
  .list (fun i _ => i.opens_jsonTokens) fun i _ => i.reads_jsonTokens

/-- Either order of the members fills the same draft. -/
theorem reads_jsonMembers (p : Program) {members : List (List Token)}
    (perm : members.Perm p.jsonMembers) :
    Reads ProgramDraft.record.read (Json.object members) p := by
  have fills : ProgramDraft.record.Fills {} members
      { code := some p.code, version := some p.version } := by
    rcases List.perm_pair.mp perm with rfl | rfl
    · exact (reads_code p.code).fills_cons rfl rfl
        ((Reads.uint32 p.version).fills_cons rfl rfl (.nil _))
    · exact (Reads.uint32 p.version).fills_cons rfl rfl
        ((reads_code p.code).fills_cons rfl rfl (.nil _))
  exact .record fills rfl

theorem ofJson_of_spaced (p : Program) {members : List (List Token)}
    (perm : members.Perm p.jsonMembers) {text : String}
    (spaced : Spaced (Json.object members) text.toList) : ofJson text = .ok p := by
  have legible : Legible (Json.object members) :=
    .object fun item mem => p.legible_jsonMembers item (perm.mem_iff.mp mem)
  exact (p.reads_jsonMembers perm).text spaced legible

end Program

/-- A program is read back from its JSON text, and from every text that has the same tokens up to the
order of the two members, with any blanks before, between and after them. -/
theorem program_json_round_trip (p : Program) :
    Program.ofJson p.toJson = .ok p ∧
    Spaced (Json.object p.jsonMembers) p.toJson.toList ∧
    ∀ (members : List (List Token)) (text : String), members.Perm p.jsonMembers →
      Spaced (Json.object members) text.toList → Program.ofJson text = .ok p := by
  have spaced : Spaced (Json.object p.jsonMembers) p.toJson.toList := by
    rw [Program.toJson, Json.render, String.toList_ofList, p.jsonTokens_eq]
    exact Json.spaced_layout 0 _
  exact ⟨p.ofJson_of_spaced (.refl _) spaced, spaced,
    fun _ _ perm spaced => p.ofJson_of_spaced perm spaced⟩

/-- The version first, no blank inside the list, and a blank of each kind elsewhere. -/
theorem program_json_round_trip_exchanged :
    Program.ofJson
      "\t\x7b\"version\" :7,\r\n\"nodes\":[\"Output\",\x7b\"CellAdjust\":-3\x7d] \x7d\n" =
      .ok ⟨[.output, .adjust (-3)], 7⟩ := by
  apply (program_json_round_trip ⟨[.output, .adjust (-3)], 7⟩).2.2
    [Program.versionMember 7, Program.nodesMember [.output, .adjust (-3)]]
  · exact .swap ..
  · have none : ∀ c ∈ ([] : List Char), Json.isSpace c = true := by simp
    have tab : ∀ c ∈ ['\t'], Json.isSpace c = true := by simp [Json.isSpace]
    have blank : ∀ c ∈ [' '], Json.isSpace c = true := by simp [Json.isSpace]
    have lineEnd : ∀ c ∈ ['\r', '\n'], Json.isSpace c = true := by simp [Json.isSpace]
    have newline : ∀ c ∈ ['\n'], Json.isSpace c = true := by simp [Json.isSpace]
    apply Spaced.cons tab .braceOpen
    apply Spaced.cons none (.string "version")
    apply Spaced.cons blank .colon
    iterate 2 apply Spaced.cons none
    apply Spaced.cons lineEnd (.string "nodes")
    iterate 10 apply Spaced.cons none
    apply Spaced.cons blank .braceClose
    exact .nil newline

end TapeC
