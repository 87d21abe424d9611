import TapeC.Proofs.JsonValues
import TapeC.Settings.Json

namespace TapeC

open Json (Token Reader Field Record Reads Apart IsValue Written)

namespace Json

/-! ### Objects with optional fields -/

/-- A field of an object: its name, the values that give it, and when it may be left out. -/
structure Entry where
  name : String
  form : List Token → Prop
  optional : Prop

/-- Members that give entries, each at most once and in any order, among members of other names with
any values; an entry that is never given may be left out. The names are those given before. -/
inductive Presents (entries : List Entry) : List String → List (List Token) → Prop
  | done {given : List String} (h : ∀ e ∈ entries, e.name ∉ given → e.optional) :
      Presents entries given []
  | entry {given : List String} {e : Entry} {value : List Token} {members : List (List Token)}
      (mem : e ∈ entries) (fresh : e.name ∉ given) (form : e.form value)
      (rest : Presents entries (e.name :: given) members) :
      Presents entries given (member e.name value :: members)
  | other {given : List String} {name : String} {value : List Token} {members : List (List Token)}
      (unknown : ∀ e ∈ entries, e.name ≠ name) (h : IsValue value)
      (rest : Presents entries given members) :
      Presents entries given (member name value :: members)

theorem Presents.apart {entries : List Entry} {given : List String} {members : List (List Token)}
    (h : Presents entries given members)
    (forms : ∀ e ∈ entries, ∀ value, e.form value → Apart value) : Apart (object members) := by
  apply Apart.object
  induction h with
  | done _ => simp
  | entry mem fresh form rest ih =>
    exact List.forall_mem_cons.mpr ⟨.member _ (forms _ mem _ form), ih⟩
  | other unknown h rest ih => exact List.forall_mem_cons.mpr ⟨.member _ h.apart, ih⟩

/-- The draft of a record depends on the names that have been given and on nothing else. -/
structure Record.Drafts {δ α : Type} (r : Record δ α) (entries : List Entry)
    (draft : List String → δ) : Prop where
  start : draft [] = r.draft
  names : r.fields.map (·.name) = entries.map (·.name)
  fill : ∀ e ∈ entries, ∀ given, e.name ∉ given → ∀ value, e.form value →
    ∃ field, r.fields.find? (·.name == e.name) = some field ∧ field.given (draft given) = false ∧
      Reads (field.read (draft given)) value (draft (e.name :: given))

/-- How a field that is kept as an option is filled. -/
theorem Record.exists_field {δ α β : Type} {r : Record δ α} {name : String} {get : δ → Option β}
    {set : δ → β → δ} {item : Reader β} {value : List Token} {b : β} {draft next : δ}
    (found : r.fields.find? (·.name == name) = some (.of name get set item))
    (fresh : get draft = none) (h : Reads item value b) (filled : set draft b = next) :
    ∃ field, r.fields.find? (·.name == name) = some field ∧ field.given draft = false ∧
      Reads (field.read draft) value next := by
  refine ⟨_, found, ?_, filled ▸ h.field draft⟩
  simp [Field.of, fresh]

namespace Record.Drafts

variable {δ α : Type} {r : Record δ α} {entries : List Entry} {draft : List String → δ}

theorem find?_eq_none (h : r.Drafts entries draft) {name : String}
    (unknown : ∀ e ∈ entries, e.name ≠ name) : r.fields.find? (·.name == name) = none := by
  rw [List.find?_eq_none]
  intro field mem
  have hname : field.name ∈ entries.map (·.name) := h.names ▸ List.mem_map_of_mem mem
  obtain ⟨e, he, heq⟩ := List.mem_map.mp hname
  have hne := unknown e he
  simp [← heq, hne]

theorem fills (h : r.Drafts entries draft) {given : List String} {members : List (List Token)}
    (presents : Presents entries given members) :
    ∃ final, (∀ e ∈ entries, e.name ∉ final → e.optional) ∧
      r.Fills (draft given) members (draft final) := by
  -- The draft is known from the names that have been given, so their order does not matter.
  induction presents with
  | @done given left => exact ⟨given, left, .nil _⟩
  | @entry given e value members mem fresh form rest ih =>
    obtain ⟨final, left, tail⟩ := ih
    obtain ⟨field, found, empty, head⟩ := h.fill e mem given fresh value form
    exact ⟨final, left, .cons found empty head tail⟩
  | other unknown isValue rest ih =>
    obtain ⟨final, left, tail⟩ := ih
    exact ⟨final, left, .skipped (h.find?_eq_none unknown) isValue.skip_append tail⟩

theorem reads (h : r.Drafts entries draft) {members : List (List Token)}
    (presents : Presents entries [] members) {a : α}
    (complete : ∀ given, (∀ e ∈ entries, e.name ∉ given → e.optional) →
      r.complete (draft given) = .ok a) :
    Reads r.read (object members) a := by
  obtain ⟨final, left, filled⟩ := h.fills presents
  rw [h.start] at filled
  exact .record filled (complete final left)

end Record.Drafts

/-- A field of a draft in which it has its value as soon as its name is given. -/
def kept {β : Type} (given : List String) (name : String) (b : β) : Option β :=
  if name ∈ given then some b else none

section Kept

variable {β : Type} {given : List String} {name other : String} {b standard : β}

theorem kept_of_not_mem (h : name ∉ given) : kept given name b = none := if_neg h

theorem kept_self : kept (name :: given) name b = some b := if_pos List.mem_cons_self

theorem kept_of_ne (h : name ≠ other) : kept (other :: given) name b = kept given name b := by
  simp [kept, h]

theorem getD_kept (h : name ∉ given → b = standard) : (kept given name b).getD standard = b := by
  by_cases mem : name ∈ given
  · simp [kept, mem]
  · simp [kept, mem, h mem]

end Kept

end Json

/-! ### The sections -/

/-- A number that may be left out if it is the standard one. -/
def natEntry (name : String) (n standard : Nat) : Json.Entry where
  name
  form value := value = [.number (.integer n)]
  optional := n = standard

def boolEntry (name : String) (b standard : Bool) : Json.Entry where
  name
  form value := value = [.bool b]
  optional := b = standard

def Peephole.entries (p : Peephole) : List Json.Entry :=
  [{ name := "passes"
     form value := value = Json.array (p.passes.map fun pass => [.string pass.name])
     optional := p.passes = ({} : Peephole).passes },
    boolEntry "wrap_cells" p.wrapCells ({} : Peephole).wrapCells,
    boolEntry "zero_idiom_accepts_increment" p.acceptsIncrement ({} : Peephole).acceptsIncrement]

def CLayout.entries (l : CLayout) : List Json.Entry :=
  [natEntry "memory_size" l.memorySize ({} : CLayout).memorySize,
    natEntry "indent_width" l.indentWidth ({} : CLayout).indentWidth]

def Limits.entries (l : Limits) : List Json.Entry :=
  [natEntry "memory_size" l.memorySize ({} : Limits).memorySize,
    natEntry "max_fuel" l.maxFuel ({} : Limits).maxFuel]

def sectionEntry (name : String) (entries : List Json.Entry) (optional : Prop) : Json.Entry where
  name
  form value := ∃ members, value = Json.object members ∧ Json.Presents entries [] members
  optional

/-- The sections of a settings file; a section may be left out if all its fields are standard. -/
def Settings.entries (s : Settings) : List Json.Entry :=
  [sectionEntry "optimizer" s.peephole.entries (s.peephole = {}),
    sectionEntry "emitter" s.layout.entries (s.layout = {}),
    sectionEntry "runtime" s.limits.entries (s.limits = {})]

/-- The numbers of settings have 64 bits. -/
structure Settings.Fits (s : Settings) : Prop where
  layoutSize : s.layout.memorySize < UInt64.size
  indentWidth : s.layout.indentWidth < UInt64.size
  tapeSize : s.limits.memorySize < UInt64.size
  maxFuel : s.limits.maxFuel < UInt64.size

theorem Pass.reads_name (pass : Pass) : Reads Pass.readJson [.string pass.name] pass := by
  apply Reads.bareVariant
  cases pass <;> rfl

/-- The draft of an optimiser in which some names have been given. -/
def PeepholeDraft.after (p : Peephole) (given : List String) : PeepholeDraft where
  passes := Json.kept given "passes" p.passes
  wrapCells := Json.kept given "wrap_cells" p.wrapCells
  acceptsIncrement := Json.kept given "zero_idiom_accepts_increment" p.acceptsIncrement

def CLayoutDraft.after (l : CLayout) (given : List String) : CLayoutDraft where
  memorySize := Json.kept given "memory_size" l.memorySize
  indentWidth := Json.kept given "indent_width" l.indentWidth

def LimitsDraft.after (l : Limits) (given : List String) : LimitsDraft where
  memorySize := Json.kept given "memory_size" l.memorySize
  maxFuel := Json.kept given "max_fuel" l.maxFuel

def SettingsDraft.after (s : Settings) (given : List String) : SettingsDraft where
  peephole := Json.kept given "optimizer" s.peephole
  layout := Json.kept given "emitter" s.layout
  limits := Json.kept given "runtime" s.limits

open Json (kept_of_not_mem kept_self kept_of_ne)

theorem PeepholeDraft.drafts (p : Peephole) : record.Drafts p.entries (after p) where
  start := rfl
  names := rfl
  fill := by
    have opens : ∀ pass ∈ p.passes, Json.Opens [.string pass.name] :=
      fun pass _ => ⟨_, _, rfl, by simp⟩
    have reads := Reads.list opens fun pass _ => pass.reads_name
    simp only [Peephole.entries, List.forall_mem_cons]
    refine ⟨?_, ?_, ?_, by simp⟩ <;> rintro given fresh value rfl
    · refine Record.exists_field rfl (kept_of_not_mem fresh) reads ?_
      simp [after, kept_self, kept_of_ne]
    · refine Record.exists_field rfl (kept_of_not_mem fresh) (.bool _) ?_
      simp [after, kept_self, kept_of_ne, boolEntry]
    · refine Record.exists_field rfl (kept_of_not_mem fresh) (.bool _) ?_
      simp [after, kept_self, kept_of_ne, boolEntry]

theorem CLayoutDraft.drafts {l : CLayout} (size : l.memorySize < UInt64.size)
    (width : l.indentWidth < UInt64.size) : record.Drafts l.entries (after l) where
  start := rfl
  names := rfl
  fill := by
    simp only [CLayout.entries, List.forall_mem_cons]
    refine ⟨?_, ?_, by simp⟩ <;> rintro given fresh value rfl
    · refine Record.exists_field rfl (kept_of_not_mem fresh) (.nat64 "usize" size) ?_
      simp [after, kept_self, kept_of_ne, natEntry]
    · refine Record.exists_field rfl (kept_of_not_mem fresh) (.nat64 "usize" width) ?_
      simp [after, kept_self, kept_of_ne, natEntry]

theorem LimitsDraft.drafts {l : Limits} (size : l.memorySize < UInt64.size)
    (fuel : l.maxFuel < UInt64.size) : record.Drafts l.entries (after l) where
  start := rfl
  names := rfl
  fill := by
    simp only [Limits.entries, List.forall_mem_cons]
    refine ⟨?_, ?_, by simp⟩ <;> rintro given fresh value rfl
    · refine Record.exists_field rfl (kept_of_not_mem fresh) (.nat64 "usize" size) ?_
      simp [after, kept_self, kept_of_ne, natEntry]
    · refine Record.exists_field rfl (kept_of_not_mem fresh) (.nat64 "u64" fuel) ?_
      simp [after, kept_self, kept_of_ne, natEntry]

theorem Peephole.reads (p : Peephole) {members : List (List Token)}
    (presents : Json.Presents p.entries [] members) :
    Reads PeepholeDraft.record.read (Json.object members) p := by
  apply (PeepholeDraft.drafts p).reads presents
  intro given left
  simp only [entries, boolEntry, List.forall_mem_cons] at left
  obtain ⟨passes, wrap, increment, -⟩ := left
  apply congrArg Except.ok
  simp only [PeepholeDraft.toPeephole, PeepholeDraft.after, Json.getD_kept passes,
    Json.getD_kept wrap, Json.getD_kept increment]

theorem CLayout.reads {l : CLayout} (hsize : l.memorySize < UInt64.size)
    (hwidth : l.indentWidth < UInt64.size) {members : List (List Token)}
    (presents : Json.Presents l.entries [] members) :
    Reads CLayoutDraft.record.read (Json.object members) l := by
  apply (CLayoutDraft.drafts hsize hwidth).reads presents
  intro given left
  simp only [entries, natEntry, List.forall_mem_cons] at left
  obtain ⟨size, width, -⟩ := left
  apply congrArg Except.ok
  simp only [CLayoutDraft.toLayout, CLayoutDraft.after, Json.getD_kept size, Json.getD_kept width]

theorem Limits.reads {l : Limits} (hsize : l.memorySize < UInt64.size)
    (hfuel : l.maxFuel < UInt64.size) {members : List (List Token)}
    (presents : Json.Presents l.entries [] members) :
    Reads LimitsDraft.record.read (Json.object members) l := by
  apply (LimitsDraft.drafts hsize hfuel).reads presents
  intro given left
  simp only [entries, natEntry, List.forall_mem_cons] at left
  obtain ⟨size, fuel, -⟩ := left
  apply congrArg Except.ok
  simp only [LimitsDraft.toLimits, LimitsDraft.after, Json.getD_kept size, Json.getD_kept fuel]

/-! ### The file -/

namespace Settings

variable {s : Settings}

theorem drafts (fits : s.Fits) :
    SettingsDraft.record.Drafts s.entries (SettingsDraft.after s) where
  start := rfl
  names := rfl
  fill := by
    simp only [entries, List.forall_mem_cons]
    refine ⟨?_, ?_, ?_, by simp⟩ <;> rintro given fresh value ⟨members, rfl, presents⟩
    · refine Json.Record.exists_field rfl (kept_of_not_mem fresh) (s.peephole.reads presents) ?_
      simp [SettingsDraft.after, kept_self, kept_of_ne, sectionEntry]
    · refine Json.Record.exists_field rfl (kept_of_not_mem fresh)
        (CLayout.reads fits.layoutSize fits.indentWidth presents) ?_
      simp [SettingsDraft.after, kept_self, kept_of_ne, sectionEntry]
    · refine Json.Record.exists_field rfl (kept_of_not_mem fresh)
        (Limits.reads fits.tapeSize fits.maxFuel presents) ?_
      simp [SettingsDraft.after, kept_self, kept_of_ne, sectionEntry]

theorem reads (fits : s.Fits) {members : List (List Token)}
    (presents : Json.Presents s.entries [] members) :
    Reads SettingsDraft.record.read (Json.object members) s := by
  apply (drafts fits).reads presents
  intro given left
  simp only [entries, sectionEntry, List.forall_mem_cons] at left
  obtain ⟨peephole, layout, limits, -⟩ := left
  apply congrArg Except.ok
  simp only [SettingsDraft.toSettings, SettingsDraft.after, Json.getD_kept peephole,
    Json.getD_kept layout, Json.getD_kept limits]

/-- The values of every section have no two numbers side by side. -/
theorem apart {members : List (List Token)} (presents : Json.Presents s.entries [] members) :
    Apart (Json.object members) := by
  apply presents.apart
  simp only [entries, List.forall_mem_cons]
  refine ⟨?_, ?_, ?_, by simp⟩ <;> rintro value ⟨fields, rfl, given⟩ <;> apply given.apart
  · simp only [Peephole.entries, List.forall_mem_cons]
    refine ⟨?_, ?_, ?_, by simp⟩ <;> rintro value rfl
    · apply Apart.array
      intro item mem
      obtain ⟨pass, -, rfl⟩ := List.mem_map.mp mem
      exact .singleton _
    · exact .singleton _
    · exact .singleton _
  · simp only [CLayout.entries, List.forall_mem_cons]
    refine ⟨?_, ?_, by simp⟩ <;> rintro value rfl <;> exact .singleton _
  · simp only [Limits.entries, List.forall_mem_cons]
    refine ⟨?_, ?_, by simp⟩ <;> rintro value rfl <;> exact .singleton _

end Settings

/-- A settings file gives the settings of which it presents some fields, the others being standard,
or the first condition that these settings do not meet. -/
theorem settings_file_overlay {s : Settings} (fits : s.Fits) {members : List (List Token)}
    (presents : Json.Presents s.entries [] members) {text : String}
    (written : Written (Json.object members) text.toList) :
    Settings.ofJson text =
      if s.layout.memorySize = 0 then .error (.settings .emptyLayout)
      else if s.limits.memorySize = 0 then .error (.settings .emptyTape)
      else if s.peephole.acceptsIncrement ∧ ¬s.peephole.wrapCells then
        .error (.settings .incrementWithoutWrap)
      else .ok s := by
  have read := (Settings.reads fits presents).written written (Settings.apart presents)
  simp only [Settings.ofJson, read, Settings.check]
  by_cases layout : s.layout.memorySize = 0
  · simp only [layout, if_true]
  by_cases tape : s.limits.memorySize = 0
  · simp only [layout, tape, if_false, if_true]
  by_cases increment : s.peephole.acceptsIncrement ∧ ¬s.peephole.wrapCells
  · simp only [layout, tape, if_false, if_pos increment]
  · simp only [layout, tape, if_false, if_neg increment]

/-- The machine's section before an empty one whose name is escaped, and between them a member of
another name, which has a real number and a string that is no text. -/
theorem settings_file_overlay_partial :
    Settings.ofJson
      "\x7b\"runtime\":\x7b\"max_fuel\":7\x7d,\"x\":[-0.5E+3,\"\\ud800\"],\n\"\\u0065mitter\" :\x7b\x7d\x7d\t" =
      .ok { limits := { maxFuel := 7 } } := by
  have none : ∀ c ∈ ([] : List Char), Json.isSpace c = true := by simp
  have tab : ∀ c ∈ ['\t'], Json.isSpace c = true := by simp [Json.isSpace]
  have blank : ∀ c ∈ [' '], Json.isSpace c = true := by simp [Json.isSpace]
  have newline : ∀ c ∈ ['\n'], Json.isSpace c = true := by simp [Json.isSpace]
  let s : Settings := { limits := { maxFuel := 7 } }
  let n : Json.Numeral := { negative := true, whole := [0], fraction := [5], exponent := [3] }
  have fits : s.Fits := by constructor <;> decide
  have limits : Json.Presents s.limits.entries [] [Json.member "max_fuel" [.number (.integer 7)]] := by
    have mem : natEntry "max_fuel" 7 ({} : Limits).maxFuel ∈ s.limits.entries := by
      simp [s, Limits.entries]
    apply Json.Presents.entry mem (by simp) rfl
    apply Json.Presents.done
    simp [s, Limits.entries, natEntry]
  have layout : Json.Presents s.layout.entries [] [] := by
    apply Json.Presents.done
    simp [s, CLayout.entries, natEntry]
  have x : IsValue (Json.array [[.number n.toNumber], [.faultyString .unfinishedPair]]) := by
    apply IsValue.array
    simp only [List.forall_mem_cons]
    exact ⟨.number _, .string rfl, by simp⟩
  have presents : Json.Presents s.entries []
      [Json.member "runtime" (Json.object [Json.member "max_fuel" [.number (.integer 7)]]),
        Json.member "x" (Json.array [[.number n.toNumber], [.faultyString .unfinishedPair]]),
        Json.member "emitter" (Json.object [])] := by
    have runtime : sectionEntry "runtime" s.limits.entries (s.limits = {}) ∈ s.entries := by
      simp [Settings.entries]
    have emitter : sectionEntry "emitter" s.layout.entries (s.layout = {}) ∈ s.entries := by
      simp [Settings.entries]
    apply Json.Presents.entry runtime (by simp) ⟨_, rfl, limits⟩
    apply Json.Presents.other (by simp [Settings.entries, sectionEntry]) x
    apply Json.Presents.entry emitter (by simp [sectionEntry]) ⟨_, rfl, layout⟩
    apply Json.Presents.done
    simp [s, Settings.entries, sectionEntry]
  have real : Token.SpeltAs (.number n.toNumber) ['-', '0', '.', '5', 'E', '+', '3'] :=
    .numeral ⟨by simp [n], by simp [n], by simp [n], .inl rfl⟩ (.signed (.inr rfl) (by simp [n]))
  have emitter : Token.SpeltAs (.string "emitter") _ :=
    .quoted [.unit '0' '0' '6' '5' 0x65 (by decide), .plain 'm' (by decide), .plain 'i' (by decide),
      .plain 't' (by decide), .plain 't' (by decide), .plain 'e' (by decide), .plain 'r' (by decide)]
  have colon : Token.SpeltAs .colon [':'] := .plain trivial
  refine settings_file_overlay fits presents ?_
  iterate 6 refine .plain trivial ?_
  refine .plain (by simp [Token.Spelt]) ?_
  iterate 5 refine .plain trivial ?_
  refine .cons none real ?_
  refine .plain trivial ?_
  refine .quoted [.unit 'd' '8' '0' '0' 0xd800 (by decide)] ?_
  iterate 2 refine .plain trivial ?_
  refine .cons newline emitter ?_
  refine .cons blank colon ?_
  iterate 3 refine .plain trivial ?_
  exact .nil tab

/-- Keys that are no field names and have no text, in the file and in a section: they are refused, although
the same strings are skipped as values. -/
theorem settings_key_without_text :
    let member (fault : Json.Fault) : List Token :=
      .faultyString fault :: .colon :: [.number (.integer 1)]
    let file := Json.object [member .loneSurrogate]
    let inner := Json.object [Json.member "emitter" (Json.object [member .unfinishedPair])]
    let fileText := "\x7b\"\\ud800\\ud800\":1\x7d"
    let innerText := "\x7b\"emitter\":\x7b\"\\ud800\":1\x7d\x7d"
    IsValue file ∧ Written file fileText.toList ∧ IsValue inner ∧ Written inner innerText.toList ∧
      Settings.ofJson fileText = .error (.json (.fault .loneSurrogate)) ∧
      Settings.ofJson innerText = .error (.json (.fault .unfinishedPair)) := by
  intro member file inner fileText innerText
  have none : ∀ c ∈ ([] : List Char), Json.isSpace c = true := by simp
  have value (fault : Json.Fault) : IsValue (Json.object [member fault]) := by
    apply @IsValue.object [(.faultyString fault, [.number (.integer 1)])]
    · simp [Token.isString]
    · simp [IsValue.number]
  have section_value : IsValue inner := by
    apply @IsValue.object [(.string "emitter", Json.object [member .unfinishedPair])]
    · simp [Token.isString]
    · simpa using value .unfinishedPair
  have one : Token.Spelt (.number (.integer 1)) := by simp [Token.Spelt]
  refine ⟨value _, ?_, section_value, ?_, by decide +kernel, by decide +kernel⟩
  · dsimp only [file, fileText]
    refine .plain trivial ?_
    refine .quoted [.unit 'd' '8' '0' '0' 0xd800 (by decide), .unit 'd' '8' '0' '0' 0xd800 (by decide)] ?_
    refine .plain trivial (.plain one ?_)
    exact .plain trivial (.nil none)
  · dsimp only [inner, innerText]
    iterate 4 refine .plain trivial ?_
    refine .quoted [.unit 'd' '8' '0' '0' 0xd800 (by decide)] ?_
    refine .plain trivial (.plain one ?_)
    iterate 2 refine .plain trivial ?_
    exact .nil none

end TapeC
