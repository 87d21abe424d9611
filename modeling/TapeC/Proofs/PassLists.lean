import Mathlib.Data.List.Forall2
import TapeC.Pass
import TapeC.Proofs.Trimming

namespace TapeC.Pass

/-- Whether texts are the pieces of a list. -/
def IsPieces (list : String) (pieces : List String) : Prop :=
  ∃ entries cores : List (List Char), entries ≠ [] ∧ (∀ entry ∈ entries, ',' ∉ entry) ∧
    list.toList = [','].intercalate entries ∧ List.Forall₂ Text.Padded cores entries ∧
    pieces = (cores.filter (· ≠ [])).map String.ofList

/-- Entries that list passes. Each is the name of the next pass with white space around it, or nothing but
white space. -/
inductive Listed : List Pass → List String → Prop
  | nil : Listed [] []
  | blank {passes : List Pass} {entries : List String} {space : String} (hs : Text.Blank space.toList) :
      Listed passes entries → Listed passes (space :: entries)
  | name {passes : List Pass} {entries : List String} {front back : String} (p : Pass)
      (hf : Text.Blank front.toList) (hb : Text.Blank back.toList) :
      Listed passes entries → Listed (p :: passes) ((front ++ p.name ++ back) :: entries)

/-! ### Pieces -/

theorem not_mem_of_mem_splitOn {c : Char} {text entry : List Char} (mem : entry ∈ text.splitOn c) :
    c ∉ entry := by
  induction text generalizing entry with
  | nil =>
    rw [List.splitOn_nil, List.mem_singleton] at mem
    rw [mem]
    exact List.not_mem_nil
  | cons d rest ih =>
    rw [List.splitOn_cons_eq_if_modifyHead] at mem
    split at mem
    next =>
      rcases List.mem_cons.mp mem with rfl | mem
      · exact List.not_mem_nil
      · exact ih mem
    next other =>
      cases hrest : rest.splitOn c with
      | nil => exact absurd hrest (List.splitOn_ne_nil c rest)
      | cons first more =>
        rw [hrest] at mem ih
        rcases List.mem_cons.mp mem with rfl | mem
        · have apart : c ≠ d := fun same => other (beq_iff_eq.mpr same.symm)
          exact List.not_mem_cons_of_ne_of_not_mem apart (ih List.mem_cons_self)
        · exact ih (List.mem_cons_of_mem _ mem)

theorem forall₂_padded_iff {cores entries : List (List Char)} :
    List.Forall₂ Text.Padded cores entries ↔ cores = entries.map Text.trim := by
  constructor
  · intro h
    induction h with
    | nil => rfl
    | cons padded _ ih => rw [List.map_cons, padded.trim_eq, ih]
  · rintro rfl
    rw [List.forall₂_map_left_iff, List.forall₂_same]
    exact fun entry _ => Text.padded_iff.mpr rfl

theorem pieces_eq_of_entries {entries : List (List Char)} {list : String} (some_entry : entries ≠ [])
    (apart : ∀ entry ∈ entries, ',' ∉ entry) (hlist : list.toList = [','].intercalate entries) :
    pieces list = ((entries.map Text.trim).filter (· ≠ [])).map String.ofList := by
  have filled : (fun entry : List Char => !entry.isEmpty) = fun entry => decide (entry ≠ []) := by
    funext entry
    cases entry <;> rfl
  rw [pieces, hlist, List.splitOn_intercalate ',' apart some_entry, filled]

theorem isPieces_iff {list : String} {texts : List String} :
    IsPieces list texts ↔ texts = pieces list := by
  constructor
  · rintro ⟨entries, cores, some_entry, apart, hlist, padded, rfl⟩
    rw [pieces_eq_of_entries some_entry apart hlist, forall₂_padded_iff.mp padded]
  · rintro rfl
    have some_entry := List.splitOn_ne_nil ',' list.toList
    have apart : ∀ entry ∈ list.toList.splitOn ',', ',' ∉ entry := fun _ => not_mem_of_mem_splitOn
    have hlist : list.toList = [','].intercalate (list.toList.splitOn ',') :=
      (List.intercalate_splitOn ',').symm
    exact ⟨_, _, some_entry, apart, hlist, forall₂_padded_iff.mpr rfl,
      pieces_eq_of_entries some_entry apart hlist⟩

/-! ### Names -/

theorem ofName_name (p : Pass) : ofName p.name = .ok p := by
  cases p <;> rfl

theorem ofName_unknown {text : String} (unknown : ∀ p : Pass, p.name ≠ text) :
    ofName text = .error ⟨text⟩ := by
  rw [ofName, if_neg (unknown moves).symm, if_neg (unknown adjusts).symm,
    if_neg (unknown zeroIdiom).symm]

/-- Texts are names throughout, or names up to a first text that is none. -/
theorem names_cases (texts : List String) :
    (∃ passes : List Pass, passes.map name = texts) ∨
      ∃ (known : List Pass) (unknown : String) (rest : List String),
        texts = known.map name ++ unknown :: rest ∧ ∀ p : Pass, p.name ≠ unknown := by
  induction texts with
  | nil => exact .inl ⟨[], rfl⟩
  | cons text rest ih =>
    by_cases named : ∃ p : Pass, p.name = text
    · obtain ⟨p, rfl⟩ := named
      rcases ih with ⟨passes, rfl⟩ | ⟨known, unknown, more, rfl, fresh⟩
      · exact .inl ⟨p :: passes, rfl⟩
      · exact .inr ⟨p :: known, unknown, more, rfl, fresh⟩
    · exact .inr ⟨[], text, rest, rfl, fun p same => named ⟨p, same⟩⟩

theorem mapM_ofName_append (known : List Pass) (rest : List String) :
    (known.map name ++ rest).mapM ofName = (rest.mapM ofName).map (known ++ ·) := by
  induction known with
  | nil => cases h : rest.mapM ofName <;> simp [Except.map, h]
  | cons p known ih =>
    rw [List.map_cons, List.cons_append, List.mapM_cons, ofName_name, ih]
    cases rest.mapM ofName <;> rfl

theorem mapM_ofName_names (passes : List Pass) : (passes.map name).mapM ofName = .ok passes := by
  have h := mapM_ofName_append passes []
  rw [List.append_nil, List.mapM_nil] at h
  rw [h]
  exact congrArg Except.ok (List.append_nil passes)

theorem mapM_ofName_unknown (known : List Pass) {unknown : String} (rest : List String)
    (fresh : ∀ p : Pass, p.name ≠ unknown) :
    (known.map name ++ unknown :: rest).mapM ofName = .error ⟨unknown⟩ := by
  rw [mapM_ofName_append, List.mapM_cons, ofName_unknown fresh]
  rfl

theorem mapM_ofName_eq_ok_iff {texts : List String} {passes : List Pass} :
    texts.mapM ofName = .ok passes ↔ passes.map name = texts := by
  constructor
  · intro h
    rcases names_cases texts with ⟨named, rfl⟩ | ⟨known, unknown, rest, rfl, fresh⟩
    · rw [mapM_ofName_names] at h
      cases h
      rfl
    · rw [mapM_ofName_unknown known rest fresh] at h
      cases h
  · rintro rfl
    exact mapM_ofName_names passes

theorem mapM_ofName_eq_error_iff {texts : List String} {error : UnknownPass} :
    texts.mapM ofName = .error error ↔
      ∃ (known : List Pass) (rest : List String), texts = known.map name ++ error.name :: rest ∧
        ∀ p : Pass, p.name ≠ error.name := by
  constructor
  · intro h
    rcases names_cases texts with ⟨named, rfl⟩ | ⟨known, unknown, rest, rfl, fresh⟩
    · rw [mapM_ofName_names] at h
      cases h
    · rw [mapM_ofName_unknown known rest fresh] at h
      cases h
      exact ⟨known, rest, rfl, fresh⟩
  · rintro ⟨known, rest, rfl, fresh⟩
    exact mapM_ofName_unknown known rest fresh

theorem exists_map_name_iff {texts : List String} :
    (∃ passes : List Pass, passes.map name = texts) ↔ ∀ text ∈ texts, ∃ p : Pass, p.name = text := by
  constructor
  · rintro ⟨passes, rfl⟩ text mem
    obtain ⟨p, _, rfl⟩ := List.mem_map.mp mem
    exact ⟨p, rfl⟩
  · intro named
    rcases names_cases texts with known | ⟨known, unknown, rest, rfl, fresh⟩
    · exact known
    · obtain ⟨p, same⟩ := named unknown (by simp)
      exact absurd same (fresh p)

/-! ### Written lists -/

theorem comma_not_mem_blank {text : List Char} (h : Text.Blank text) : ',' ∉ text := by
  intro mem
  cases h ',' mem

theorem bare_name (p : Pass) : Text.Bare p.name.toList := by
  cases p <;> exact ⟨by decide, by decide⟩

theorem comma_not_mem_name (p : Pass) : ',' ∉ p.name.toList := by
  cases p <;> decide

theorem padded_name (p : Pass) {front back : String} (hf : Text.Blank front.toList)
    (hb : Text.Blank back.toList) : Text.Padded p.name.toList (front ++ p.name ++ back).toList := by
  refine ⟨bare_name p, front.toList, back.toList, hf, hb, ?_⟩
  rw [String.toList_append, String.toList_append, List.append_assoc]

theorem Listed.comma_not_mem {passes : List Pass} {entries : List String} (h : Listed passes entries) :
    ∀ entry ∈ entries.map String.toList, ',' ∉ entry := by
  induction h with
  | nil => exact fun entry mem => absurd mem List.not_mem_nil
  | blank hs _ ih => exact List.forall_mem_cons.mpr ⟨comma_not_mem_blank hs, ih⟩
  | name p hf hb _ ih =>
    refine List.forall_mem_cons.mpr ⟨?_, ih⟩
    simp [comma_not_mem_blank hf, comma_not_mem_name p, comma_not_mem_blank hb]

theorem Listed.trimmed {passes : List Pass} {entries : List String} (h : Listed passes entries) :
    (((entries.map String.toList).map Text.trim).filter (· ≠ [])).map String.ofList =
      passes.map Pass.name := by
  induction h with
  | nil => rfl
  | @blank passes entries space hs _ ih =>
    have padded : Text.Padded [] space.toList :=
      ⟨⟨rfl, rfl⟩, space.toList, [], hs, fun c mem => absurd mem List.not_mem_nil, by simp⟩
    rw [List.map_cons, List.map_cons, padded.trim_eq, List.filter_cons_of_neg (by simp), ih]
  | @name passes entries front back p hf hb _ ih =>
    have filled : p.name.toList ≠ [] := by cases p <;> decide
    rw [List.map_cons, List.map_cons, (padded_name p hf hb).trim_eq,
      List.filter_cons_of_pos (by simpa using filled), List.map_cons, ih, String.ofList_toList,
      List.map_cons]

theorem Listed.pieces_eq {passes : List Pass} {entries : List String} (h : Listed passes entries) :
    pieces (",".intercalate entries) = passes.map Pass.name := by
  cases hentries : entries with
  | nil =>
    rw [hentries] at h
    cases h
    rfl
  | cons entry rest =>
    rw [hentries] at h
    rw [pieces_eq_of_entries (by simp) h.comma_not_mem String.toList_intercalate, h.trimmed]

end TapeC.Pass

namespace TapeC

/-- A list of passes has pieces, in one way only. It is accepted if all of them are names of passes, and
it then gives these passes, in order and as often as they are named; otherwise the first piece that is
no name is reported. So the names of passes with commas between them are read as these passes, with any
white space around the names and with any empty entries. -/
theorem pass_lists_exact :
    (∀ list : String, ∃ pieces : List String,
      (∀ texts, Pass.IsPieces list texts ↔ texts = pieces) ∧
      ((∃ passes, Pass.parseList list = .ok passes) ↔ ∀ piece ∈ pieces, ∃ p : Pass, p.name = piece) ∧
      (∀ passes, Pass.parseList list = .ok passes ↔ passes.map Pass.name = pieces) ∧
      (∀ unknown, Pass.parseList list = .error ⟨unknown⟩ ↔
        ∃ (known : List Pass) (rest : List String),
          pieces = known.map Pass.name ++ unknown :: rest ∧ ∀ p : Pass, p.name ≠ unknown)) ∧
    (∀ passes entries, Pass.Listed passes entries →
      Pass.parseList (",".intercalate entries) = .ok passes) := by
  refine ⟨fun list => ⟨Pass.pieces list, fun _ => Pass.isPieces_iff, ?_, ?_, ?_⟩, ?_⟩
  · simp only [Pass.parseList, Pass.mapM_ofName_eq_ok_iff, Pass.exists_map_name_iff]
  · exact fun _ => Pass.mapM_ofName_eq_ok_iff
  · exact fun _ => Pass.mapM_ofName_eq_error_iff
  · intro passes entries listed
    exact Pass.mapM_ofName_eq_ok_iff.mpr listed.pieces_eq.symm

/-- Names with white space of several kinds around them, entries without a name, and a list whose second
piece is no name. -/
theorem pass_lists_exact_spaced :
    let entries := ["", "\t" ++ Pass.zeroIdiom.name ++ "\u00a0", " \u2003", "" ++ Pass.moves.name ++ "",
      "" ++ Pass.zeroIdiom.name ++ "\n", ""]
    ",".intercalate entries = ",\tzero-idiom\u00a0, \u2003,pointer-moves,zero-idiom\n," ∧
      Pass.Listed [.zeroIdiom, .moves, .zeroIdiom] entries ∧
      Pass.parseList (",".intercalate entries) = .ok [.zeroIdiom, .moves, .zeroIdiom] ∧
      Pass.parseList "cell-adjusts,,Zero-idiom ,bogus" = .error ⟨"Zero-idiom"⟩ := by
  intro entries
  obtain ⟨exact_list, written⟩ := pass_lists_exact
  have listed : Pass.Listed [.zeroIdiom, .moves, .zeroIdiom] entries :=
    .blank (by decide) <| .name .zeroIdiom (by decide) (by decide) <| .blank (by decide) <|
      .name .moves (by decide) (by decide) <| .name .zeroIdiom (by decide) (by decide) <|
        .blank (by decide) .nil
  obtain ⟨pieces, only, _, _, reported⟩ := exact_list "cell-adjusts,,Zero-idiom ,bogus"
  have known : ["cell-adjusts", "Zero-idiom", "bogus"] = pieces := by
    rw [← only, Pass.isPieces_iff]
    decide +kernel
  refine ⟨by decide +kernel, listed, written _ _ listed, (reported _).mpr ⟨[.adjusts], ["bogus"], ?_, ?_⟩⟩
  · rw [← known]
    rfl
  · intro p
    cases p <;> decide

end TapeC
