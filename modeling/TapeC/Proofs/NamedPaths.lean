import Mathlib.Data.List.TakeWhile
import TapeC.Proofs.FileFrame

namespace TapeC.Command

/-- Whether a path is a directory, which is empty or ends in a slash, and a name without slashes. -/
structure Splits (path : String) (directory name : List Char) : Prop where
  whole : path.toList = directory ++ name
  front : directory = [] ∨ directory.getLast? = some '/'
  plain : '/' ∉ name

/-- A name without its last dot and what follows it; nothing if there is no dot. -/
def stemOf (name : List Char) : List Char := ((name.reverse.dropWhile (· != '.')).drop 1).reverse

/-- The name that a path has with another extension. -/
def renamed (name extension : List Char) : List Char :=
  if stemOf name = [] then name ++ '.' :: extension
  else if stemOf name = ['.'] then ['.', '.']
  else stemOf name ++ '.' :: extension

/-! ### Up to a character -/

section Separator

variable {c : Char} {text : List Char}

theorem bne_of_mem_reverse (h : c ∉ text) : ∀ d ∈ text.reverse, (d != c) = true := by
  intro d mem
  rw [bne_iff_ne]
  rintro rfl
  exact h (List.mem_reverse.mp mem)

theorem not_mem_takeWhile_bne (c : Char) (text : List Char) : c ∉ text.takeWhile (· != c) := by
  intro mem
  have apart := List.mem_takeWhile_imp mem
  simp at apart

theorem dropWhile_bne_cases (c : Char) (text : List Char) :
    text.dropWhile (· != c) = [] ∨ ∃ rest, text.dropWhile (· != c) = c :: rest := by
  have head := List.head?_dropWhile_not (· != c) text
  cases hd : text.dropWhile (· != c) with
  | nil => exact .inl rfl
  | cons d rest =>
    rw [hd] at head
    have same : d = c := by simpa using head
    exact .inr ⟨rest, by rw [same]⟩

end Separator

/-! ### Names -/

theorem stemOf_append (stem : List Char) {extension : List Char} (dotless : '.' ∉ extension) :
    stemOf (stem ++ '.' :: extension) = stem := by
  rw [stemOf, List.reverse_append, List.reverse_cons, List.append_assoc,
    List.dropWhile_append_of_pos (bne_of_mem_reverse dotless), List.singleton_append,
    List.dropWhile_cons_of_neg (by simp), List.drop_one, List.tail_cons, List.reverse_reverse]

theorem exists_extension {name : List Char} (h : stemOf name ≠ []) :
    ∃ extension, name = stemOf name ++ '.' :: extension ∧ '.' ∉ extension := by
  have split := List.takeWhile_append_dropWhile (p := (· != '.')) (l := name.reverse)
  rcases dropWhile_bne_cases '.' name.reverse with hd | ⟨rest, hd⟩
  · exact absurd (by simp [stemOf, hd]) h
  · have stem : stemOf name = rest.reverse := by simp [stemOf, hd]
    refine ⟨(name.reverse.takeWhile (· != '.')).reverse, ?_, fun mem => ?_⟩
    · rw [hd] at split
      have whole := congrArg List.reverse split
      rw [List.reverse_append, List.reverse_cons, List.reverse_reverse, List.append_assoc] at whole
      rw [stem]
      exact whole.symm
    · exact not_mem_takeWhile_bne '.' name.reverse (List.mem_reverse.mp mem)

theorem renamed_eq_self_iff {name extension : List Char} (proper : name ≠ ['.', '.']) :
    renamed name extension = name ↔
      '.' ∉ extension ∧ ∃ stem, stem ≠ [] ∧ stem ≠ ['.'] ∧ name = stem ++ '.' :: extension := by
  constructor
  · intro h
    unfold renamed at h
    split at h
    next =>
      have := congrArg List.length h
      simp at this
    next some_stem =>
      split at h
      next => exact absurd h.symm proper
      next stem =>
        obtain ⟨old, hold, dotless⟩ := exists_extension some_stem
        have same : extension = old := by
          have both := h.trans hold
          simpa using both
        rw [same]
        exact ⟨dotless, stemOf name, some_stem, stem, hold⟩
  · rintro ⟨dotless, stem, some_stem, other, rfl⟩
    rw [renamed, stemOf_append stem dotless, if_neg some_stem, if_neg other]

theorem renamed_ne_nil (name extension : List Char) : renamed name extension ≠ [] := by
  unfold renamed
  split
  next => simp
  next => split <;> simp

/-- Two extensions give two names, unless both give the directory above. -/
theorem eq_or_dots_of_renamed_eq {name extension extension' : List Char}
    (h : renamed name extension = renamed name extension') :
    extension = extension' ∨ renamed name extension = ['.', '.'] := by
  unfold renamed at h ⊢
  split at h
  next => exact .inl (by simpa using h)
  next some_stem =>
    split at h
    next dot => exact .inr (by rw [if_neg some_stem, if_pos dot])
    next => exact .inl (by simpa using h)

theorem slash_not_mem_renamed {name extension : List Char} (hn : '/' ∉ name) (he : '/' ∉ extension) :
    '/' ∉ renamed name extension := by
  have stem : '/' ∉ stemOf name := by
    intro mem
    have mem := List.mem_of_mem_drop (List.mem_reverse.mp mem)
    exact hn (List.mem_reverse.mp ((List.dropWhile_sublist _).mem mem))
  unfold renamed
  split
  next => simp [hn, he]
  next =>
    split
    next => decide
    next => simp [stem, he]

/-! ### Paths -/

theorem exists_splits (path : String) :
    Splits path (path.toList.reverse.dropWhile (· != '/')).reverse
      (path.toList.reverse.takeWhile (· != '/')).reverse := by
  refine ⟨?_, ?_, fun mem => ?_⟩
  · rw [← List.reverse_append, List.takeWhile_append_dropWhile, List.reverse_reverse]
  · rw [List.reverse_eq_nil_iff, List.getLast?_reverse]
    refine (dropWhile_bne_cases '/' path.toList.reverse).imp_right ?_
    rintro ⟨rest, hd⟩
    rw [hd, List.head?_cons]
  · exact not_mem_takeWhile_bne '/' path.toList.reverse (List.mem_reverse.mp mem)

namespace Splits

variable {path other : String} {directory name name' : List Char}

theorem takeWhile_eq (h : Splits path directory name) :
    (path.toList.reverse.takeWhile (· != '/')).reverse = name := by
  have stops : directory.reverse.takeWhile (· != '/') = [] := by
    rcases h.front with rfl | slash
    · rfl
    · obtain ⟨before, rfl⟩ := List.getLast?_eq_some_iff.mp slash
      rw [List.reverse_append, List.reverse_singleton, List.singleton_append,
        List.takeWhile_cons_of_neg (by simp)]
  rw [h.whole, List.reverse_append, List.takeWhile_append_of_pos (bne_of_mem_reverse h.plain), stops,
    List.append_nil, List.reverse_reverse]

theorem dropWhile_eq (h : Splits path directory name) :
    (path.toList.reverse.dropWhile (· != '/')).reverse = directory := by
  have whole := h.whole.symm.trans (exists_splits path).whole
  rw [h.takeWhile_eq] at whole
  exact (List.append_cancel_right whole).symm

theorem names_eq (h : Splits path directory name) (named : name ≠ []) :
    Files.names path = Files.names (String.ofList directory) ++ [String.ofList name] := by
  have kept : [name].filter (fun entry => !entry.isEmpty) = [name] := by simp [named]
  unfold Files.names
  rw [String.toList_ofList, h.whole]
  rcases h.front with rfl | slash
  · rw [List.nil_append, List.splitOn_eq_singleton h.plain, kept]
    rfl
  · obtain ⟨before, rfl⟩ := List.getLast?_eq_some_iff.mp slash
    rw [List.append_assoc, List.singleton_append, List.splitOn_append_cons_self,
      List.splitOn_append_cons_self, List.splitOn_eq_singleton h.plain, List.filter_append,
      List.filter_append, kept, List.map_append, List.map_append]
    simp

theorem origin_eq (h : Splits path directory name) (h' : Splits other directory name') :
    Files.origin path = Files.origin other := by
  have relative : ∀ {text : List Char}, '/' ∉ text → (text.head? == some '/') = false := by
    intro text plain
    cases text with
    | nil => rfl
    | cons c rest =>
      have apart : c ≠ '/' := fun same => plain (same ▸ List.mem_cons_self)
      simpa using apart
  unfold Files.origin
  rw [h.whole, h'.whole]
  cases directory with
  | nil => rw [List.nil_append, List.nil_append, relative h.plain, relative h'.plain]
  | cons c rest => rfl

theorem eq_iff (h : Splits path directory name) (h' : Splits other directory name') :
    path = other ↔ name = name' := by
  rw [← String.toList_inj, h.whole, h'.whole, List.append_right_inj]

theorem withExtension_eq (h : Splits path directory name)
    (proper : name ≠ [] ∧ name ≠ ['.'] ∧ name ≠ ['.', '.']) (extension : String) :
    withExtension path extension = String.ofList (directory ++ renamed name extension.toList) := by
  obtain ⟨filled, dot, dots⟩ := proper
  have named : (name == [] || name == ['.'] || name == ['.', '.']) = false := by
    simp [filled, dot, dots]
  have stem : ((name.reverse.dropWhile (· != '.')).drop 1).reverse = stemOf name := rfl
  unfold withExtension renamed
  simp only [h.takeWhile_eq, h.dropWhile_eq, named, stem, beq_iff_eq]
  rw [if_neg Bool.false_ne_true, ← String.toList_inj]
  split
  next => simp [h.whole]
  next =>
    split
    next => rfl
    next => simp

theorem withExtension (h : Splits path directory name)
    (proper : name ≠ [] ∧ name ≠ ['.'] ∧ name ≠ ['.', '.']) {extension : String}
    (plain : '/' ∉ extension.toList) :
    Splits (withExtension path extension) directory (renamed name extension.toList) := by
  rw [h.withExtension_eq proper]
  exact ⟨String.toList_ofList, h.front, slash_not_mem_renamed h.plain plain⟩

variable {files written : Files} {content bytes : List UInt8}

/-- Writing a path leaves the content of another one in the same directory. -/
theorem read_of_write (h : Splits path directory name) (h' : Splits other directory name')
    (named : name ≠ []) (named' : name' ≠ []) (apart : path ≠ other)
    (hr : files.read path = .ok content) (hw : files.write other bytes = .ok written) :
    written.read path = .ok content := by
  have different : String.ofList name ≠ String.ofList name' := by
    intro same
    exact apart ((h.eq_iff h').mpr (String.ofList_injective same))
  exact Files.read_of_write_sibling (h.origin_eq h') (h.names_eq named) (h'.names_eq named') different hr hw

/-- What is written has a proper name. -/
theorem name_of_write (h : Splits path directory name) (named : name ≠ [])
    (hw : files.write path bytes = .ok written) : name ≠ ['.', '.'] := by
  obtain ⟨_, _, place, location, leads, at_location, _⟩ := Files.put_of_write hw
  obtain ⟨last, hlast, _, dots⟩ := leads.last_name at_location
  rw [h.names_eq named, List.getLast?_concat] at hlast
  rintro rfl
  exact dots (Option.some.inj hlast).symm

end Splits

/-- The path of a file that can be read has a proper name. -/
theorem exists_splits_of_read {files : Files} {path : String} {content : List UInt8}
    (h : files.read path = .ok content) :
    ∃ directory name, Splits path directory name ∧
      name ≠ [] ∧ name ≠ ['.'] ∧ name ≠ ['.', '.'] := by
  obtain ⟨_, noSlash, location, leads⟩ := Files.read_eq_ok_iff.mp h
  obtain ⟨last, hlast, dot, dots⟩ := leads.last_name rfl
  have splits := exists_splits path
  generalize (path.toList.reverse.dropWhile (· != '/')).reverse = directory at splits
  generalize (path.toList.reverse.takeWhile (· != '/')).reverse = name at splits
  have named : name ≠ [] := by
    rintro rfl
    have whole := splits.whole
    rw [List.append_nil] at whole
    rcases splits.front with rfl | slash
    · rw [Files.names, whole] at hlast
      cases hlast
    · rw [← whole] at slash
      rw [Files.endsInSlash, slash] at noSlash
      cases noSlash
  rw [splits.names_eq named, List.getLast?_concat] at hlast
  cases Option.some.inj hlast
  refine ⟨directory, name, splits, named, ?_, ?_⟩
  · rintro rfl
    exact dot rfl
  · rintro rfl
    exact dots rfl

end TapeC.Command
