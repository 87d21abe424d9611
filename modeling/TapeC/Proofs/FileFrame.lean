import TapeC.Command.Files

namespace TapeC.Command

/-- Where the file is, or could be, that a path leads to. -/
def Place.location? : Place → Option Location
  | .file location _ => some location
  | .vacant location => some location
  | .directory => none

namespace Files

variable {files written : Files} {location other : Location} {content : List UInt8}

/-! ### Contents -/

theorem content?_put_self : (files.put location content).content? location = some content := by
  simp [put, content?]

theorem content?_put_of_ne (h : other ≠ location) :
    (files.put location content).content? other = files.content? other := by
  obtain ⟨entries⟩ := files
  simp only [put, content?]
  rw [List.lookup_cons, beq_eq_false_iff_ne.mpr h]
  induction entries with
  | nil => rfl
  | cons entry entries ih =>
    obtain ⟨place, text⟩ := entry
    by_cases same : place = location
    · have apart : (other == place) = false := beq_eq_false_iff_ne.mpr (same ▸ h)
      rw [List.filter_cons_of_neg (by simp [same]), ih, List.lookup_cons, apart]
    · rw [List.filter_cons_of_pos (by simpa using same), List.lookup_cons, List.lookup_cons]
      cases other == place with
      | true => rfl
      | false => exact ih

theorem isDirectory_put (h : files.isDirectory other = true) :
    (files.put location content).isDirectory other = true := by
  simp only [isDirectory, Bool.or_eq_true, List.any_eq_true] at h ⊢
  refine h.imp_right ?_
  rintro ⟨⟨place, text⟩, mem, below⟩
  by_cases same : place = location
  · exact ⟨(location, content), List.mem_cons_self, same ▸ below⟩
  · exact ⟨(place, text), List.mem_cons_of_mem _ (List.mem_filter.mpr ⟨mem, by simpa using same⟩), below⟩

/-! ### Names -/

theorem follow_dot (directory : Directory) (rest : List String) :
    files.follow directory ("." :: rest) = files.follow directory rest := rfl

theorem follow_dots (directory : Directory) (rest : List String) :
    files.follow directory (".." :: rest) = files.follow directory.parent rest := rfl

theorem follow_name {name : String} (proper : name ≠ "." ∧ name ≠ "..") (directory : Directory)
    (rest : List String) :
    files.follow directory (name :: rest) =
      if maxName < name.utf8ByteSize then .error .nameTooLong
      else
        match directory with
        | .above => .error .notFound
        | .at location =>
          match files.content? (location ++ [name]) with
          | some content =>
            if rest.isEmpty then .ok (.file (location ++ [name]) content) else .error .notADirectory
          | none =>
            if files.isDirectory (location ++ [name]) then files.follow (.at (location ++ [name])) rest
            else if rest.isEmpty then .ok (.vacant (location ++ [name]))
            else .error .notFound := by
  rw [follow.eq_def]
  split
  next h => cases h
  next h =>
    cases h
    exact absurd rfl proper.1
  next h =>
    cases h
    exact absurd rfl proper.2
  next h =>
    cases h
    rfl

/-- Whether a name leads from a directory into a directory. -/
inductive Enters (files : Files) : Directory → String → Directory → Prop
  | dot (directory : Directory) : Enters files directory "." directory
  | dots (directory : Directory) : Enters files directory ".." directory.parent
  | name {location : Location} {name : String} (proper : name ≠ "." ∧ name ≠ "..")
      (short : name.utf8ByteSize ≤ maxName) (noFile : files.content? (location ++ [name]) = none)
      (directory : files.isDirectory (location ++ [name]) = true) :
      Enters files (.at location) name (.at (location ++ [name]))

/-- Whether names lead from a directory to a place. -/
inductive Leads (files : Files) : Directory → List String → Place → Prop
  | done (directory : Directory) : Leads files directory [] .directory
  | enter {directory next : Directory} {name : String} {rest : List String} {place : Place} :
      Enters files directory name next → Leads files next rest place →
      Leads files directory (name :: rest) place
  | file {location : Location} {name : String} {content : List UInt8}
      (proper : name ≠ "." ∧ name ≠ "..") (short : name.utf8ByteSize ≤ maxName)
      (found : files.content? (location ++ [name]) = some content) :
      Leads files (.at location) [name] (.file (location ++ [name]) content)
  | vacant {location : Location} {name : String}
      (proper : name ≠ "." ∧ name ≠ "..") (short : name.utf8ByteSize ≤ maxName)
      (noFile : files.content? (location ++ [name]) = none)
      (noDirectory : files.isDirectory (location ++ [name]) = false) :
      Leads files (.at location) [name] (.vacant (location ++ [name]))

theorem Enters.follow {directory next : Directory} {name : String} (h : files.Enters directory name next)
    (rest : List String) : files.follow directory (name :: rest) = files.follow next rest := by
  cases h with
  | dot => exact follow_dot _ _
  | dots => exact follow_dots _ _
  | name proper short noFile isDir =>
    rw [follow_name proper, if_neg (by omega)]
    simp only [noFile, isDir, if_true]

theorem Leads.of_follow_name {directory : Directory} {name : String} {rest : List String} {place : Place}
    (proper : name ≠ "." ∧ name ≠ "..")
    (further : ∀ {next}, files.follow next rest = .ok place → files.Leads next rest place)
    (h : files.follow directory (name :: rest) = .ok place) :
    files.Leads directory (name :: rest) place := by
  rw [follow_name proper] at h
  split at h
  next => cases h
  next short =>
    have short : name.utf8ByteSize ≤ maxName := by omega
    cases directory with
    | above => cases h
    | «at» location =>
      cases hc : files.content? (location ++ [name]) with
      | some content =>
        simp only [hc] at h
        split at h
        next last =>
          cases h
          rw [List.isEmpty_iff.mp last]
          exact .file proper short hc
        next => cases h
      | none =>
        simp only [hc] at h
        split at h
        next isDir => exact .enter (.name proper short hc isDir) (further h)
        next noDir =>
          split at h
          next last =>
            cases h
            rw [List.isEmpty_iff.mp last]
            exact .vacant proper short hc (by simpa using noDir)
          next => cases h

theorem leads_iff {directory : Directory} {names : List String} {place : Place} :
    files.Leads directory names place ↔ files.follow directory names = .ok place := by
  constructor
  · intro h
    induction h with
    | done => rfl
    | enter enters _ ih => rw [enters.follow, ih]
    | file proper short found =>
      rw [follow_name proper, if_neg (by omega)]
      simp [found]
    | vacant proper short noFile noDir =>
      rw [follow_name proper, if_neg (by omega)]
      simp [noFile, noDir]
  · intro h
    induction names generalizing directory with
    | nil =>
      cases h
      exact .done directory
    | cons name rest ih =>
      by_cases dot : name = "."
      · rw [dot] at h ⊢
        exact .enter (.dot directory) (ih h)
      by_cases dots : name = ".."
      · rw [dots] at h ⊢
        exact .enter (.dots directory) (ih h)
      exact .of_follow_name ⟨dot, dots⟩ ih h

theorem Leads.exists_enters {directory : Directory} {name : String} {rest : List String} {place : Place}
    (h : files.Leads directory (name :: rest) place) (more : rest ≠ []) :
    ∃ next, files.Enters directory name next ∧ files.Leads next rest place := by
  cases h with
  | enter enters leads => exact ⟨_, enters, leads⟩
  | file => exact absurd rfl more
  | vacant => exact absurd rfl more

theorem Leads.tail {directory next : Directory} {name : String} {rest : List String} {place : Place}
    (h : files.Leads directory (name :: rest) place) (enters : files.Enters directory name next) :
    files.Leads next rest place := by
  rw [leads_iff, enters.follow] at h
  exact leads_iff.mpr h

/-! ### What a write keeps -/

/-- Whether a file can be written at a location: there is one already, or no directory. -/
def Writable (files : Files) (location : Location) : Prop :=
  files.content? location ≠ none ∨ files.isDirectory location = false

theorem Leads.writable {directory : Directory} {names : List String} {place : Place}
    (h : files.Leads directory names place) (at_location : place.location? = some location) :
    files.Writable location := by
  induction h with
  | done => cases at_location
  | enter _ _ ih => exact ih at_location
  | file _ _ found =>
    cases at_location
    exact .inl (by simp [found])
  | vacant _ _ _ noDir =>
    cases at_location
    exact .inr noDir

theorem Enters.put {directory next : Directory} {name : String} (h : files.Enters directory name next)
    (writable : files.Writable location) (content : List UInt8) :
    (files.put location content).Enters directory name next := by
  cases h with
  | dot => exact .dot _
  | dots => exact .dots _
  | @name base _ proper short noFile isDir =>
    have apart : base ++ [name] ≠ location := by
      rintro rfl
      rcases writable with found | noDir
      · exact found noFile
      · rw [isDir] at noDir
        cases noDir
    exact .name proper short (by rw [content?_put_of_ne apart, noFile]) (isDirectory_put isDir)

theorem Leads.put_other {directory : Directory} {names : List String} {place : Place}
    (h : files.Leads directory names place) (hplace : place = .file location content)
    (writable : files.Writable other) (apart : location ≠ other) (bytes : List UInt8) :
    (files.put other bytes).Leads directory names place := by
  induction h with
  | done => exact .done _
  | enter enters _ ih => exact .enter (enters.put writable bytes) (ih hplace)
  | file proper short found =>
    cases hplace
    exact .file proper short (by rw [content?_put_of_ne apart, found])
  | vacant => cases hplace

theorem Leads.put_self {directory : Directory} {names : List String} {place : Place}
    (h : files.Leads directory names place) (at_location : place.location? = some location)
    (bytes : List UInt8) :
    (files.put location bytes).Leads directory names (.file location bytes) := by
  have writable := h.writable at_location
  induction h with
  | done => cases at_location
  | enter enters _ ih => exact .enter (enters.put writable bytes) (ih at_location)
  | file proper short found =>
    cases at_location
    exact .file proper short content?_put_self
  | vacant proper short =>
    cases at_location
    exact .file proper short content?_put_self

/-! ### Places side by side -/

/-- A file has the last name of its path, which is a proper one. -/
theorem Leads.last_name {directory : Directory} {names : List String} {place : Place}
    (h : files.Leads directory names place) (at_location : place.location? = some location) :
    ∃ name, names.getLast? = some name ∧ name ≠ "." ∧ name ≠ ".." := by
  induction h with
  | done => cases at_location
  | @enter _ _ name rest _ _ _ ih =>
    obtain ⟨last, hlast, proper⟩ := ih at_location
    refine ⟨last, ?_, proper⟩
    rw [List.getLast?_cons, hlast]
    rfl
  | file proper => exact ⟨_, rfl, proper⟩
  | vacant proper => exact ⟨_, rfl, proper⟩

theorem Leads.single {directory : Directory} {name : String} {place : Place}
    (h : files.Leads directory [name] place) (at_location : place.location? = some location) :
    ∃ base, directory = .at base ∧ location = base ++ [name] := by
  cases h with
  | enter _ rest =>
    cases rest
    cases at_location
  | file =>
    cases at_location
    exact ⟨_, rfl, rfl⟩
  | vacant =>
    cases at_location
    exact ⟨_, rfl, rfl⟩

/-- Two names behind the same names are two files of one directory. -/
theorem Leads.siblings {directory : Directory} {names : List String} {name name' : String}
    {place place' : Place} {location' : Location} (h : files.Leads directory (names ++ [name]) place)
    (h' : files.Leads directory (names ++ [name']) place')
    (at_location : place.location? = some location) (at_location' : place'.location? = some location') :
    ∃ base, location = base ++ [name] ∧ location' = base ++ [name'] := by
  induction names generalizing directory with
  | nil =>
    obtain ⟨base, hd, hl⟩ := h.single at_location
    obtain ⟨base', hd', hl'⟩ := h'.single at_location'
    cases hd.symm.trans hd'
    exact ⟨base, hl, hl'⟩
  | cons first rest ih =>
    obtain ⟨next, enters, leads⟩ := h.exists_enters (by simp)
    exact ih leads (h'.tail enters)

/-! ### Paths -/

/-- The directory from which a path is followed. -/
def origin (path : String) : Directory := if path.toList.head? == some '/' then .above else .at []

theorem locate_eq_ok_iff {path : String} {names : List String} {place : Place} :
    files.locate path names = .ok place ↔
      path.utf8ByteSize ≤ maxPath ∧ files.Leads (origin path) names place := by
  rw [leads_iff, locate, origin]
  split
  next long => simp; omega
  next short => simp; omega

theorem read_eq_ok_iff {path : String} :
    files.read path = .ok content ↔
      path.utf8ByteSize ≤ maxPath ∧ endsInSlash path = false ∧
        ∃ location, files.Leads (origin path) (names path) (.file location content) := by
  constructor
  · intro h
    unfold read at h
    split at h
    next => cases h
    next location found located =>
      split at h
      next => cases h
      next noSlash =>
        cases h
        obtain ⟨short, leads⟩ := locate_eq_ok_iff.mp located
        exact ⟨short, by simpa using noSlash, location, leads⟩
    next => cases h
    next => cases h
  · rintro ⟨short, noSlash, location, leads⟩
    rw [read, locate_eq_ok_iff.mpr ⟨short, leads⟩]
    simp [noSlash]

/-- A write that succeeds puts the bytes where its path leads. -/
theorem put_of_write {path : String} {bytes : List UInt8} (h : files.write path bytes = .ok written) :
    path.utf8ByteSize ≤ maxPath ∧ endsInSlash path = false ∧
      ∃ place location, files.Leads (origin path) (names path) place ∧
        place.location? = some location ∧ written = files.put location bytes := by
  unfold write at h
  split at h
  next => split at h <;> cases h
  next noSlash =>
    have noSlash : endsInSlash path = false := by simpa using noSlash
    split at h
    next => cases h
    next => cases h
    next location found located =>
      cases h
      obtain ⟨short, leads⟩ := locate_eq_ok_iff.mp located
      exact ⟨short, noSlash, _, location, leads, rfl, rfl⟩
    next location located =>
      cases h
      obtain ⟨short, leads⟩ := locate_eq_ok_iff.mp located
      exact ⟨short, noSlash, _, location, leads, rfl, rfl⟩

theorem read_of_write {path : String} {bytes : List UInt8}
    (h : files.write path bytes = .ok written) : written.read path = .ok bytes := by
  obtain ⟨short, noSlash, place, location, leads, at_location, rfl⟩ := put_of_write h
  exact read_eq_ok_iff.mpr ⟨short, noSlash, location, leads.put_self at_location bytes⟩

/-- Writing a file leaves the other files of its directory alone. -/
theorem read_of_write_sibling {path other : String} {before : List String} {name name' : String}
    {bytes : List UInt8} (same : origin path = origin other) (hp : names path = before ++ [name])
    (ho : names other = before ++ [name']) (apart : name ≠ name')
    (hr : files.read path = .ok content) (hw : files.write other bytes = .ok written) :
    written.read path = .ok content := by
  obtain ⟨short, noSlash, location, leads⟩ := read_eq_ok_iff.mp hr
  obtain ⟨_, _, place, location', leads', at_location, rfl⟩ := put_of_write hw
  rw [← same, ho] at leads'
  have siblings := leads
  rw [hp] at siblings
  obtain ⟨base, rfl, rfl⟩ := siblings.siblings leads' rfl at_location
  have elsewhere : base ++ [name] ≠ base ++ [name'] := by simpa using apart
  exact read_eq_ok_iff.mpr ⟨short, noSlash, base ++ [name],
    leads.put_other rfl (leads'.writable at_location) elsewhere bytes⟩

end Files

end TapeC.Command
