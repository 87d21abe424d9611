import TapeC.Proofs.FailedCalls
import TapeC.Proofs.NamedPaths

namespace TapeC.Command

/-! ### Options that exclude each other -/

theorem Draft.run_of_finish {d : Draft} {options : Options} (h : d.finish = .work options)
    (compare : options.compare = true) : options.run = false := by
  unfold finish at h
  split at h
  next => cases h
  next =>
    split at h
    next => cases h
    next fits =>
      cases h
      have compare : d.compare = true := compare
      simp only [hasConflict, compare, Bool.or_true, Bool.and_true, Bool.or_eq_true, not_or] at fits
      exact Bool.eq_false_iff.mpr fits.1.2

theorem exists_finish_of_readInputs {d : Draft} {arguments : List String} {options : Options}
    (h : readInputs d arguments = .work options) : ∃ d : Draft, d.finish = .work options := by
  induction arguments generalizing d with
  | nil => exact ⟨d, h⟩
  | cons argument rest ih =>
    rw [readInputs] at h
    split at h
    next => exact ih h
    next => cases h

/-- Whatever is asked for was complete and free of conflicts. -/
theorem exists_finish_of_readArguments {waiting : Option Valued} {d : Draft} {arguments : List String}
    {options : Options} (h : readArguments waiting d arguments = .work options) :
    ∃ d : Draft, d.finish = .work options := by
  fun_induction readArguments waiting d arguments with
  | case1 d => exact ⟨d, h⟩
  | case6 => exact exists_finish_of_readInputs h
  | _ => simp_all

/-! ### The files of a comparison -/

variable {system : FileSystem} {stdout : Stdout} {options : Options}

/-- How a comparison of what was read can end: with the files as they were, with the first one written as
well, or with both of them, and only then with success. -/
def Compared (system : FileSystem) (input : String) (source : Except ReadError String) (files : Files)
    (exit : Exit) (result : Files) : Prop :=
  (exit ≠ .success ∧ result = files) ∨
  (exit ≠ .success ∧ ∃ text, system.write files (withExtension input "unopt.c") text = .ok result) ∨
  ∃ (program : String) (layout : CLayout) (p : Peephole) (text optimized : String) (written : Files),
    source = .ok program ∧ layout.emit (.ofSource program) = .ok text ∧
    layout.emit (p.optimize (.ofSource program)) = .ok optimized ∧
    system.write files (withExtension input "unopt.c") text.toUTF8.toList = .ok written ∧
    system.write written (withExtension input "c") optimized.toUTF8.toList = .ok result

def Plan.Compares (system : FileSystem) (stdout : Stdout) (input : String)
    (source : Except ReadError String) (files : Files) (plan : Plan) : Prop :=
  Compared system input source files (plan.effects system stdout files).exit
    (plan.effects system stdout files).files

section Plans

variable {source : Except ReadError String} {files : Files} {input : String}

theorem Plan.Compares.of_agree {plan other : Plan} (h : plan.Compares system stdout input source files)
    (agree : (other.effects system stdout files).Agree (plan.effects system stdout files)) :
    other.Compares system stdout input source files := by
  unfold Compares
  rw [agree.exit, agree.files]
  exact h

theorem planCompare_compares (layout : CLayout) (input : String) (p : Peephole) {program : String}
    (hs : source = .ok program) :
    (planCompare layout input (.ofSource program) (p.optimize (.ofSource program))).Compares system
      stdout input source files := by
  rcases planCompare_cases layout input p (.ofSource program) files with
    ⟨failed, _, unchanged | ⟨_, _, _, wrote, _⟩⟩ | ⟨_, text, optimized, written, he, ho, hw, hw'⟩
  · exact .inl ⟨failed, unchanged⟩
  · exact .inr (.inl ⟨failed, _, wrote⟩)
  · exact .inr (.inr ⟨program, layout, p, text, optimized, written, hs, he, ho, hw, hw'⟩)

theorem planCode_compares (compare : options.compare = true) (still : options.run = false)
    (settings : Settings) {program : String} (hs : source = .ok program)
    (stdin : Except StreamError (List UInt8)) :
    (planCode options settings (.ofSource program) stdin).Compares system stdout options.input source
      files := by
  unfold planCode
  simp only [still, compare, Bool.false_eq_true, if_true, if_false]
  refine Plan.Compares.of_agree ?_ (Plan.agree_log_append (passEntries_logs _ _) files)
  refine Plan.Compares.of_agree ?_ (Plan.agree_logged _ _ _ files)
  exact planCompare_compares settings.layout options.input settings.peephole hs

theorem plan_compares (compare : options.compare = true) (still : options.run = false)
    (inputs : Inputs) :
    (plan options inputs).Compares system stdout options.input inputs.source files := by
  apply plan_of_planCode
  · exact fun exit failed => .inl ⟨failed, rfl⟩
  · exact fun level scope text compares => compares.of_agree (Plan.agree_logged level scope text files)
  · exact fun settings program hs => planCode_compares compare still settings hs _

end Plans

/-! ### Files beside each other -/

/-- Whether two names in one directory are two files, as they are where there are no links: writing one
leaves the other as it is. What was written is read back, and only a proper name is that of a file. -/
structure FileSystem.Separates (system : FileSystem) : Prop where
  read_written : ∀ {files written : Files} {path : String} {bytes : List UInt8},
    system.write files path bytes = .ok written → system.read written path = .ok bytes
  keeps : ∀ {files written : Files} {path other : String} {directory name name' : List Char}
    {content bytes : List UInt8}, Splits path directory name → Splits other directory name' →
    name ≠ [] → name' ≠ [] → path ≠ other → system.read files path = .ok content →
    system.write files other bytes = .ok written → system.read written path = .ok content
  name_of_read : ∀ {files : Files} {path : String} {content : List UInt8},
    system.read files path = .ok content →
    ∃ directory name, Splits path directory name ∧ name ≠ [] ∧ name ≠ ['.'] ∧ name ≠ ['.', '.']
  name_of_write : ∀ {files written : Files} {path : String} {directory name : List Char}
    {bytes : List UInt8}, Splits path directory name → name ≠ [] →
    system.write files path bytes = .ok written → name ≠ ['.', '.']

theorem FileSystem.inMemory_separates : inMemory.Separates where
  read_written h := Files.read_of_write h
  keeps h h' named named' apart hr hw := h.read_of_write h' named named' apart hr hw
  name_of_read h := exists_splits_of_read h
  name_of_write h named hw := h.name_of_write named hw

/-! ### The input -/

namespace FileSystem.Separates

variable {files : Files} {content : List UInt8} {input : String}

/-- The extensions of the two files have no slash, and so name files beside the input. -/
theorem exists_splits_compared (separates : system.Separates)
    (readable : system.read files input = .ok content) :
    ∃ directory name, Splits input directory name ∧ name ≠ ['.', '.'] ∧ name ≠ [] ∧
      Splits (withExtension input "unopt.c") directory (renamed name "unopt.c".toList) ∧
      Splits (withExtension input "c") directory (renamed name "c".toList) := by
  obtain ⟨directory, name, splits, proper⟩ := separates.name_of_read readable
  exact ⟨directory, name, splits, proper.2.2, proper.1, splits.withExtension proper (by decide),
    splits.withExtension proper (by decide)⟩

theorem first_ne_input (separates : system.Separates)
    (readable : system.read files input = .ok content) : withExtension input "unopt.c" ≠ input := by
  obtain ⟨directory, name, splits, proper, _, first, _⟩ := separates.exists_splits_compared readable
  intro same
  have kept := (first.eq_iff splits).mp same
  exact absurd (by decide) ((renamed_eq_self_iff proper).mp kept).1

/-- The second file is the input itself exactly if a stem of more than a dot and the second extension
make up the name of the input. -/
theorem second_eq_input_iff (separates : system.Separates)
    (readable : system.read files input = .ok content) :
    withExtension input "c" = input ↔
      ∃ directory stem, Splits input directory (stem ++ ".c".toList) ∧ stem ≠ [] ∧ stem ≠ ['.'] := by
  obtain ⟨directory, name, splits, proper, _, _, second⟩ := separates.exists_splits_compared readable
  rw [second.eq_iff splits, renamed_eq_self_iff proper]
  constructor
  · rintro ⟨_, stem, some_stem, other, rfl⟩
    exact ⟨directory, stem, splits, some_stem, other⟩
  · rintro ⟨directory', stem, splits', some_stem, other⟩
    have same := splits.takeWhile_eq.symm.trans splits'.takeWhile_eq
    exact ⟨by decide, stem, some_stem, other, same⟩

theorem first_ne_second (separates : system.Separates)
    (readable : system.read files input = .ok content) {other written : Files} {bytes : List UInt8}
    (hw : system.write other (withExtension input "unopt.c") bytes = .ok written) :
    withExtension input "unopt.c" ≠ withExtension input "c" := by
  obtain ⟨directory, name, _, _, _, first, second⟩ := separates.exists_splits_compared readable
  intro same
  rcases eq_or_dots_of_renamed_eq ((first.eq_iff second).mp same) with extension | dots
  · revert extension
    decide
  · exact separates.name_of_write first (renamed_ne_nil _ _) hw dots

variable {source : Except ReadError String} {exit : Exit} {result : Files}

theorem kept_of_compared (separates : system.Separates)
    (readable : system.read files input = .ok content)
    (compared : Compared system input source files exit result)
    (other : withExtension input "c" ≠ input) : system.read result input = .ok content := by
  obtain ⟨directory, name, splits, _, named, first, second⟩ :=
    separates.exists_splits_compared readable
  have apart := (separates.first_ne_input readable).symm
  have kept : ∀ {bytes written}, system.write files (withExtension input "unopt.c") bytes = .ok written →
      system.read written input = .ok content := fun hw =>
    separates.keeps splits first named (renamed_ne_nil _ _) apart readable hw
  rcases compared with ⟨_, rfl⟩ | ⟨_, text, hw⟩ | ⟨_, _, _, _, _, written, _, _, _, hw, hw'⟩
  · exact readable
  · exact kept hw
  · exact separates.keeps splits second named (renamed_ne_nil _ _) other.symm (kept hw) hw'

theorem held_of_compared (separates : system.Separates)
    (readable : system.read files input = .ok content)
    (compared : Compared system input source files exit result) (success : exit = .success) :
    withExtension input "unopt.c" ≠ withExtension input "c" ∧
      ∃ (program : String) (layout : CLayout) (p : Peephole) (text optimized : String),
        source = .ok program ∧ layout.emit (.ofSource program) = .ok text ∧
        layout.emit (p.optimize (.ofSource program)) = .ok optimized ∧
        system.read result (withExtension input "unopt.c") = .ok text.toUTF8.toList ∧
        system.read result (withExtension input "c") = .ok optimized.toUTF8.toList := by
  obtain ⟨directory, name, _, _, _, first, second⟩ := separates.exists_splits_compared readable
  rcases compared with ⟨failed, _⟩ | ⟨failed, _⟩ |
    ⟨program, layout, p, text, optimized, written, hs, he, ho, hw, hw'⟩
  · exact absurd success failed
  · exact absurd success failed
  · have different := separates.first_ne_second readable hw
    have held := separates.keeps first second (renamed_ne_nil _ _) (renamed_ne_nil _ _) different
      (separates.read_written hw) hw'
    exact ⟨different, program, layout, p, text, optimized, hs, he, ho, held, separates.read_written hw'⟩

end FileSystem.Separates

/-- A comparison of a file that can be read keeps this file, unless its name is a stem and the extension of
the second file that is written. The first file is never the input. If the comparison succeeds, then the
two files are different ones and hold the texts of the program before and after optimisation. This holds
of every file system that keeps the files of a directory apart, as that of the files in memory does. -/
theorem comparison_and_its_input {system : FileSystem} (separates : system.Separates)
    (streams : Streams) {arguments : List String} {options : Options} {files : Files}
    {content : List UInt8} (asked : Request.ofArguments arguments = .work options)
    (compare : options.compare = true) (readable : system.read files options.input = .ok content) :
    let first := withExtension options.input "unopt.c"
    let second := withExtension options.input "c"
    let effects := (Request.ofArguments arguments).callOn system streams files
    (second ≠ options.input → system.read effects.files options.input = .ok content) ∧
    first ≠ options.input ∧
    (second = options.input ↔ ∃ directory stem, Splits options.input directory (stem ++ ".c".toList) ∧
      stem ≠ [] ∧ stem ≠ ['.']) ∧
    (effects.exit = .success → first ≠ second ∧
      ∃ (program : String) (layout : CLayout) (p : Peephole) (text optimized : String),
        decodeText (.ok content) = .ok program ∧ layout.emit (.ofSource program) = .ok text ∧
        layout.emit (p.optimize (.ofSource program)) = .ok optimized ∧
        system.read effects.files first = .ok text.toUTF8.toList ∧
        system.read effects.files second = .ok optimized.toUTF8.toList) := by
  intro first second effects
  obtain ⟨d, complete⟩ := exists_finish_of_readArguments asked
  have still := Draft.run_of_finish complete compare
  have hcall : effects = (plan options (.ofFiles system options files streams.stdin)).effects system
      streams.stdout files := by
    simp only [effects, asked]
    rfl
  have source : (Inputs.ofFiles system options files streams.stdin).source = decodeText (.ok content) :=
    congrArg decodeText readable
  have compared : Compared system options.input (decodeText (.ok content)) files effects.exit
      effects.files := by
    rw [hcall, ← source]
    exact plan_compares compare still _
  exact ⟨separates.kept_of_compared readable compared, separates.first_ne_input readable,
    separates.second_eq_input_iff readable, separates.held_of_compared readable compared⟩

/-- A name with several dots, in a directory whose name has a dot too. -/
theorem comparison_and_its_input_dotted :
    let files : Files := ⟨[(["d.c", "a.b.bf"], [43])]⟩
    let effects := (Request.ofArguments ["./d.c/a.b.bf", "--compare"]).call files []
    files.read "./d.c/a.b.bf" = .ok [43] ∧ effects.exit = .success ∧
      effects.files.read "./d.c/a.b.bf" = .ok [43] ∧
      "./d.c/a.b.unopt.c" ≠ "./d.c/a.b.c" ∧
      ∃ text optimized, effects.files.read "./d.c/a.b.unopt.c" = .ok text ∧
        effects.files.read "./d.c/a.b.c" = .ok optimized := by
  intro files effects
  have asked : Request.ofArguments ["./d.c/a.b.bf", "--compare"] =
      .work ⟨"./d.c/a.b.bf", none, .c, none, false, false, true, false, none, false⟩ := by decide +kernel
  have readable : FileSystem.inMemory.read files "./d.c/a.b.bf" = .ok [43] := by decide +kernel
  have first : withExtension "./d.c/a.b.bf" "unopt.c" = "./d.c/a.b.unopt.c" := by decide +kernel
  have second : withExtension "./d.c/a.b.bf" "c" = "./d.c/a.b.c" := by decide +kernel
  have success : effects.exit = .success := by decide +kernel
  obtain ⟨kept, _, _, written⟩ := comparison_and_its_input FileSystem.inMemory_separates
    ⟨.ok [], .endless⟩ asked rfl readable
  obtain ⟨different, _, _, _, text, optimized, _, _, _, hfirst, hsecond⟩ := written success
  simp only [first, second] at kept different hfirst hsecond
  exact ⟨readable, success, kept (by decide), different, _, _, hfirst, hsecond⟩

/-- An input whose name already has the second extension: it is overwritten, and the comparison succeeds. -/
theorem comparison_overwrites_input :
    let files : Files := ⟨[(["x.c"], [43, 46])]⟩
    let effects := (Request.ofArguments ["x.c", "--compare"]).call files []
    files.read "x.c" = .ok [43, 46] ∧ effects.exit = .success ∧ withExtension "x.c" "c" = "x.c" ∧
      effects.files.read "x.c" ≠ .ok [43, 46] := by
  decide +kernel

end TapeC.Command
