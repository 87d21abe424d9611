import TapeC.Command.Session
import TapeC.Proofs.Indentation

namespace TapeC.Command

variable {system : FileSystem} {stdout : Stdout}

theorem atOnce_le_length (bytes : List UInt8) : atOnce bytes ≤ bytes.length := by
  unfold atOnce
  dsimp only
  split <;> omega

theorem Stdout.exists_limit {bytes : List UInt8} {error : StreamError}
    (h : stdout.error? bytes = some error) :
    ∃ limit, stdout = .limited limit error ∧ limit < bytes.length := by
  cases stdout with
  | endless => cases h
  | limited limit reason =>
    have most := atOnce_le_length bytes
    simp only [error?] at h
    split at h
    next short =>
      cases h
      exact ⟨limit, rfl, by omega⟩
    next => cases h

/-- Whether effects are those of an output that failed, where it would have been the last thing to do and
no file is touched. Some of the output may have got through, but not all of it. -/
structure CutShort (stdout : Stdout) (files : Files) (whole cut : Effects) : Prop where
  success : whole.exit = .success
  untouched : whole.files = files ∧ cut.files = files
  failed : ∃ limit error, stdout = .limited limit error ∧ limit < whole.stdout.length ∧
    cut.stdout = whole.stdout.take limit ∧ cut.exit = .failure (printReport error)

/-- Effects that differ in the journal at most. -/
structure Effects.Agree (first second : Effects) : Prop where
  exit : first.exit = second.exit
  stdout : first.stdout = second.stdout
  files : first.files = second.files

def Plan.effects (system : FileSystem) (stdout : Stdout) (plan : Plan) (files : Files) : Effects :=
  perform system stdout plan.exit plan.actions files

/-- Whether a plan that fails prints nothing and leaves the files alone, or ends with an exit and with files
that are excepted, or is cut short in its output. -/
def Plan.Traceless (system : FileSystem) (stdout : Stdout) (excepted : Files → Exit → Files → Prop)
    (plan : Plan) : Prop :=
  ∀ files, (plan.effects system stdout files).exit ≠ .success →
    ((plan.effects system stdout files).stdout = [] ∧
      ((plan.effects system stdout files).files = files ∨
        excepted files (plan.effects system stdout files).exit
          (plan.effects system stdout files).files)) ∨
    CutShort stdout files (plan.effects system .endless files) (plan.effects system stdout files)

namespace Plan

variable {excepted : Files → Exit → Files → Prop} {plan : Plan}

theorem traceless_stop (exit : Exit) : (stop exit).Traceless system stdout excepted :=
  fun _ _ => .inl ⟨rfl, .inl rfl⟩

theorem traceless_fail (headline : String) (cause : Option String) :
    (fail headline cause).Traceless system stdout excepted :=
  traceless_stop _

/-! ### Messages -/

theorem agree_logged (level : Level) (scope text : String) (files : Files) :
    ((plan.logged level scope text).effects system stdout files).Agree
      (plan.effects system stdout files) :=
  ⟨rfl, rfl, rfl⟩

theorem agree_log_append {entries : List Action}
    (logs : ∀ action ∈ entries, ∃ entry, action = .log entry) (files : Files) :
    (effects system stdout { plan with actions := entries ++ plan.actions } files).Agree
      (plan.effects system stdout files) := by
  induction entries with
  | nil => exact ⟨rfl, rfl, rfl⟩
  | cons action entries ih =>
    obtain ⟨entry, rfl⟩ := logs action List.mem_cons_self
    obtain ⟨exit, stdout, files⟩ := ih fun other mem => logs other (List.mem_cons_of_mem _ mem)
    exact ⟨exit, stdout, files⟩

theorem Traceless.of_agree {other : Plan} (h : plan.Traceless system stdout excepted)
    (agree : ∀ stdout files, (other.effects system stdout files).Agree (plan.effects system stdout files)) :
    other.Traceless system stdout excepted := by
  intro files failed
  obtain ⟨exit, printed, result⟩ := agree stdout files
  obtain ⟨exit', printed', result'⟩ := agree .endless files
  rw [exit] at failed
  rcases h files failed with traceless | ⟨success, untouched, cut⟩
  · rw [exit, printed, result]
    exact .inl traceless
  · refine .inr ⟨exit'.trans success, ?_, ?_⟩
    · rw [result, result']
      exact untouched
    · rw [exit, printed, printed']
      exact cut

theorem Traceless.logged (h : plan.Traceless system stdout excepted) (level : Level)
    (scope text : String) : (plan.logged level scope text).Traceless system stdout excepted :=
  h.of_agree fun _ files => agree_logged level scope text files

theorem Traceless.log_append (h : plan.Traceless system stdout excepted) {entries : List Action}
    (logs : ∀ action ∈ entries, ∃ entry, action = .log entry) :
    Traceless system stdout excepted { plan with actions := entries ++ plan.actions } :=
  h.of_agree fun _ files => agree_log_append logs files

/-! ### Output -/

theorem effects_print_error {bytes : List UInt8} {error : StreamError}
    (h : stdout.error? bytes = some error) (files : Files) :
    (plan.after (.print bytes)).effects system stdout files =
      ⟨.failure (printReport error), stdout.delivered bytes, files, []⟩ := by
  simp only [effects, after, perform, h]

theorem effects_print_exit {bytes : List UInt8} (h : stdout.error? bytes = none) (files : Files) :
    ((plan.after (.print bytes)).effects system stdout files).exit =
      (plan.effects system stdout files).exit := by
  simp only [effects, after, perform, h]

theorem traceless_print (bytes : List UInt8) :
    ((stop .success).after (.print bytes)).Traceless system stdout excepted := by
  intro files failed
  cases he : stdout.error? bytes with
  | none =>
    rw [effects_print_exit he] at failed
    exact absurd rfl failed
  | some error =>
    have whole : ((stop .success).after (.print bytes)).effects system .endless files =
        ⟨.success, bytes, files, []⟩ := by
      simp [effects, after, perform, stop, Stdout.error?, Stdout.delivered]
    rw [whole, effects_print_error he]
    obtain ⟨limit, rfl, short⟩ := Stdout.exists_limit he
    exact .inr ⟨rfl, ⟨rfl, rfl⟩, limit, error, rfl, short, rfl, rfl⟩

/-! ### Files -/

theorem effects_write_ok {path text : String} {files written : Files}
    (h : system.write files path text.toUTF8.toList = .ok written) :
    (plan.after (.write path text)).effects system stdout files =
      plan.effects system stdout written := by
  simp only [effects, after, perform, h]

theorem effects_write_error {path text : String} {files : Files} {error : PathError}
    (h : system.write files path text.toUTF8.toList = .error error) :
    (plan.after (.write path text)).effects system stdout files =
      ⟨.failure (writeReport path error), [], files, []⟩ := by
  simp only [effects, after, perform, h]

theorem traceless_write (path text : String) :
    ((stop .success).after (.write path text)).Traceless system stdout excepted := by
  intro files failed
  cases hw : system.write files path text.toUTF8.toList with
  | ok written =>
    rw [effects_write_ok hw] at failed
    exact absurd rfl failed
  | error error =>
    rw [effects_write_error hw]
    exact .inl ⟨rfl, .inl rfl⟩

end Plan

/-- Whether files are those after a first path was written, where writing a second one then failed. -/
def WroteOnlyFirst (system : FileSystem) (first second : String) (files : Files) (exit : Exit)
    (written : Files) : Prop :=
  ∃ text other error, system.write files first text = .ok written ∧
    system.write written second other = .error error ∧
    exit = .failure (writeReport second error)

variable {excepted : Files → Exit → Files → Prop} {options : Options}

theorem withCText_traceless {layout : CLayout} {code : Code} {next : String → Plan}
    (h : ∀ text, layout.emit code = .ok text → (next text).Traceless system stdout excepted) :
    (withCText layout code next).Traceless system stdout excepted := by
  unfold withCText
  split
  next => exact Plan.traceless_stop _
  next text he => exact (h text he).logged _ _ _

theorem planRun_traceless (limits : Limits) (code : Code) (stdin : Except StreamError (List UInt8)) :
    (planRun limits code stdin).Traceless system stdout excepted := by
  unfold planRun
  split
  next => exact Plan.traceless_fail _ _
  next input =>
    dsimp only
    split
    next => exact Plan.traceless_stop _
    next => exact Plan.traceless_fail _ _
    next output _ => exact ((Plan.traceless_print output).logged _ _ _).logged _ _ _

theorem planDelivery_traceless (output : Option String) (text : String) :
    (planDelivery output text).Traceless system stdout excepted := by
  unfold planDelivery
  split
  next path => exact Plan.traceless_write path text
  next => exact Plan.traceless_print _

theorem planText_traceless (layout : CLayout) (code : Code) :
    (planText options layout code).Traceless system stdout excepted := by
  unfold planText
  split
  next => exact withCText_traceless fun text _ => planDelivery_traceless _ text
  next => exact planDelivery_traceless _ _
  next => exact planDelivery_traceless _ _

/-- Two texts are written. The second one can be laid out since the first one could, so that it is missing
only if it cannot be written. -/
theorem planCompare_cases (layout : CLayout) (input : String) (p : Peephole) (code : Code)
    (files : Files) :
    let effects := (planCompare layout input code (p.optimize code)).effects system stdout files
    (effects.exit ≠ .success ∧ effects.stdout = [] ∧
      (effects.files = files ∨ WroteOnlyFirst system (withExtension input "unopt.c")
        (withExtension input "c") files effects.exit effects.files)) ∨
    effects.exit = .success ∧ ∃ text optimized written,
      layout.emit code = .ok text ∧ layout.emit (p.optimize code) = .ok optimized ∧
      system.write files (withExtension input "unopt.c") text.toUTF8.toList = .ok written ∧
      system.write written (withExtension input "c") optimized.toUTF8.toList = .ok effects.files := by
  unfold planCompare withCText
  cases he : layout.emit code with
  | error error => exact .inl ⟨by rintro ⟨⟩, rfl, .inl rfl⟩
  | ok text =>
    obtain ⟨optimized, ho⟩ := CLayout.emit_optimize he p
    simp only [ho, (Plan.agree_logged _ _ _ files).exit, (Plan.agree_logged _ _ _ files).stdout,
      (Plan.agree_logged _ _ _ files).files]
    cases hw : system.write files (withExtension input "unopt.c") text.toUTF8.toList with
    | error error =>
      rw [Plan.effects_write_error hw]
      exact .inl ⟨by rintro ⟨⟩, rfl, .inl rfl⟩
    | ok written =>
      rw [Plan.effects_write_ok hw]
      simp only [(Plan.agree_logged _ _ _ written).exit, (Plan.agree_logged _ _ _ written).stdout,
        (Plan.agree_logged _ _ _ written).files]
      cases hw' : system.write written (withExtension input "c") optimized.toUTF8.toList with
      | error error =>
        rw [Plan.effects_write_error hw']
        exact .inl ⟨by rintro ⟨⟩, rfl, .inr ⟨_, _, error, hw, hw', rfl⟩⟩
      | ok final =>
        rw [Plan.effects_write_ok hw']
        exact .inr ⟨rfl, text, optimized, written, rfl, rfl, hw, hw'⟩

theorem planCompare_traceless (layout : CLayout) (input : String) (p : Peephole) (code : Code) :
    (planCompare layout input code (p.optimize code)).Traceless system stdout
      (WroteOnlyFirst system (withExtension input "unopt.c") (withExtension input "c")) := by
  intro files failed
  rcases planCompare_cases layout input p code files with ⟨_, traceless⟩ | ⟨success, _⟩
  · exact .inl traceless
  · exact absurd success failed

theorem passEntries_logs (length : Nat) (tally : Tally) :
    ∀ action ∈ passEntries length tally, ∃ entry, action = .log entry := by
  intro action mem
  obtain ⟨pass, _, rfl⟩ := List.mem_map.mp mem
  exact ⟨_, rfl⟩

theorem planCode_traceless (settings : Settings) (code : Code)
    (stdin : Except StreamError (List UInt8)) :
    (planCode options settings code stdin).Traceless system stdout fun files exit written =>
      options.compare = true ∧ WroteOnlyFirst system (withExtension options.input "unopt.c")
        (withExtension options.input "c") files exit written := by
  unfold planCode
  refine Plan.Traceless.log_append (Plan.Traceless.logged ?_ _ _ _) (passEntries_logs _ _)
  split
  next => exact planRun_traceless _ _ _
  next =>
    split
    next compare =>
      intro files failed
      have h := planCompare_traceless settings.layout options.input settings.peephole code files failed
      exact h.imp_left fun traceless => ⟨traceless.1, traceless.2.imp_right fun wrote => ⟨compare, wrote⟩⟩
    next => exact planText_traceless _ _

/-- What holds of plans that fail at once, and of plans with a message before them if it holds without it,
holds of the plan of a call if it holds of what is planned for the code. -/
theorem plan_of_planCode {P : Plan → Prop} {inputs : Inputs}
    (fails : ∀ exit : Exit, exit ≠ .success → P (.stop exit))
    (logged : ∀ {plan : Plan} (level : Level) (scope text : String),
      P plan → P (plan.logged level scope text))
    (code : ∀ (settings : Settings) (program : String), inputs.source = .ok program →
      P (planCode options settings (.ofSource program) inputs.stdin)) :
    P (plan options inputs) := by
  refine logged _ _ _ ?_
  split
  next => exact fails _ (by rintro ⟨⟩)
  next settings _ =>
    refine logged _ _ _ ?_
    split
    next => exact fails _ (by rintro ⟨⟩)
    next program hs =>
      have planned := code settings program hs
      dsimp only
      unfold planChecked
      split
      next => exact logged _ _ _ planned
      next =>
        split
        next => exact fails _ (by rintro ⟨⟩)
        next => exact planned

theorem plan_traceless (inputs : Inputs) :
    (plan options inputs).Traceless system stdout fun files exit written =>
      options.compare = true ∧ WroteOnlyFirst system (withExtension options.input "unopt.c")
        (withExtension options.input "c") files exit written := by
  apply plan_of_planCode
  · exact fun exit _ => Plan.traceless_stop exit
  · exact fun level scope text traceless => traceless.logged level scope text
  · exact fun settings program _ => planCode_traceless settings _ _

theorem Exit.ne_success_of_code {exit : Exit} (h : exit.code ≠ 0) : exit ≠ .success := by
  rintro rfl
  exact h rfl

/-- A call that ends with an exit code other than zero has printed nothing and left all files as they
were, on every file system and with streams that may fail. There are two exceptions. A comparison whose
second file could not be written may have written the first one. And where the standard output failed,
what it took before stays: the beginning, and not all, of what the call prints if the output does not
fail, in which case it succeeds and leaves all files as they were. A call that breaks off is no exception. -/
theorem failed_call_leaves_nothing (system : FileSystem) (streams : Streams) (arguments : List String)
    (files : Files)
    (failed : ((Request.ofArguments arguments).callOn system streams files).exit.code ≠ 0) :
    let effects := (Request.ofArguments arguments).callOn system streams files
    let whole := (Request.ofArguments arguments).callOn system ⟨streams.stdin, .endless⟩ files
    ((effects.stdout = [] ∧
      (effects.files = files ∨
        ∃ options, Request.ofArguments arguments = .work options ∧ options.compare = true ∧
          ∃ text other error,
            system.write files (withExtension options.input "unopt.c") text = .ok effects.files ∧
            system.write effects.files (withExtension options.input "c") other = .error error ∧
            effects.exit = .failure (writeReport (withExtension options.input "c") error))) ∨
      effects.files = files ∧ whole.exit = .success ∧ whole.files = files ∧
        ∃ limit error, streams.stdout = .limited limit error ∧ limit < whole.stdout.length ∧
          effects.stdout = whole.stdout.take limit ∧ effects.exit = .failure (printReport error)) ∧
    (effects.exit = .crash → effects.stdout = [] ∧ effects.files = files) := by
  generalize Request.ofArguments arguments = request at failed ⊢
  have hne := Exit.ne_success_of_code failed
  cases request with
  | usageError => exact ⟨.inl ⟨rfl, .inl rfl⟩, fun _ => ⟨rfl, rfl⟩⟩
  | help => exact absurd rfl hne
  | version => exact absurd rfl hne
  | work options =>
    rcases plan_traceless (.ofFiles system options files streams.stdin) files hne with
      ⟨silent, kept | ⟨compare, wrote⟩⟩ | ⟨success, ⟨whole, kept⟩, limit, error, cut⟩
    · exact ⟨.inl ⟨silent, .inl kept⟩, fun _ => ⟨silent, kept⟩⟩
    · refine ⟨.inl ⟨silent, .inr ⟨options, rfl, compare, wrote⟩⟩, fun crash => ?_⟩
      obtain ⟨_, _, error, _, _, exit⟩ := wrote
      cases crash.symm.trans exit
    · refine ⟨.inr ⟨kept, success, whole, limit, error, cut⟩, fun crash => ?_⟩
      cases crash.symm.trans cut.2.2.2

/-- A comparison whose second file is a directory: the first one is written, and nothing is printed. -/
theorem failed_call_leaves_nothing_directory :
    let files : Files := ⟨[(["a.bf"], [43]), (["a.c", "x"], [])]⟩
    let effects := (Request.ofArguments ["a.bf", "--compare"]).callOn .inMemory ⟨.ok [], .endless⟩ files
    effects.exit.code ≠ 0 ∧ effects.stdout = [] ∧ effects.files ≠ files ∧
      ∃ text other error, files.write "a.unopt.c" text = .ok effects.files ∧
        effects.files.write "a.c" other = .error error ∧
        effects.exit = .failure (writeReport "a.c" error) := by
  intro files effects
  have failed : effects.exit.code ≠ 0 := by decide +kernel
  have changed : effects.files ≠ files := by decide +kernel
  obtain ⟨h, _⟩ := failed_call_leaves_nothing .inMemory ⟨.ok [], .endless⟩ ["a.bf", "--compare"] files failed
  rcases h with ⟨silent, kept | ⟨options, request, _, wrote⟩⟩ | ⟨kept, _⟩
  · exact absurd kept changed
  · have input : options.input = "a.bf" := by
      have known : Request.ofArguments ["a.bf", "--compare"] =
          .work ⟨"a.bf", none, .c, none, false, false, true, false, none, false⟩ := by decide +kernel
      cases known.symm.trans request
      rfl
    have first : withExtension "a.bf" "unopt.c" = "a.unopt.c" := by decide +kernel
    have second : withExtension "a.bf" "c" = "a.c" := by decide +kernel
    rw [input, first, second] at wrote
    exact ⟨failed, silent, changed, wrote⟩
  · exact absurd kept changed

/-- A device that is full after nine bytes: they stay, although the call fails. -/
theorem interrupted_output_stays :
    let files : Files := ⟨[(["a.bf"], [43])]⟩
    let full : Stdout := .limited 9 ⟨"No space left on device (os error 28)"⟩
    let effects := (Request.ofArguments ["a.bf"]).callOn .inMemory ⟨.ok [], full⟩ files
    effects.exit.code ≠ 0 ∧ effects.files = files ∧ effects.stdout = "#include ".toUTF8.toList ∧
      effects.stdout ≠ [] := by
  decide +kernel

end TapeC.Command
