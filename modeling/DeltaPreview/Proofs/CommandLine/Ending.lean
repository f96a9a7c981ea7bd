import DeltaPreview.CommandLine.Run
import DeltaPreview.Proofs.File.Tree
import DeltaPreview.Proofs.Text.Trim

/-!
# How runs end

A job ends in one of seven ways (`Job.Ends`), and only two of them write a file: `Job.ends` says which.  From it
follow the exit code of a run and the reasons why a run has none (`run_exitCode`).  One of these reasons comes
too late to leave the files alone: the last line names the output, and is printed when the preview has been
written.
-/

namespace DeltaPreview

/-! ### Outcomes -/

namespace Outcome

variable {settings : Settings} {r : Formula.Renderer} {text : Text}

theorem exists_of_invalid (settings : Settings) (r : Formula.Renderer) {reason : InvalidDocument}
    (h : Document.validate text = .ok (.error reason)) :
    ∃ outcome, ofText settings r text = .ok outcome ∧ outcome.error = some reason := by
  rw [ofText, h]
  exact ⟨_, rfl, rfl⟩

theorem error_of_valid {doc : Document} {outcome : Outcome} (hvalid : Document.validate text = .ok (.ok doc))
    (h : ofText settings r text = .ok outcome) : outcome.error = none := by
  have h : ofDocument settings r text doc = .ok outcome := by
    rw [ofText, hvalid] at h
    exact h
  obtain ⟨nodes, -, h⟩ := bind_eq_ok.mp h
  obtain ⟨html, -, h⟩ := bind_eq_ok.mp h
  cases h
  rfl

end Outcome

namespace CommandLine

open File

/-- The exit code with which a run ends, unless it fails. -/
def Ending.exitCode? : Ending → Option Nat
  | arguments exitCode => some exitCode
  | finished report => some report.exitCode
  | failed _ => none

/-- The path of the input that arguments name. -/
def Arguments.inputPath (a : Arguments) : Path := Path.ofText (a.input.getD Job.defaultInput)

theorem checkLine_eq_ok_iff {line : Text} {u : Unit} :
    checkLine line = .ok u ↔ line.isPaired = true := by
  rw [Text.isPaired_iff_firstSurrogates, checkLine]
  cases line.firstSurrogates <;> simp

theorem checkPath_eq_ok_iff {path : Path} {u : Unit} :
    checkPath path = .ok u ↔
      (∀ i, .surrogate i ∈ path.text → isEscape i = true) ∧ .char '\x00' ∉ path.text := by
  rw [← firstUnencodable_eq_none_iff, checkPath]
  cases firstUnencodable path.text <;> simp

namespace Job

variable {settings : Settings} {job : Job} {files after : Tree} {text : Text}

/-- The path of the input can be printed, and given to the system. -/
structure Begins (job : Job) : Prop where
  printable : job.input.text.isPaired = true
  noNull : .char '\x00' ∉ job.input.text

/-- The input of a job is a file in UTF-8 that holds a text. -/
structure Reads (job : Job) (files : Tree) (text : Text) : Prop where
  begins : job.Begins
  bytes : ∃ chars, files.read job.input = .ok (Utf8.encode chars) ∧
    text = Text.ofChars (normalizeLines chars)

/-- The output of a job is a file that exists or can be created.  Its path can be given to the system, but need
not be one that can be printed. -/
structure Writes (job : Job) (files : Tree) (target : Location) : Prop where
  encodable : ∀ i, .surrogate i ∈ job.output.text → isEscape i = true
  noNull : .char '\x00' ∉ job.output.text
  resolve : files.resolve job.output = .ok target
  isFile : files.isDirectory target = false

/-- A valid document has been rendered, and its preview written. -/
def Previews (settings : Settings) (job : Job) (files after : Tree) : Prop :=
  ∃ text doc outcome target, job.Reads files text ∧ Document.validate text = .ok (.ok doc) ∧
    Outcome.ofText settings settings.renderer text = .ok outcome ∧ job.Writes files target ∧
    after = files.put target (Utf8.encode outcome.html)

/-- How a job ends, and the files afterwards. -/
inductive Ends (settings : Settings) (job : Job) (files : Tree) : Except Failure Report → Tree → Prop
  | unbegun (h : ¬ job.Begins) (failure : Failure) : Ends settings job files (.error failure) files
  | unreadable (hbegins : job.Begins) (h : ∀ text, ¬ job.Reads files text) (u : Unreadable) :
      Ends settings job files (.ok (job.unreadable u)) files
  | unrendered {text : Text} (hreads : job.Reads files text) {failure : RenderFailure}
      (h : Outcome.ofText settings settings.renderer text = .error failure) :
      Ends settings job files (.error (.unrendered failure)) files
  | invalid {text : Text} (hreads : job.Reads files text) {reason : InvalidDocument}
      (hinvalid : Document.validate text = .ok (.error reason)) :
      Ends settings job files (.ok (job.stopped 1 (Text.ofString reason.message))) files
  | unwritable {text : Text} (hreads : job.Reads files text) {doc : Document}
      (hvalid : Document.validate text = .ok (.ok doc)) {outcome : Outcome}
      (h : Outcome.ofText settings settings.renderer text = .ok outcome)
      (hwrites : ∀ target, ¬ job.Writes files target) (failure : Failure) :
      Ends settings job files (.error failure) files
  | unprinted {after : Tree} (h : job.Previews settings files after)
      (hprint : job.output.text.isPaired = false) (failure : Failure) :
      Ends settings job files (.error failure) after
  | written {after : Tree} (h : job.Previews settings files after)
      (hprint : job.output.text.isPaired = true) (conclusion : Text) :
      Ends settings job files (.ok (job.finished conclusion)) after

theorem isPaired_announcement : job.announcement.isPaired = true ↔ job.input.text.isPaired = true := by
  simp only [announcement, Text.isPaired_append, Text.ofString, Text.isPaired_ofChars, true_and, and_true]

theorem isPaired_conclusion (summary : Summary) :
    (job.conclusion summary).isPaired = true ↔ job.output.text.isPaired = true := by
  simp only [conclusion, Text.isPaired_append, Text.ofString, Text.isPaired_ofChars, true_and, and_true]

theorem begins_iff :
    job.Begins ↔ checkLine job.announcement = .ok () ∧ checkPath job.input = .ok () := by
  rw [checkLine_eq_ok_iff, isPaired_announcement, checkPath_eq_ok_iff]
  constructor
  · rintro ⟨hprint, hnull⟩
    refine ⟨hprint, fun i hi => ?_, hnull⟩
    obtain ⟨c, hc⟩ := Text.isPaired_iff.mp hprint _ hi
    cases hc
  · rintro ⟨hprint, -, hnull⟩
    exact ⟨hprint, hnull⟩

theorem inputText_eq_ok_iff {bytes : Except Problem (List UInt8)} :
    inputText bytes = .ok text ↔
      ∃ chars, bytes = .ok (Utf8.encode chars) ∧ text = Text.ofChars (normalizeLines chars) := by
  cases bytes with
  | error problem => simp [inputText]
  | ok bytes =>
    simp only [inputText, Except.ok.injEq, ← Utf8.decode_eq_ok_iff]
    cases hdecode : Utf8.decode bytes <;> simp [eq_comm]

/-- The text of an input is that of its bytes. -/
theorem reads_iff (hbegins : job.Begins) :
    job.Reads files text ↔ inputText (files.read job.input) = .ok text := by
  rw [inputText_eq_ok_iff]
  exact ⟨fun h => h.bytes, fun h => ⟨hbegins, h⟩⟩

theorem write_eq_ok_iff {bytes : List UInt8} :
    job.write files bytes = .ok after ↔
      ∃ target, job.Writes files target ∧ after = files.put target bytes := by
  simp only [Job.write, bind_eq_ok, checkPath_eq_ok_iff, mapError_eq_ok, Tree.write_eq_ok_iff]
  constructor
  · rintro ⟨-, ⟨hencodable, hnull⟩, target, hresolve, hfile, hafter⟩
    exact ⟨target, ⟨hencodable, hnull, hresolve, hfile⟩, hafter⟩
  · rintro ⟨target, ⟨hencodable, hnull, hresolve, hfile⟩, hafter⟩
    exact ⟨(), ⟨hencodable, hnull⟩, target, hresolve, hfile, hafter⟩

/-! ### Jobs -/

/-- A job that fails before it writes leaves the files as they are. -/
theorem run_of_error {failure : Failure} (h : job.prepare settings files = .error failure) :
    job.run settings files = (.error failure, files) := by
  unfold Job.run
  rw [h]

theorem run_of_step {step : Step} (h : job.prepare settings files = .ok step) :
    job.run settings files = job.complete files step := by
  unfold Job.run
  rw [h]

theorem run_of_not_begins (settings : Settings) (files : Tree) (h : ¬ job.Begins) :
    ∃ failure, job.run settings files = (.error failure, files) := by
  rw [begins_iff] at h
  cases hprepare : job.prepare settings files with
  | error failure => exact ⟨failure, run_of_error hprepare⟩
  | ok step =>
    obtain ⟨_, hline, hrest⟩ := bind_eq_ok.mp hprepare
    obtain ⟨_, hpath, -⟩ := bind_eq_ok.mp hrest
    exact absurd ⟨hline, hpath⟩ h

theorem prepare_of_begins (h : job.Begins) :
    job.prepare settings files = job.next settings (files.read job.input) := by
  obtain ⟨hline, hpath⟩ := begins_iff.mp h
  rw [prepare, hline, hpath]
  rfl

/-- A job without a text stops. -/
theorem run_of_unreadable (settings : Settings) (hbegins : job.Begins)
    (h : ∀ text, ¬ job.Reads files text) :
    ∃ u, job.run settings files = (.ok (job.unreadable u), files) := by
  cases hinput : inputText (files.read job.input) with
  | error u =>
    have hprepare : job.prepare settings files = .ok (.stop (job.unreadable u)) := by
      rw [prepare_of_begins hbegins, next, hinput]
    exact ⟨u, run_of_step hprepare⟩
  | ok text => exact absurd ((reads_iff hbegins).mpr hinput) (h text)

section Read

variable {outcome : Outcome} (hreads : job.Reads files text)

include hreads

theorem prepare_of_reads : job.prepare settings files = job.render settings text := by
  rw [prepare_of_begins hreads.begins, next, (reads_iff hreads.begins).mp hreads]

theorem run_of_unrendered {failure : RenderFailure}
    (h : Outcome.ofText settings settings.renderer text = .error failure) :
    job.run settings files = (.error (.unrendered failure), files) := by
  refine run_of_error ?_
  rw [prepare_of_reads hreads, render, h]
  rfl

theorem run_of_invalid {reason : InvalidDocument}
    (hinvalid : Document.validate text = .ok (.error reason)) :
    job.run settings files = (.ok (job.stopped 1 (Text.ofString reason.message)), files) := by
  obtain ⟨outcome, h, herror⟩ := Outcome.exists_of_invalid settings settings.renderer hinvalid
  have hprepare : job.prepare settings files =
      .ok (.stop (job.stopped 1 (Text.ofString reason.message))) := by
    rw [prepare_of_reads hreads]
    simp [render, h, herror, Except.mapError, bind, Except.bind, pure, Except.pure]
  exact run_of_step hprepare

theorem prepare_of_valid {doc : Document} (hvalid : Document.validate text = .ok (.ok doc))
    (h : Outcome.ofText settings settings.renderer text = .ok outcome) :
    job.prepare settings files =
      .ok (.write (Utf8.encode outcome.html) (job.conclusion outcome.summary)) := by
  have herror := Outcome.error_of_valid hvalid h
  rw [prepare_of_reads hreads]
  simp [render, h, herror, Except.mapError, bind, Except.bind, pure, Except.pure]

theorem run_of_unwritable {doc : Document} (hvalid : Document.validate text = .ok (.ok doc))
    (h : Outcome.ofText settings settings.renderer text = .ok outcome)
    (hwrites : ∀ target, ¬ job.Writes files target) :
    ∃ failure, job.run settings files = (.error failure, files) := by
  cases hwrite : job.write files (Utf8.encode outcome.html) with
  | error failure => exact ⟨failure, by rw [run_of_step (prepare_of_valid hreads hvalid h), complete, hwrite]⟩
  | ok after =>
    obtain ⟨target, htarget, -⟩ := write_eq_ok_iff.mp hwrite
    exact absurd htarget (hwrites target)

end Read

/-- When the preview has been written, only the last line can fail. -/
theorem run_of_previews (h : job.Previews settings files after) :
    ∃ summary, job.run settings files = ((checkLine (job.conclusion summary)).map
      fun _ => job.finished (job.conclusion summary), after) := by
  obtain ⟨text, doc, outcome, target, hreads, hvalid, houtcome, hwrites, rfl⟩ := h
  have hwrite : job.write files (Utf8.encode outcome.html) =
      .ok (files.put target (Utf8.encode outcome.html)) := write_eq_ok_iff.mpr ⟨target, hwrites, rfl⟩
  exact ⟨outcome.summary, by rw [run_of_step (prepare_of_valid hreads hvalid houtcome), complete, hwrite]⟩

theorem run_of_printed (h : job.Previews settings files after)
    (hprint : job.output.text.isPaired = true) :
    ∃ conclusion, job.run settings files = (.ok (job.finished conclusion), after) := by
  obtain ⟨summary, hrun⟩ := run_of_previews h
  have hline : checkLine (job.conclusion summary) = .ok () :=
    checkLine_eq_ok_iff.mpr ((isPaired_conclusion summary).mpr hprint)
  exact ⟨_, by rw [hrun, hline]; rfl⟩

theorem run_of_unprinted (h : job.Previews settings files after)
    (hprint : job.output.text.isPaired = false) :
    ∃ failure, job.run settings files = (.error failure, after) := by
  obtain ⟨summary, hrun⟩ := run_of_previews h
  cases hline : checkLine (job.conclusion summary) with
  | error failure => exact ⟨failure, by rw [hrun, hline]; rfl⟩
  | ok u =>
    have hpaired := (isPaired_conclusion summary).mp (checkLine_eq_ok_iff.mp hline)
    rw [hpaired] at hprint
    cases hprint

/-- Every job ends in one of the seven ways. -/
theorem ends (settings : Settings) (job : Job) (files : Tree) :
    job.Ends settings files (job.run settings files).1 (job.run settings files).2 := by
  by_cases hbegins : job.Begins
  swap
  · obtain ⟨failure, hrun⟩ := run_of_not_begins settings files hbegins
    rw [hrun]
    exact .unbegun hbegins failure
  by_cases hreads : ∃ text, job.Reads files text
  swap
  · have hnone := not_exists.mp hreads
    obtain ⟨u, hrun⟩ := run_of_unreadable settings hbegins hnone
    rw [hrun]
    exact .unreadable hbegins hnone u
  obtain ⟨text, hreads⟩ := hreads
  -- A document can be valid or not, or have no outcome for which that would matter.
  cases houtcome : Outcome.ofText settings settings.renderer text with
  | error failure =>
    rw [run_of_unrendered hreads houtcome]
    exact .unrendered hreads houtcome
  | ok outcome =>
    obtain ⟨validated, hvalidated, -⟩ := bind_eq_ok.mp houtcome
    cases validated with
    | error reason =>
      have hinvalid := mapError_eq_ok.mp hvalidated
      rw [run_of_invalid hreads hinvalid]
      exact .invalid hreads hinvalid
    | ok doc =>
      have hvalid := mapError_eq_ok.mp hvalidated
      by_cases hwrites : ∃ target, job.Writes files target
      · obtain ⟨target, hwrites⟩ := hwrites
        have hpreviews : job.Previews settings files (files.put target (Utf8.encode outcome.html)) :=
          ⟨text, doc, outcome, target, hreads, hvalid, houtcome, hwrites, rfl⟩
        cases hprint : job.output.text.isPaired with
        | true =>
          obtain ⟨conclusion, hrun⟩ := run_of_printed hpreviews hprint
          rw [hrun]
          exact .written hpreviews hprint conclusion
        | false =>
          obtain ⟨failure, hrun⟩ := run_of_unprinted hpreviews hprint
          rw [hrun]
          exact .unprinted hpreviews hprint failure
      · have hnone := not_exists.mp hwrites
        obtain ⟨failure, hrun⟩ := run_of_unwritable hreads hvalid houtcome hnone
        rw [hrun]
        exact .unwritable hreads hvalid houtcome hnone failure

/-- With which code a job ends, and the files afterwards: 0 if the preview of a valid document has been written
and can be announced, 1 if the document is not valid, 2 if the input is no file in UTF-8. -/
def Exits (settings : Settings) (job : Job) (files : Tree) : Nat → Tree → Prop
  | 0, after => job.output.text.isPaired = true ∧ job.Previews settings files after
  | 1, after => ∃ text reason, job.Reads files text ∧
      Document.validate text = .ok (.error reason) ∧ after = files
  | 2, after => job.Begins ∧ (∀ text, ¬ job.Reads files text) ∧ after = files
  | _, _ => False

/-- Why a job ends without a code although no file has changed: an input whose path cannot be printed or given
to the system, a document that cannot be rendered, or an output that cannot be written. -/
def Breaks (settings : Settings) (job : Job) (files : Tree) : Prop :=
  ¬ job.Begins ∨ ∃ text, job.Reads files text ∧
    ((∃ failure, Outcome.ofText settings settings.renderer text = .error failure) ∨
      ∃ doc outcome, Document.validate text = .ok (.ok doc) ∧
        Outcome.ofText settings settings.renderer text = .ok outcome ∧
        ∀ target, ¬ job.Writes files target)

/-- How a job ends without a code, and the files afterwards: either they have not changed, or the preview has
been written to a file whose path cannot be printed. -/
def Fails (settings : Settings) (job : Job) (files after : Tree) : Prop :=
  job.Breaks settings files ∧ after = files ∨
    job.output.text.isPaired = false ∧ job.Previews settings files after

theorem exits_iff {code : Nat} :
    (∃ report, job.run settings files = (.ok report, after) ∧ report.exitCode = code) ↔
      job.Exits settings files code after := by
  constructor
  · rintro ⟨report, hrun, rfl⟩
    have hends := job.ends settings files
    rw [hrun] at hends
    cases hends with
    | unreadable hbegins h u => exact ⟨hbegins, h, rfl⟩
    | invalid hreads hinvalid => exact ⟨_, _, hreads, hinvalid, rfl⟩
    | written h hprint conclusion => exact ⟨hprint, h⟩
  · intro h
    match code with
    | 0 =>
      obtain ⟨hprint, hpreviews⟩ := h
      obtain ⟨conclusion, hrun⟩ := run_of_printed hpreviews hprint
      exact ⟨_, hrun, rfl⟩
    | 1 =>
      obtain ⟨text, reason, hreads, hinvalid, rfl⟩ := h
      exact ⟨_, run_of_invalid hreads hinvalid, rfl⟩
    | 2 =>
      obtain ⟨hbegins, hnone, rfl⟩ := h
      obtain ⟨u, hrun⟩ := run_of_unreadable settings hbegins hnone
      exact ⟨_, hrun, rfl⟩

theorem fails_iff :
    (∃ failure, job.run settings files = (.error failure, after)) ↔ job.Fails settings files after := by
  constructor
  · rintro ⟨failure, hrun⟩
    have hends := job.ends settings files
    rw [hrun] at hends
    cases hends with
    | unbegun h => exact .inl ⟨.inl h, rfl⟩
    | unrendered hreads h => exact .inl ⟨.inr ⟨_, hreads, .inl ⟨_, h⟩⟩, rfl⟩
    | unwritable hreads hvalid h hwrites =>
      exact .inl ⟨.inr ⟨_, hreads, .inr ⟨_, _, hvalid, h, hwrites⟩⟩, rfl⟩
    | unprinted h hprint => exact .inr ⟨hprint, h⟩
  · rintro (⟨hbreaks, rfl⟩ | ⟨hprint, hpreviews⟩)
    · rcases hbreaks with hbegins | ⟨text, hreads, ⟨failure, houtcome⟩ | ⟨doc, outcome, hvalid, houtcome, hnone⟩⟩
      · exact run_of_not_begins settings after hbegins
      · exact ⟨_, run_of_unrendered hreads houtcome⟩
      · exact run_of_unwritable hreads hvalid houtcome hnone
    · exact run_of_unprinted hpreviews hprint

/-- Arguments without an output describe the job that writes next to its input. -/
theorem ofArguments_eq_ok_iff {a : Arguments} (houtput : a.output.getD [] = []) :
    ofArguments a = .ok job ↔
      job.input = a.inputPath ∧ a.inputPath.withSuffix? outputSuffix = some job.output := by
  obtain ⟨input, output⟩ := job
  unfold ofArguments Arguments.inputPath
  generalize Path.ofText (a.input.getD defaultInput) = path
  rw [houtput]
  cases hsuffix : path.withSuffix? outputSuffix <;> simp [hsuffix, eq_comm]

/-- Arguments describe no job exactly if they name no output and an input without names. -/
theorem ofArguments_eq_error_iff {a : Arguments} :
    (∃ failure, ofArguments a = .error failure) ↔
      a.output.getD [] = [] ∧ a.inputPath.names = [] := by
  unfold ofArguments Arguments.inputPath
  generalize Path.ofText (a.input.getD defaultInput) = path
  have hnames : path.withSuffix? outputSuffix = none ↔ path.names = [] :=
    Path.withSuffix?_eq_none_iff
  rw [← hnames]
  cases houtput : a.output.getD [] with
  | nil => cases hsuffix : path.withSuffix? outputSuffix <;> simp [hsuffix]
  | cons g output => simp

end Job

/-! ### Runs -/

section Run

variable {settings : Settings} {words : List Text} {files after : Tree} {a : Arguments}

theorem run_of_noJob (h : Arguments.ofWords words = .ok a) {failure : Failure}
    (hjob : Job.ofArguments a = .error failure) : run settings words files = (.failed failure, files) := by
  rw [run, h]
  simp only [hjob]

theorem run_of_job (h : Arguments.ofWords words = .ok a) {job : Job}
    (hjob : Job.ofArguments a = .ok job) :
    run settings words files =
      (.ofResult (job.run settings files).1, (job.run settings files).2) := by
  rw [run, h]
  simp only [hjob]

theorem exits_run_iff (h : Arguments.ofWords words = .ok a) {code : Nat} :
    (run settings words files).1.exitCode? = some code ∧ (run settings words files).2 = after ↔
      ∃ job, Job.ofArguments a = .ok job ∧ job.Exits settings files code after := by
  simp only [← Job.exits_iff]
  cases hjob : Job.ofArguments a with
  | error failure =>
    rw [run_of_noJob h hjob]
    simp [Ending.exitCode?]
  | ok job =>
    rw [run_of_job h hjob]
    simp only [Except.ok.injEq, exists_eq_left']
    generalize job.run settings files = result
    obtain ⟨result, later⟩ := result
    cases result <;> simp [Ending.ofResult, Ending.exitCode?, and_comm]

theorem fails_run_iff (h : Arguments.ofWords words = .ok a) :
    (run settings words files).1.exitCode? = none ∧ (run settings words files).2 = after ↔
      (a.output.getD [] = [] ∧ a.inputPath.names = []) ∧ after = files ∨
        ∃ job, Job.ofArguments a = .ok job ∧ job.Fails settings files after := by
  simp only [← Job.ofArguments_eq_error_iff, ← Job.fails_iff]
  cases hjob : Job.ofArguments a with
  | error failure =>
    rw [run_of_noJob h hjob]
    simp [Ending.exitCode?, eq_comm]
  | ok job =>
    rw [run_of_job h hjob]
    simp only [Except.ok.injEq, exists_eq_left', reduceCtorEq, exists_false, false_and, false_or]
    generalize job.run settings files = result
    obtain ⟨result, later⟩ := result
    cases result <;> simp [Ending.ofResult, Ending.exitCode?]

/-- Only a run that writes a preview changes files. -/
theorem files_of_run (settings : Settings) (files : Tree) (h : Arguments.ofWords words = .ok a) :
    (run settings words files).2 = files ∨ ∃ job, Job.ofArguments a = .ok job ∧
      job.Previews settings files (run settings words files).2 ∧
      ((run settings words files).1.exitCode? = some 0 ∨ job.output.text.isPaired = false) := by
  cases hjob : Job.ofArguments a with
  | error failure => exact .inl (by rw [run_of_noJob h hjob])
  | ok job =>
    rw [run_of_job h hjob]
    have hends := job.ends settings files
    generalize job.run settings files = result at hends
    obtain ⟨result, later⟩ := result
    cases hends with
    | unprinted hpreviews hprint => exact .inr ⟨job, rfl, hpreviews, .inr hprint⟩
    | written hpreviews hprint conclusion => exact .inr ⟨job, rfl, hpreviews, .inl rfl⟩
    | _ => exact .inl rfl

end Run

/-- A run ends with code 0 exactly if the input is a file in UTF-8 with a valid document, its preview is written
and its last line can be printed, with 1 if the document is not valid, and with 2 if there is no such file.  It
fails, without a code, if the name of the output cannot be derived from that of the input, if a path cannot be
printed or given to the system, if a document cannot be rendered, or if the output cannot be written.  Unless
its code is 0, no file has changed, but for one case: the preview has been written, to a file whose path cannot
be printed. -/
theorem run_exitCode (settings : Settings) {words : List Text} {a : Arguments}
    (h : Arguments.ofWords words = .ok a) (files : Tree) :
    (∀ code after, (run settings words files).1.exitCode? = some code ∧
        (run settings words files).2 = after ↔
      ∃ job, Job.ofArguments a = .ok job ∧ job.Exits settings files code after) ∧
    (∀ after, (run settings words files).1.exitCode? = none ∧
        (run settings words files).2 = after ↔
      (a.output.getD [] = [] ∧ a.inputPath.names = []) ∧ after = files ∨
        ∃ job, Job.ofArguments a = .ok job ∧ job.Fails settings files after) ∧
    ((run settings words files).1.exitCode? ≠ some 0 → (run settings words files).2 ≠ files →
      (run settings words files).1.exitCode? = none ∧
        ∃ job, Job.ofArguments a = .ok job ∧ job.output.text.isPaired = false ∧
          job.Previews settings files (run settings words files).2) := by
  refine ⟨fun _ _ => exits_run_iff h, fun _ => fails_run_iff h, fun hcode hfiles => ?_⟩
  obtain hsame | ⟨job, hjob, hpreviews, hzero | hprint⟩ := files_of_run settings files h
  · exact absurd hsame hfiles
  · exact absurd hzero hcode
  · obtain ⟨hnone, -⟩ := (fails_run_iff h).mpr (.inr ⟨job, hjob, .inr ⟨hprint, hpreviews⟩⟩)
    exact ⟨hnone, job, hjob, hprint, hpreviews⟩

/-- An object without operations is not valid, and the name of a preview cannot be derived from a point. -/
theorem run_exitCode_sample :
    let files : Tree := ⟨[(Location.here [Utf8.encode ['d']], Utf8.encode "\x7b\x7d".toList)], []⟩
    Arguments.ofWords ["d"] = .ok ⟨some "d", none⟩ ∧ Arguments.ofWords ["."] = .ok ⟨some ".", none⟩ ∧
    (∃ job, Job.ofArguments ⟨some "d", none⟩ = .ok job ∧
      job.Exits Settings.default files 1 files) ∧
    (run Settings.default ["."] files).1.exitCode? = none ∧
    (run Settings.default ["."] files).2 = files := by
  intro files
  have hfile : Arguments.ofWords ["d"] = .ok ⟨some "d", none⟩ := rfl
  have hpoint : Arguments.ofWords ["."] = .ok ⟨some ".", none⟩ := rfl
  obtain ⟨hexits, -⟩ := run_exitCode Settings.default hfile files
  obtain ⟨-, hfails, -⟩ := run_exitCode Settings.default hpoint files
  have hrun : (run Settings.default ["d"] files).1.exitCode? = some 1 ∧
      (run Settings.default ["d"] files).2 = files := by decide +kernel
  exact ⟨hfile, hpoint, (hexits 1 files).mp hrun, (hfails files).mpr (.inl ⟨⟨rfl, rfl⟩, rfl⟩)⟩

end CommandLine

end DeltaPreview
