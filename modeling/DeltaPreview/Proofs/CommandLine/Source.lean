import DeltaPreview.Proofs.CommandLine.Ending

/-!
# The input of a run

A run without an explicit output writes one file, next to its input and named after it.  The input is
another file, and keeps its bytes, unless its own name has the suffix of previews already
(`run_source`).
-/

namespace DeltaPreview.CommandLine

open File

variable {files : Tree} {input output : Path} {source target : Location}

theorem isPaired_outputSuffix : Job.outputSuffix.isPaired = true := rfl

/-- Only a path that ends in the suffix of previews already keeps its last name. -/
theorem endsIn_output_iff {before : List Text} {last : Text} (h : input.names = before ++ [last]) :
    input.EndsIn Job.outputSuffix ↔ Path.replaceSuffix Job.outputSuffix last = last := by
  have hsuffix : Job.outputSuffix = Path.point :: Text.ofString "html" := rfl
  have hext : Text.ofString "html" ≠ [] := by decide
  rw [hsuffix, Path.replaceSuffix_eq_self_iff hext (by decide)]
  constructor
  · rintro ⟨before', stem, hstem, hnames⟩
    obtain ⟨-, hlast⟩ := List.append_inj' (h.symm.trans hnames) rfl
    exact ⟨stem, hstem, List.singleton_inj.mp hlast⟩
  · rintro ⟨stem, hstem, rfl⟩
    exact ⟨before, stem, hstem, h⟩

/-- The input of a job and the output next to it are the same file exactly if the name of the input has
the suffix already.  The names stand for the same bytes only if they are the same, for the input can be
printed. -/
theorem target_eq_source_iff (houtput : input.withSuffix? Job.outputSuffix = some output)
    (hprint : input.text.isPaired = true)
    (hsource : files.resolve input = .ok source) (hsourceFile : files.isDirectory source = false)
    (htarget : files.resolve output = .ok target) (htargetFile : files.isDirectory target = false) :
    (target = source ↔ input.EndsIn Job.outputSuffix) ∧ target.isBelow source = false := by
  obtain ⟨root, names⟩ := input
  obtain ⟨before, last, rfl, rfl⟩ := Path.withSuffix?_eq_some_iff.mp houtput
  -- Both files are in one directory, so only the bytes of their names can differ.
  obtain ⟨hsame, hbelow⟩ := Tree.siblings hsource hsourceFile htarget htargetFile
  have hlast : last.isPaired = true :=
    (Path.isPaired_text.mp hprint).2 last (List.mem_append_right _ (List.mem_singleton_self _))
  rw [textBytes_inj (Path.isPaired_replaceSuffix isPaired_outputSuffix hlast) hlast] at hsame
  exact ⟨hsame.trans (endsIn_output_iff rfl).symm, hbelow⟩

section Run

variable {settings : Settings} {words : List Text} {a : Arguments}

/-- What a run without an explicit output has done when it ends with code 0. -/
theorem exists_preview (h : Arguments.ofWords words = .ok a) (houtput : a.output.getD [] = [])
    (hcode : (run settings words files).1.exitCode? = some 0) :
    ∃ output target text outcome, a.inputPath.withSuffix? Job.outputSuffix = some output ∧
      Job.Reads ⟨a.inputPath, output⟩ files text ∧
      Outcome.ofText settings settings.renderer text = .ok outcome ∧
      Job.Writes ⟨a.inputPath, output⟩ files target ∧
      (run settings words files).2 = files.put target (Utf8.encode outcome.html) := by
  obtain ⟨⟨input, output⟩, hjob, -, text, doc, outcome, target, hreads, -, houtcome, hwrites, hafter⟩ :=
    (exits_run_iff h).mp ⟨hcode, rfl⟩
  obtain ⟨rfl, hsuffix⟩ := (Job.ofArguments_eq_ok_iff houtput).mp hjob
  exact ⟨output, target, text, outcome, hsuffix, hreads, houtcome, hwrites, hafter⟩

/-- A run without an explicit output changes files only if it ends with code 0: the last line can be
printed if the first one can. -/
theorem files_of_noOutput (h : Arguments.ofWords words = .ok a) (houtput : a.output.getD [] = [])
    (hcode : (run settings words files).1.exitCode? ≠ some 0) :
    (run settings words files).2 = files := by
  obtain hsame | ⟨⟨input, output⟩, hjob, hpreviews, hzero | hprint⟩ :=
    files_of_run settings files h
  · exact hsame
  · exact absurd hzero hcode
  · obtain ⟨rfl, hsuffix⟩ := (Job.ofArguments_eq_ok_iff houtput).mp hjob
    obtain ⟨text, -, -, -, hreads, -⟩ := hpreviews
    -- The input has been announced, and the output is named after it.
    have hpaired : output.text.isPaired = true :=
      Path.isPaired_withSuffix? hsuffix isPaired_outputSuffix hreads.begins.printable
    rw [hpaired] at hprint
    cases hprint

/-- The input of a job is a file, and the output of the job is not below it. -/
theorem exists_source {text : Text} (houtput : input.withSuffix? Job.outputSuffix = some output)
    (hreads : Job.Reads ⟨input, output⟩ files text) (hwrites : Job.Writes ⟨input, output⟩ files target) :
    ∃ source bytes, files.resolve input = .ok source ∧ files.read input = .ok bytes ∧
      (target = source ↔ input.EndsIn Job.outputSuffix) ∧ target.isBelow source = false := by
  obtain ⟨chars, hread, -⟩ := hreads.bytes
  obtain ⟨source, hsource, hfile, -⟩ := Tree.read_eq_ok_iff.mp hread
  exact ⟨source, _, hsource, hread, target_eq_source_iff houtput hreads.begins.printable hsource hfile
    hwrites.resolve hwrites.isFile⟩

end Run

/-- A run without an explicit output that ends with code 0 has written one file: the one to which the
path of the input leads with the suffix of previews, and which now holds the preview of the input's text.
It is the input itself only if the name of the input has the suffix already; otherwise, and after every
other ending, the input reads as before. -/
theorem run_source (settings : Settings) {words : List Text} {a : Arguments}
    (h : Arguments.ofWords words = .ok a) (houtput : a.output.getD [] = []) (files : Tree) :
    (((run settings words files).1.exitCode? = some 0 → ¬ a.inputPath.EndsIn Job.outputSuffix) →
      (run settings words files).2.read a.inputPath = files.read a.inputPath) ∧
    ((run settings words files).1.exitCode? = some 0 →
      ∃ output target text outcome, a.inputPath.withSuffix? Job.outputSuffix = some output ∧
        files.resolve output = .ok target ∧
        (files.resolve a.inputPath = .ok target ↔ a.inputPath.EndsIn Job.outputSuffix) ∧
        Job.Reads ⟨a.inputPath, output⟩ files text ∧
        Outcome.ofText settings settings.renderer text = .ok outcome ∧
        (run settings words files).2.read output = .ok (Utf8.encode outcome.html) ∧
        ∀ l ≠ target, (run settings words files).2.bytes? l = files.bytes? l) := by
  refine ⟨fun hname => ?_, fun hcode => ?_⟩
  · by_cases hcode : (run settings words files).1.exitCode? = some 0
    · obtain ⟨output, target, text, outcome, hsuffix, hreads, -, hwrites, hafter⟩ :=
        exists_preview h houtput hcode
      obtain ⟨source, bytes, hsource, hread, hsame, hbelow⟩ := exists_source hsuffix hreads hwrites
      have hne : source ≠ target := fun e => hname hcode (hsame.mp e.symm)
      rw [hafter, hread]
      exact Tree.read_put_of_ne hread hsource hne hbelow
    · rw [files_of_noOutput h houtput hcode]
  · obtain ⟨output, target, text, outcome, hsuffix, hreads, houtcome, hwrites, hafter⟩ :=
      exists_preview h houtput hcode
    obtain ⟨source, -, hsource, -, hsame, -⟩ := exists_source hsuffix hreads hwrites
    have hinput : files.resolve a.inputPath = .ok target ↔ a.inputPath.EndsIn Job.outputSuffix := by
      rw [hsource, Except.ok.injEq, eq_comm, hsame]
    rw [hafter]
    exact ⟨output, target, text, outcome, hsuffix, hwrites.resolve, hinput, hreads, houtcome,
      Tree.read_put_self hwrites.resolve hwrites.isFile, fun l hl => Tree.lookup_insert_of_ne hl _ _⟩

/-- A document keeps its bytes if its name is not one of a preview; otherwise it is replaced. -/
theorem run_source_sample :
    let document := Utf8.encode "\x7b\"ops\":[]\x7d".toList
    let json : Name := Utf8.encode "d.json".toList
    let html : Name := Utf8.encode "d.html".toList
    let files : Tree := ⟨[(Location.here [json], document), (Location.here [html], document)], []⟩
    Arguments.ofWords ["d.json"] = .ok ⟨some "d.json", none⟩ ∧
    (run Settings.default ["d.json"] files).1.exitCode? = some 0 ∧
    (run Settings.default ["d.json"] files).2.read (Path.ofText "d.json") = .ok document ∧
    (run Settings.default ["d.html"] files).2.bytes? (Location.here [html]) ≠ some document := by
  intro document json html files
  have hwords : Arguments.ofWords ["d.json"] = .ok ⟨some "d.json", none⟩ := rfl
  refine ⟨hwords, by decide +kernel, ?_, by decide +kernel⟩
  obtain ⟨hsource, -⟩ := run_source Settings.default hwords rfl files
  have hname : ¬ (Path.ofText "d.json").EndsIn Job.outputSuffix := by
    have hnames : (Path.ofText "d.json").names = [] ++ [Text.ofString "d.json"] := by decide
    rw [endsIn_output_iff hnames]
    decide
  exact (hsource fun _ => hname).trans rfl

end DeltaPreview.CommandLine
