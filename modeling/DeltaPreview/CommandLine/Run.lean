import DeltaPreview.CommandLine.Job

/-!
# Runs

A run of the program on the files of a `File.Tree`: the arguments give a job, the job is done, and
the files afterwards are those of before, or with one of them written.
-/

namespace DeltaPreview.CommandLine

open File

/-- How a run ends. -/
inductive Ending where
  /-- The arguments alone decide: there is help, or a complaint about them. -/
  | arguments (exitCode : Nat)
  | finished (report : Report)
  | failed (failure : Failure)
  deriving DecidableEq, Repr

/-- How a run ends whose arguments are refused. -/
def Refusal.ending : Refusal → Ending
  | help => .arguments 0
  | usage => .arguments 2

/-- Writes the output of a job. -/
def Job.write (job : Job) (files : Tree) (bytes : List UInt8) : Except Failure Tree := do
  checkPath job.output
  (files.write job.output bytes).mapError fun problem => .unwritable problem job.output

/-- What a job does before it writes anything. -/
def Job.prepare (settings : Settings) (job : Job) (files : Tree) : Except Failure Step := do
  checkLine job.announcement
  checkPath job.input
  job.next settings (files.read job.input)

/-- Does what remains to be done: what is reported, and the files afterwards.  If the last line cannot be
printed, the preview has been written all the same. -/
def Job.complete (job : Job) (files : Tree) : Step → Except Failure Report × Tree
  | .stop report => (.ok report, files)
  | .write bytes conclusion =>
    match job.write files bytes with
    | .error failure => (.error failure, files)
    | .ok after => ((checkLine conclusion).map fun _ => job.finished conclusion, after)

/-- Does a job: what it reports, and the files afterwards. -/
def Job.run (settings : Settings) (job : Job) (files : Tree) : Except Failure Report × Tree :=
  match job.prepare settings files with
  | .error failure => (.error failure, files)
  | .ok step => job.complete files step

/-- How a run ends that has done a job, or has found none to do. -/
def Ending.ofResult : Except Failure Report → Ending
  | .ok report => finished report
  | .error failure => failed failure

/-- Runs the program: how it ends, and the files afterwards. -/
def run (settings : Settings) (words : List Text) (files : Tree) : Ending × Tree :=
  match Arguments.ofWords words with
  | .error refusal => (refusal.ending, files)
  | .ok arguments =>
    match Job.ofArguments arguments with
    | .error failure => (.failed failure, files)
    | .ok job =>
      let (result, after) := job.run settings files
      (Ending.ofResult result, after)

end DeltaPreview.CommandLine
