import DeltaPreview.CommandLine.Arguments
import DeltaPreview.File.Tree
import DeltaPreview.Preview.Outcome
import DeltaPreview.Text.Line
import DeltaPreview.Text.Utf8

/-!
# Rendering a file

A job reads a document from one file and writes its preview to another.  What it does is split at
the two places where it touches files, so that it is the same for the files of a `File.Tree` and for
those of a computer.

It prints a line before it reads and another one when all is done.  Both name a path, and what is
printed is encoded as UTF-8, which has nothing for a surrogate that stands alone.
-/

namespace DeltaPreview.CommandLine

open File

/-- A file to read and a file to write. -/
structure Job where
  input : Path
  output : Path
  deriving DecidableEq, Repr

/-- What a job ends with if nobody handles it. -/
inductive Failure where
  /-- The input has no name from which that of the output could be made. -/
  | emptyName (path : Path)
  /-- A line or a path cannot be encoded. -/
  | unencodable (refusal : Text.Refusal)
  /-- A path contains the character that ends paths. -/
  | nullByte
  | unwritable (problem : Problem) (path : Path)
  | unrendered (failure : RenderFailure)
  deriving DecidableEq, Repr

/-- What is reported of a failure. -/
def Failure.message : Failure → Text
  | emptyName path =>
    Text.ofString "PosixPath(" ++ Json.displayQuoted path.text ++ Text.ofString ") has an empty name"
  | unencodable refusal => refusal.message
  | nullByte => Text.ofString "embedded null byte"
  | unwritable problem path => problem.message path
  | unrendered (.unrenderable reason) => reason.message
  | unrendered (.misfit _) => Text.ofString "the document does not fit"

/-- What a run reports: its exit code and what it prints. -/
structure Report where
  exitCode : Nat
  output : Text
  errors : Text
  deriving DecidableEq, Repr

/-- Why the bytes of the input cannot be had. -/
inductive Unreadable where
  | file (problem : Problem)
  | bytes (fault : Utf8.Fault)
  deriving DecidableEq, Repr

/-- What is reported of an input that cannot be read. -/
def Unreadable.message (path : Path) : Unreadable → Text
  | file problem => problem.message path
  | bytes fault => Text.ofString fault.message

/-- What remains to be done once the input is read: to stop, or to write the preview and to print a
line about it. -/
inductive Step where
  | stop (report : Report)
  | write (bytes : List UInt8) (conclusion : Text)
  deriving DecidableEq, Repr

/-- A line that can be printed. -/
def checkLine (line : Text) : Except Failure Unit :=
  match line.firstSurrogates with
  | some (before, run) => .error (.unencodable (.surrogates before run))
  | none => .ok ()

/-- A path that may be given to the system. -/
def checkPath (path : Path) : Except Failure Unit :=
  match firstUnencodable path.text with
  | some (before, run) => .error (.unencodable (.surrogates before run))
  | none => if path.text.contains (.char '\x00') then .error .nullByte else .ok ()

namespace Job

/-- The input where the arguments name none. -/
def defaultInput : Text := Text.ofString "data/document_delta.json"

/-- The suffix of the output where the arguments name none. -/
def outputSuffix : Text := Text.ofString ".html"

/-- The job that arguments describe.  An output with an empty name counts as none. -/
def ofArguments (a : Arguments) : Except Failure Job :=
  let input := Path.ofText (a.input.getD defaultInput)
  match a.output.getD [] with
  | [] => match input.withSuffix? outputSuffix with
    | some output => .ok ⟨input, output⟩
    | none => .error (.emptyName input)
  | output => .ok ⟨input, Path.ofText output⟩

/-- The line that announces a job. -/
def announcement (job : Job) : Text :=
  Text.ofString "📄 Reading Delta from '" ++ job.input.text ++ Text.ofString "'...\n"

/-- The line that a successful job ends with. -/
def conclusion (job : Job) (summary : Summary) : Text :=
  Text.ofString ("🎉 " ++ summary.countText ++ " rendered to '") ++ job.output.text ++
    Text.ofString "'.\n"

/-- The report of a job that is done. -/
def finished (job : Job) (conclusion : Text) : Report := ⟨0, job.announcement ++ conclusion, []⟩

/-- The report of a job that stops with an error. -/
def stopped (job : Job) (exitCode : Nat) (error : Text) : Report :=
  ⟨exitCode, job.announcement, Text.ofString "Error: " ++ error ++ Text.ofString "\n"⟩

/-- The report of a job whose input cannot be read. -/
def unreadable (job : Job) (u : Unreadable) : Report :=
  job.stopped 2 (Text.ofString "cannot read the input file -> " ++ u.message job.input)

/-- The text of an input, given what reading it yields. -/
def inputText (bytes : Except Problem (List UInt8)) : Except Unreadable Text :=
  match bytes with
  | .error problem => .error (.file problem)
  | .ok bytes => match Utf8.decode bytes with
    | .error fault => .error (.bytes fault)
    | .ok chars => .ok (Text.ofChars (normalizeLines chars))

/-- What remains to be done for a document: to write its preview. -/
def render (settings : Settings) (job : Job) (text : Text) : Except Failure Step := do
  let outcome ← (Outcome.ofText settings settings.renderer text).mapError .unrendered
  return match outcome.error with
    | some invalid => .stop (job.stopped 1 (Text.ofString invalid.message))
    | none => .write (Utf8.encode outcome.html) (job.conclusion outcome.summary)

/-- What remains to be done, given what reading the input yields. -/
def next (settings : Settings) (job : Job) (bytes : Except Problem (List UInt8)) :
    Except Failure Step :=
  match inputText bytes with
  | .error u => .ok (.stop (job.unreadable u))
  | .ok text => job.render settings text

end Job

end DeltaPreview.CommandLine
