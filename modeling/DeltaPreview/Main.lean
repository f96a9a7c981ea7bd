import DeltaPreview.CommandLine.Job
import DeltaPreview.Settings.Load

/-!
# The program

Renders a document in a file as a preview in another one, with the settings of `config.yaml` or of
the file that the environment names.
-/

namespace DeltaPreview

open CommandLine

/-- The environment variable that names the file of the settings. -/
def settingsVariable : String := "DELTA_VIEWER_CONFIG"

/-- The file of the settings where the environment names none. -/
def settingsFile : String := "config.yaml"

/-- What the system's report of a file says. -/
def problemOf : IO.Error → File.Problem
  | .noFileOrDirectory .. => .notFound
  | .inappropriateType _ code _ => if code = 21 then .isADirectory else .notADirectory
  | .invalidArgument .. => .nameTooLong
  | _ => .denied

/-- The bytes of a file. -/
def readFile (name : String) : IO (Except File.Problem (List UInt8)) := do
  try
    return .ok (← IO.FS.readBinFile name).toList
  catch e => return .error (problemOf e)

/-- Writes a file. -/
def writeFile (name : String) (bytes : List UInt8) : IO (Except File.Problem Unit) := do
  try
    return .ok (← IO.FS.writeBinFile name ⟨bytes.toArray⟩)
  catch e => return .error (problemOf e)

/-- The settings that hold for a run. -/
def loadSettings : IO Settings := do
  let name := ((← IO.getEnv settingsVariable).filter (!·.isEmpty)).getD settingsFile
  let text := match ← readFile name with
    | .ok bytes => (Utf8.decode bytes).toOption
    | .error _ => none
  match Settings.load text with
  | .ok loaded => return loaded.settings
  | .error fault => throw (IO.userError fault.message.toString)

/-- Prints a text. -/
def print (t : Text) : IO Unit := do (← IO.getStdout).putStr t.toString

/-- Stops with a failure. -/
def fail (failure : Failure) : IO UInt32 := do
  (← IO.getStderr).putStrLn failure.message.toString
  return 1

/-- Writes the preview of a job and prints the last line. -/
def Job.conclude (job : Job) (bytes : List UInt8) (conclusion : Text) : IO UInt32 := do
  match checkPath job.output with
  | .error failure => fail failure
  | .ok () =>
    match ← writeFile job.output.text.toString bytes with
    | .error problem => fail (.unwritable problem job.output)
    | .ok () =>
      match checkLine conclusion with
      | .error failure => fail failure
      | .ok () =>
        print conclusion
        return 0

/-- Does a job with the files of the computer. -/
def Job.perform (settings : Settings) (job : Job) : IO UInt32 := do
  match checkLine job.announcement with
  | .error failure => fail failure
  | .ok () =>
    print job.announcement
    match checkPath job.input with
    | .error failure => fail failure
    | .ok () =>
      match job.next settings (← readFile job.input.text.toString) with
      | .error failure => fail failure
      | .ok (.stop report) =>
        (← IO.getStderr).putStr report.errors.toString
        return report.exitCode.toUInt32
      | .ok (.write bytes conclusion) => Job.conclude job bytes conclusion

end DeltaPreview

open DeltaPreview CommandLine in
def main (words : List String) : IO UInt32 := do
  match Arguments.ofWords (words.map Text.ofString) with
  | .error .help =>
    IO.println "usage: [-h] [-o OUTPUT] [input]"
    return 0
  | .error .usage =>
    (← IO.getStderr).putStrLn "usage: [-h] [-o OUTPUT] [input]"
    return 2
  | .ok arguments =>
    match Job.ofArguments arguments with
    | .error failure => fail failure
    | .ok job => Job.perform (← loadSettings) job
