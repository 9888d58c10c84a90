import Trajectory.Cli

namespace Trajectory

namespace Main

/-- The number that the operating system gives to an error with a path. It comes with either
sign. -/
def codeOf? : IO.Error → Option UInt32
  | .noFileOrDirectory _ code _ => some code
  | .inappropriateType _ code _ => some code
  | .invalidArgument _ code _ => some code
  | _ => none

def faultOf (e : IO.Error) : FileFault :=
  match (codeOf? e).map fun code => min code (-code) with
  | some 2 => .notFound
  | some 6 => .noDevice
  | some 20 => .notDirectory
  | some 21 => .isDirectory
  | some 28 => .noSpace
  | some 36 => .nameTooLong
  | _ => .other (toString e)

/-- The text of a file, or why it cannot be read. -/
def readSource (path : String) : IO (Except FileFault String) := do
  try
    let content ← IO.FS.readBinFile path
    match String.fromUTF8? content with
    | some s => pure (.ok s)
    | none => pure (.error .invalidText)
  catch e =>
    pure (.error (faultOf e))

def readSource? : List String → IO (Option (String × Except FileFault String))
  | [] => pure none
  | path :: _ => do
    let content ← readSource path
    pure (some (path, content))

/-- Writes a file, or tells why it cannot be written. -/
def writeFile (l : Location) (content : ByteArray) : IO (Option FileFault) := do
  try
    IO.FS.writeBinFile l.path content
    pure none
  catch e =>
    pure (some (faultOf e))

end Main

end Trajectory

open Trajectory in
def main (args : List String) : IO UInt32 := do
  let source? ← Main.readSource? args
  let working ← IO.currentDir
  let outcome := Cli.run source? { working := Directory.ofText working.toString }
  let faults ← outcome.files.files.filterMapM fun file => Main.writeFile file.1 file.2
  for line in outcome.output do
    IO.println line
  for line in outcome.complaints ++ faults.map (fun fault => s!"error: {fault.message}") do
    IO.eprintln line
  pure (if outcome.succeeded && faults.isEmpty then 0 else 1)
