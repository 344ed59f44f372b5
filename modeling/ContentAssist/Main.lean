import ContentAssist.CommandLine.Run

/-! # The command line

The outer layer: it reads the files that the arguments name, runs, and writes what the run gives.
The answers of the parser come from the file that the environment variable
`CONTENT_ASSIST_RECORDINGS` names, a JSON object with the fields `scripts` and `tokens`. -/

namespace ContentAssist

/-- The contents of a file, if it can be opened. -/
def loadFile (path : String) : IO (String × Option ByteArray) := do
  try
    return (path, some (← IO.FS.readBinFile path))
  catch _ =>
    return (path, none)

/-- The files that a run reads. -/
def neededFiles (arguments : List String) : List String :=
  match Options.ofArguments arguments with
  | .ok o => o.input.toList ++ o.globals ++ o.modules.map (·.2)
  | .error _ => []

/-- All bytes of a stream. -/
def readAll (stream : IO.FS.Stream) : IO ByteArray := do
  let mut bytes := ByteArray.empty
  let mut more := true
  while more do
    let chunk ← stream.read 65536
    bytes := bytes ++ chunk
    more := !chunk.isEmpty
  return bytes

/-- The parser that answers from the recordings file. -/
def recordedParser : IO Parser := do
  match ← IO.getEnv "CONTENT_ASSIST_RECORDINGS" with
  | none => return .recorded .null .null
  | some path =>
    let text ← IO.FS.readFile path
    match Json.read text with
    | .ok v => return .recorded (v.get "scripts") (v.get "tokens")
    | .error e => throw (IO.userError (e.message text))

/-- Writes a file; tells whether that was possible. -/
def writeFile (path text : String) : IO Bool := do
  try
    IO.FS.writeFile path text
    return true
  catch _ =>
    return false

end ContentAssist

open ContentAssist in
/-- Runs the command line. -/
def main (arguments : List String) : IO UInt32 := do
  let files ← (neededFiles arguments).mapM loadFile
  let needsInput :=
    match Options.ofArguments arguments with
    | .ok o => o.input.isNone
    | .error _ => false
  let input ← if needsInput then readAll (← IO.getStdin) else pure ByteArray.empty
  let world (writable : Bool) : World :=
    { file? := fun path => (files.find? fun f => f.1 = path).bind (·.2)
      canWrite := fun _ => writable
      input := input }
  let parser ← recordedParser
  let run := (world true).run parser arguments
  let done ←
    match run.written with
    | none => pure run
    | some (path, text) =>
      if ← writeFile path text then pure run else pure ((world false).run parser arguments)
  (← IO.getStdout).putStr done.output
  (← IO.getStderr).putStr done.complaints
  return done.status.toUInt32
