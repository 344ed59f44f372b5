import ContentAssist.CommandLine.Request
import ContentAssist.Json.Reader

/-! # A run of the command line

A run reads the source and the files of its dependencies, answers one request, and writes the
output. What it sees of the world is a `World`: the contents of files and the standard input; what
it does is a `Run`: the exit status and the texts written. -/

namespace ContentAssist

/-- What a run sees of the world. -/
structure World where
  /-- The contents of a file, if it can be opened. -/
  file? : String → Option ByteArray
  /-- Whether a file can be written. -/
  canWrite : String → Bool
  input : ByteArray

/-- What a run does. -/
structure Run where
  status : Nat
  output : String := ""
  complaints : String := ""
  /-- The file that is written, with its new contents. -/
  written : Option (String × String) := none

/-- Why a run ends before its request. -/
inductive InputError where
  | cannotOpen (path : String)
  | notText
  | badSummary (path reason : String)
  /-- A stored summary is beyond what is reported. -/
  | broken
  deriving DecidableEq, Repr

/-- What goes to the standard error. -/
def InputError.complaint : InputError → String
  | cannotOpen path => "error: cannot open '" ++ path ++ "'\n"
  | notText => "error: invalid utf-8 in input\n"
  | badSummary path reason => "error: bad summary '" ++ path ++ "': " ++ reason ++ "\n"
  | broken => ""

/-- The text that bytes stand for. -/
def decodeText (bytes : ByteArray) : Except InputError String :=
  match String.fromUTF8? bytes with
  | some text => .ok text
  | none => .error .notText

/-- The text of a file. -/
def World.readFile (w : World) (path : String) : Except InputError String :=
  match w.file? path with
  | none => .error (.cannotOpen path)
  | some bytes => decodeText bytes

/-- The source of the request: the input file, else the standard input. -/
def World.readSource (w : World) : Option String → Except InputError String
  | some path => w.readFile path
  | none => decodeText w.input

/-- The stored summary in the text of a file. -/
def readSummary (path text : String) : Except InputError Summary :=
  match Json.read text with
  | .error e => .error (.badSummary path (e.message text))
  | .ok v =>
    match Summary.ofJson v with
    | .ok s => .ok s
    | .error e => .error (if e.isReported then .badSummary path e.message else .broken)

/-- Whether a file holds a stored summary. -/
def isSummaryFile (path : String) : Bool := ".json".toList.isSuffixOf path.toList

/-- Adds the global files to an index. -/
def World.addGlobals (w : World) (ix : SourceIndex) : List String → Except InputError SourceIndex
  | [] => .ok ix
  | path :: rest => do
    let source ← w.readFile path
    w.addGlobals (ix.addGlobal path source) rest

/-- Adds the modules to an index, as sources or as stored summaries. -/
def World.addModules (w : World) (ix : SourceIndex) :
    List (String × String) → Except InputError SourceIndex
  | [] => .ok ix
  | (name, path) :: rest => do
    let source ← w.readFile path
    if isSummaryFile path then
      let s ← readSummary path source
      w.addModules (ix.addSummary name s) rest
    else w.addModules (ix.addModule name source) rest

/-- The index over the dependencies that the options name. -/
def World.buildIndex (w : World) (o : Options) : Except InputError SourceIndex := do
  let ix ← w.addGlobals {} o.globals
  w.addModules ix o.modules

/-- The log as it goes to the standard error: everything with the names of the channels, or only
what is serious without them. -/
def logText (verbose : Bool) (entries : List LogEntry) : String :=
  let shown :=
    if verbose then entries.map (·.line) else (entries.filter (·.isSerious)).map (·.text)
  String.join (shown.map (· ++ "\n"))

/-- Writes the output to the file that the options name, else to the standard output. -/
def World.write (w : World) (o : Options) (output complaints : String) : Run :=
  match o.output with
  | none => { status := 0, output := output ++ "\n", complaints := complaints }
  | some path =>
    if w.canWrite path then
      { status := 0, complaints := complaints, written := some (path, output ++ "\n") }
    else
      { status := 1, complaints := complaints ++ "error: cannot write '" ++ path ++ "'\n" }

/-- Answers the request of the options about a source. -/
def World.runRequest (w : World) (parser : Parser) (o : Options) (source : String)
    (ix : SourceIndex) : Run :=
  let (ending, events) := request ⟨parser, some (ix.view parser)⟩ ix.knows o source
  let complaints := logText o.verbose (ix.settle parser events).1 ++ ending.complaint
  if ending.status = 0 then w.write o ending.output complaints
  else { status := ending.status, complaints := complaints }

/-- Reads source and index, and answers the request. -/
def World.runOptions (w : World) (parser : Parser) (o : Options) : Run :=
  let inputs := do
    let source ← w.readSource o.input
    let ix ← w.buildIndex o
    return (source, ix)
  match inputs with
  | .error e => { status := 1, complaints := e.complaint }
  | .ok (source, ix) => w.runRequest parser o source ix

/-- A whole run. -/
def World.run (w : World) (parser : Parser) (arguments : List String) : Run :=
  match Options.ofArguments arguments with
  | .error e => { status := e.status, output := e.output, complaints := e.complaint }
  | .ok o => w.runOptions parser o

end ContentAssist
