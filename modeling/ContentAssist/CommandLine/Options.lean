import ContentAssist.Text.Integer
import ContentAssist.Text.Search

/-! # Command-line options

The arguments of the command line are read from left to right. A flag with a value takes the
argument behind it, whatever that is; of a repeated flag with a single value the last one counts.
The first mistake ends the reading. -/

namespace ContentAssist

/-- What is asked for. -/
inductive Mode where
  | proposals
  | hover
  | definition
  | summary
  | verify
  deriving DecidableEq, Repr

/-- The name of a mode. -/
def Mode.name : Mode → String
  | proposals => "proposals"
  | hover => "hover"
  | definition => "definition"
  | summary => "summary"
  | verify => "verify"

/-- The mode with the given name. -/
def Mode.ofName? (name : String) : Option Mode :=
  [proposals, hover, definition, summary, verify].find? fun m => m.name = name

/-- The settings of one run. -/
structure Options where
  mode : Mode := .proposals
  offset : Option Int := none
  typed : Option String := none
  name : Option String := none
  globals : List String := []
  modules : List (String × String) := []
  verbose : Bool := false
  input : Option String := none
  output : Option String := none
  deriving DecidableEq, Repr

/-- Why the arguments do not give options. -/
inductive OptionsError where
  /-- No mistake: the help text is asked for. -/
  | help
  | missingValue (flag : String)
  | notInteger (value : String)
  | notModule (value : String)
  | unknownFlag (flag : String)
  | extraArgument (argument : String)
  | unknownMode (name : String)
  deriving DecidableEq, Repr

/-- The help text. -/
def usage : String := "jsassist [OPTIONS] [INPUT] [-o OUTPUT]

Options:
  --mode MODE         Request: proposals, hover, definition, summary, verify
                      (default: proposals)
  --offset N          Cursor offset (default: end of input)
  --prefix TEXT       Completion prefix (default: identifier text before offset)
  --name NAME         File identifier for summaries (default: INPUT or \"local\")
  --global FILE       Add FILE as a global dependency (repeatable)
  --module NAME=FILE  Make FILE resolvable as module NAME (repeatable);
                      a FILE ending in .json is read as a stored summary
  --verbose           Debug logging to stderr
  -o, --output FILE   Write output to FILE instead of stdout
  --help              Show this help message
"

namespace OptionsError

/-- The status with which the program ends. -/
def status : OptionsError → Nat
  | help => 0
  | _ => 2

/-- What goes to the standard output. -/
def output : OptionsError → String
  | help => usage
  | _ => ""

/-- The line about the mistake. -/
def message : OptionsError → String
  | help => ""
  | missingValue flag => "error: " ++ flag ++ " requires an argument"
  | notInteger value => "error: --offset expects an integer, got '" ++ value ++ "'"
  | notModule value => "error: --module expects NAME=FILE, got '" ++ value ++ "'"
  | unknownFlag flag => "error: unknown flag '" ++ flag ++ "'"
  | extraArgument argument => "error: unexpected argument '" ++ argument ++ "'"
  | unknownMode name => "error: unknown mode '" ++ name ++ "'"

/-- What goes to the standard error. -/
def complaint : OptionsError → String
  | help => ""
  | e => e.message ++ "\n"

end OptionsError

/-- Options whose mode was not looked at yet: its name is checked only after all arguments. -/
structure RawOptions where
  modeName : String := Mode.proposals.name
  rest : Options := {}

/-- The flags that take a value. -/
inductive ValueFlag where
  | mode
  | offset
  | typed
  | name
  | global
  | module
  | output
  deriving DecidableEq, Repr

/-- The flag that an argument is, if it takes a value. -/
def ValueFlag.ofArgument? (argument : String) : Option ValueFlag :=
  if argument = "--mode" then some mode
  else if argument = "--offset" then some offset
  else if argument = "--prefix" then some typed
  else if argument = "--name" then some name
  else if argument = "--global" then some global
  else if argument = "--module" then some module
  else if argument = "-o" ∨ argument = "--output" then some output
  else none

/-- Splits the value of a module flag into the name and the file, neither of them empty. -/
def splitModule? (value : String) : Option (String × String) :=
  (Text.splitFirst '=' value.toList).bind fun r =>
    if r.1.isEmpty ∨ r.2.isEmpty then none else some (String.ofList r.1, String.ofList r.2)

/-- Takes the value of a flag over. -/
def RawOptions.set (o : RawOptions) (flag : ValueFlag) (value : String) :
    Except OptionsError RawOptions :=
  match flag with
  | .mode => .ok { o with modeName := value }
  | .offset =>
    match Text.integer value with
    | .ok n => .ok { o with rest := { o.rest with offset := some n } }
    | .error _ => .error (.notInteger value)
  | .typed => .ok { o with rest := { o.rest with typed := some value } }
  | .name => .ok { o with rest := { o.rest with name := some value } }
  | .global => .ok { o with rest := { o.rest with globals := o.rest.globals ++ [value] } }
  | .module =>
    match splitModule? value with
    | some m => .ok { o with rest := { o.rest with modules := o.rest.modules ++ [m] } }
    | none => .error (.notModule value)
  | .output => .ok { o with rest := { o.rest with output := some value } }

/-- Takes an argument over that is no flag with a value. -/
def RawOptions.setPlain (o : RawOptions) (argument : String) : Except OptionsError RawOptions :=
  if argument = "--help" ∨ argument = "-h" then .error .help
  else if argument = "--verbose" then .ok { o with rest := { o.rest with verbose := true } }
  else if Text.startsWith "-" argument then .error (.unknownFlag argument)
  else if o.rest.input.isSome then .error (.extraArgument argument)
  else .ok { o with rest := { o.rest with input := some argument } }

/-- Reads arguments one after the other. -/
def RawOptions.read (o : RawOptions) : List String → Except OptionsError RawOptions
  | [] => .ok o
  | argument :: rest =>
    match ValueFlag.ofArgument? argument, rest with
    | none, rest =>
      match o.setPlain argument with
      | .ok o => o.read rest
      | .error e => .error e
    | some _, [] => .error (.missingValue argument)
    | some flag, value :: rest =>
      match o.set flag value with
      | .ok o => o.read rest
      | .error e => .error e

/-- The options that the arguments stand for. -/
def Options.ofArguments (arguments : List String) : Except OptionsError Options :=
  match RawOptions.read {} arguments with
  | .error e => .error e
  | .ok o =>
    match Mode.ofName? o.modeName with
    | some mode => .ok { o.rest with mode := mode }
    | none => .error (.unknownMode o.modeName)

end ContentAssist
