/-! # Faults and log entries

What can go wrong while a file is analysed, and what an analysis reports on its way. -/

namespace ContentAssist

/-- Why a buffer could not be parsed, and where. -/
structure ParseError where
  message : String
  line : Int
  column : Int
  /-- The offset of the error; negative if it is unknown. -/
  index : Int
  deriving DecidableEq, Repr

/-- Why an analysis has no answer. -/
inductive Fault where
  /-- The buffer cannot be parsed. -/
  | unparsable (error : ParseError)
  /-- The outermost scope was to be left. -/
  | outermostScope
  /-- The walk came to its end without a scope to answer. -/
  | unresolved
  /-- A type has no finite description. -/
  | endlessDescription
  deriving DecidableEq, Repr

/-- The message of a fault. -/
def Fault.message : Fault → String
  | unparsable error => error.message
  | outermostScope => "cannot pop the global scope"
  | unresolved => "inference walk ended without resolving a scope"
  | endlessDescription => "maximum recursion depth exceeded"

/-- How serious a log entry is. -/
inductive LogLevel where
  | debug
  | warning
  | error
  deriving DecidableEq, Repr

/-- The part of the program that a log entry comes from. -/
inductive LogChannel where
  | parsing
  | inference
  | assistance
  | indexing
  deriving DecidableEq, Repr

/-- The name under which a channel appears in a log. -/
def LogChannel.name : LogChannel → String
  | parsing => "jsassist.frontend.parse"
  | inference => "jsassist.frontend.inference"
  | assistance => "jsassist.assist"
  | indexing => "jsassist.indexer"

/-- An entry of the log. -/
structure LogEntry where
  level : LogLevel
  channel : LogChannel
  text : String
  deriving DecidableEq, Repr

/-- The line of an entry in a log that names channels. -/
def LogEntry.line (e : LogEntry) : String := e.channel.name ++ ": " ++ e.text

/-- Whether an entry is more than a remark for debugging. -/
def LogEntry.isSerious (e : LogEntry) : Bool := e.level ≠ .debug

end ContentAssist
