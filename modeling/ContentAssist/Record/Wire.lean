import ContentAssist.Json.Writer
import ContentAssist.Record.Basic
import ContentAssist.Text.Integer

/-! # Stored records and summaries

Definitions, records and summaries are stored as JSON. A record is an object of its members; the key
`$$proto` holds the type of its prototype. A member that bears this name, or one that begins with
the escape mark, is written behind the escape mark, so that the two never collide. -/

namespace ContentAssist

/-! ### Names of members -/

/-- The key of the prototype link in a stored record. -/
def protoField : String := "$$proto"

/-- What an escaped member name begins with. -/
def escapeMark : String := "$_$"

/-- The key under which a member is stored. -/
def escapeMember (name : String) : String :=
  if name = protoField ∨ Text.startsWith escapeMark name then escapeMark ++ name else name

/-- The member stored under a key. -/
def unescapeMember (key : String) : String :=
  if Text.startsWith escapeMark key then Text.dropFirst escapeMark.length key else key

/-! ### Errors -/

/-- Why stored data is refused. -/
inductive WireError where
  | definition (found : Json)
  | record (found : Json)
  | prototype (found : Json)
  | summary
  | summaryTypes
  /-- A text stands for an offset and is no integer. -/
  | offset (error : Text.IntegerError)
  /-- An offset is not a number. -/
  | offsetNotANumber
  /-- An offset is no number at all, not even as text. -/
  | offsetKind
  /-- An offset is infinite. -/
  | offsetInfinite
  deriving Repr

/-- Whether an error is one of malformed content, which callers report; the remaining ones end the
program. -/
def WireError.isReported : WireError → Bool
  | offsetKind | offsetInfinite => false
  | _ => true

/-- A message that shows what was found. If that cannot be shown, the message says why. -/
def shownFound (words : String) (found : Json) : String :=
  match found.display with
  | .ok text => words ++ ": " ++ text
  | .error e => e.message

/-- The message of an error. -/
def WireError.message : WireError → String
  | definition found => shownFound "malformed definition" found
  | record found => shownFound "malformed record" found
  | prototype found => shownFound "malformed prototype" found
  | summary => "malformed summary"
  | summaryTypes => "malformed summary types"
  | offset error => error.message
  | offsetNotANumber => "cannot convert float NaN to integer"
  | offsetKind => "int() argument must be a string, a bytes-like object or a real number"
  | offsetInfinite => "cannot convert float infinity to integer"

/-! ### Writing -/

/-- A span as a pair of offsets. -/
def Span.toJson (s : Span) : Json := .arr [.int s.start, .int s.stop]

/-- A definition as an object; what is missing is left out. -/
def Definition.toJson (d : Definition) : Json :=
  .obj ([("typeName", .str d.type.text)]
    ++ (d.span.map fun s => ("range", s.toJson)).toList
    ++ (d.path.map fun p => ("path", .str p)).toList)

/-- A record as an object: the prototype first, then the members that have a name. -/
def Record.toJson (r : Record) : Json :=
  .obj ((r.proto.map fun p => (protoField, .str p.type.text)).toList
    ++ r.members.entries.filterMap fun m => m.1.map fun name => (escapeMember name, m.2.toJson))

/-- A provided value: a type as text, or a record. -/
def Provided.toJson : Provided → Json
  | type t => .str t.text
  | record r => r.toJson

/-- A summary as an object. -/
def Summary.toJson (s : Summary) : Json :=
  .obj [("provided", s.provided.toJson),
    ("types", .obj (s.types.entries.map fun t => (t.1, t.2.toJson))),
    ("kind", .str s.kind.name)]

/-! ### Reading -/

/-- Reads an offset: a whole number, a number without its fraction, or the text of an integer. -/
def offsetOfJson : Json → Except WireError Int
  | .int n => .ok n
  | .bool b => .ok (if b then 1 else 0)
  | .float x =>
    if x.isNaN then .error .offsetNotANumber
    else if x.isInfinite then .error .offsetInfinite
    else .ok x.truncate
  | .str s => (Text.integer s).mapError .offset
  | _ => .error .offsetKind

/-- Reads the range of a definition. Anything but a pair counts as none. -/
def rangeOfJson : Json → Except WireError (Option Span)
  | .arr [a, b] => do
    let start ← offsetOfJson a
    let stop ← offsetOfJson b
    return some ⟨start, stop⟩
  | _ => .ok none

/-- Reads a definition: an object with a type name, or the text of a type alone. -/
def Definition.ofJson (v : Json) : Except WireError Definition :=
  match v with
  | .str s => .ok { type := .ofText s }
  | _ =>
    match v.get "typeName" with
    | .str s => do
      let span ← rangeOfJson (v.get "range")
      return { type := .ofText s, span := span, path := (v.get "path").str? }
    | _ => .error (.definition v)

/-- Reads one field of a stored record into the record. -/
def Record.readField (r : Record) (field : String × Json) : Except WireError Record :=
  if field.1 = protoField then
    match field.2 with
    | .str s => .ok { r with proto := some { type := .ofText s } }
    | v => .error (.prototype v)
  else do
    let d ← Definition.ofJson field.2
    return r.define (some (unescapeMember field.1)) d

/-- Reads the fields of a stored record one after the other. -/
def Record.readFields (r : Record) : List (String × Json) → Except WireError Record
  | [] => .ok r
  | f :: fs => do
    let r ← r.readField f
    r.readFields fs

/-- Reads a record. -/
def Record.ofJson : Json → Except WireError Record
  | .obj fields => Record.readFields {} fields
  | v => .error (.record v)

/-- Reads the records of a summary. -/
def readTypes (types : Table) : List (String × Json) → Except WireError Table
  | [] => .ok types
  | (name, v) :: rest => do
    let r ← Record.ofJson v
    readTypes (types.insert name r) rest

/-- Reads a summary. Missing records are no records, and a missing kind is that of a global script.
-/
def Summary.ofJson (v : Json) : Except WireError Summary :=
  match v.field? "provided" with
  | none => .error .summary
  | some raw => do
    let provided ←
      match raw with
      | .str s => .ok (.type (.ofText s))
      | other => (Record.ofJson other).map .record
    let rawTypes := v.get "types"
    let types ←
      if !rawTypes.isSet then .ok .empty
      else
        match rawTypes with
        | .obj fields => readTypes .empty fields
        | _ => .error .summaryTypes
    let kind := ((v.get "kind").str?.map SummaryKind.ofName).getD .global
    return { provided := provided, types := types, kind := kind }

end ContentAssist
