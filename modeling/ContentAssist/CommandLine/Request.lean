import ContentAssist.CommandLine.Options
import ContentAssist.Dependencies
import ContentAssist.SourceIndex
import ContentAssist.Text.Alphanumeric

/-! # Requests of the command line

One run answers one request about one source. The output is JSON text. -/

namespace ContentAssist

open Inference

/-- Whether a character belongs to an identifier. -/
def isIdentifierChar (c : Char) : Bool := Text.isAlphanumeric c || c = '_' || c = '$'

/-- The identifier characters right in front of an offset. -/
def typedBefore (source : String) (offset : Int) : String :=
  String.ofList
    (((source.toList.take offset.toNat).reverse.takeWhile isIdentifierChar).reverse)

/-- How a request ends. -/
inductive RequestEnd where
  /-- With an answer. -/
  | answered (output : String)
  /-- The offset is not one of the source. -/
  | outside (offset : Int)
  /-- The source cannot be parsed. -/
  | unparsable (error : ParseError)
  /-- Without an answer, for a reason that is not the user's. -/
  | broken (fault : Fault)
  /-- Without an output, because it cannot be written. -/
  | unwritable (error : Json.WriteError)

namespace RequestEnd

/-- The status with which the program ends. -/
def status : RequestEnd → Nat
  | answered _ => 0
  | outside _ => 2
  | unparsable _ => 1
  | broken _ => 1
  | unwritable _ => 1

/-- What goes to the output. -/
def output : RequestEnd → String
  | answered text => text
  | _ => ""

/-- What goes to the standard error. -/
def complaint : RequestEnd → String
  | outside offset => "error: offset " ++ toString offset ++ " is outside the input\n"
  | unparsable e =>
    "error:" ++ toString e.line ++ ":" ++ toString e.column ++ ": " ++ e.message ++ "\n"
  | _ => ""

/-- The end of a request with the given answer. -/
def ofAnswer {α : Type} (toJson : α → Json) : Except Fault α → RequestEnd
  | .ok a =>
    match (toJson a).render Json.answerIndent with
    | .ok output => answered output
    | .error e => unwritable e
  | .error (.unparsable e) => unparsable e
  | .error fault => broken fault

/-- The end of a request with an offset that is not one of the source. The complaint shows it. -/
def ofOutside (offset : Int) : RequestEnd :=
  match Text.decimal? offset with
  | some _ => outside offset
  | none => unwritable .longInteger

end RequestEnd

/-- The name under which the source of a request is analysed for its summary. -/
def Options.fileName (o : Options) : String :=
  (([o.name, o.input].findSome? fun n => n.filter (· ≠ ""))).getD localName

/-- Answers the request for which the options ask, if the cursor is at `offset`. -/
def requestAt (a : Assistant) (knows : String → Bool) (o : Options) (source : String)
    (offset : Int) : RequestEnd × List Event :=
  match o.mode with
  | .proposals =>
    let (r, events) := a.proposals source offset (o.typed.getD (typedBefore source offset))
    (.ofAnswer (fun ps => .arr (ps.map (·.toJson))) r, events)
  | .hover =>
    let (r, events) := a.hover source offset
    (.ofAnswer (fun h => .obj [("hover", .ofOption .str h)]) r, events)
  | .definition =>
    let (r, events) := a.definition source offset
    (.ofAnswer (.ofOption Binding.toJson) r, events)
  | .summary =>
    let (r, events) := a.summary source o.fileName
    (.ofAnswer Summary.toJson r, events)
  | .verify =>
    let (r, log) := checkSource a.parser knows source
    (.ofAnswer (fun ds => .arr (ds.map (·.toJson))) r, loggedAll log)

/-- Answers the request for which the options ask. Without an offset the cursor is at the end. -/
def request (a : Assistant) (knows : String → Bool) (o : Options) (source : String) :
    RequestEnd × List Event :=
  let offset := o.offset.getD source.length
  if offset < 0 ∨ (source.length : Int) < offset then (.ofOutside offset, [])
  else requestAt a knows o source offset

end ContentAssist
