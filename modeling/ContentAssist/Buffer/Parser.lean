import ContentAssist.Fault
import ContentAssist.Json.Basic
import ContentAssist.OrderedMap
import ContentAssist.Record.Basic

/-! # Parsers

The library does not read the script language itself. A `Parser` stands for a tool that does: it
gives the syntax tree of a text, or its tokens, or rejects the text. `Parser.recorded` is a parser
that knows the answers for a fixed list of texts. -/

namespace ContentAssist

/-- Why a text is rejected, as far as the parser tells. -/
structure Rejection where
  message : String
  description : Option String := none
  index? : Option Int := none
  line? : Option Int := none
  column? : Option Int := none
  deriving DecidableEq, Repr

/-- The rejection as an error: the description counts more than the message, and what is not told is
zero, the offset negative. -/
def Rejection.toError (r : Rejection) : ParseError :=
  { message := (r.description.filter (· ≠ "")).getD r.message
    line := r.line?.getD 0
    column := r.column?.getD 0
    index := r.index?.getD (-1) }

/-- A token: its class, its text, where it stands, and in which line and column it ends. -/
structure Token where
  kind : String := ""
  text : String := ""
  span : Option Span := none
  endLine : Option Int := none
  endColumn : Option Int := none
  deriving DecidableEq, Repr

/-- Whether a token is the given punctuator. -/
def Token.isPunctuator (t : Token) (text : String) : Bool := t.kind = "Punctuator" && t.text = text

/-- A tool that reads the script language. -/
structure Parser where
  /-- The syntax tree of a text. -/
  script : String → Except Rejection Json
  /-- The tokens of a text. -/
  tokens : String → Except Rejection (List Token)

/-! ### Recorded answers -/

/-- The span that a pair of offsets stands for. -/
def Span.ofJson? : Json → Option Span
  | .arr [.int start, .int stop] => some ⟨start, stop⟩
  | _ => none

/-- A token that was written as an object. -/
def Token.ofJson (v : Json) : Token :=
  let finish := (v.get "loc").get "end"
  { kind := ((v.get "type").str?).getD ""
    text := ((v.get "value").str?).getD ""
    span := Span.ofJson? (v.get "range")
    endLine := (finish.get "line").int?
    endColumn := (finish.get "column").int? }

/-- A rejection that was written as an object. -/
def Rejection.ofJson (v : Json) : Rejection :=
  { message := ((v.get "message").str?).getD ""
    description := (v.get "description").str?
    index? := (v.get "index").int?
    line? := (v.get "lineNumber").int?
    column? := (v.get "column").int? }

/-- The first recorded answer for a text. -/
def recordedAnswer {α : Type} (what : String) (key : String) (read : Json → α) (entries : List Json)
    (text : String) : Except Rejection α :=
  match entries.find? fun e => (e.get "text").str? = some text with
  | none => .error { message := "no recording of " ++ what ++ " for this text" }
  | some e =>
    if (e.get "error").isNull then .ok (read (e.get key)) else .error (.ofJson (e.get "error"))

/-- The parser that answers from recordings: objects with the text and the tree, the tokens or the
error. -/
def Parser.recorded (scripts tokens : Json) : Parser :=
  { script := recordedAnswer "script" "ast" id scripts.items
    tokens := recordedAnswer "tokens" "tokens" (fun v => v.items.map Token.ofJson) tokens.items }

end ContentAssist
