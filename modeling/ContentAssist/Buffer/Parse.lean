import ContentAssist.Buffer.Closers
import ContentAssist.Buffer.Placeholder

/-! # Parsing a buffer

A buffer that is rejected is tried again with the missing closing brackets, and after that with a
placeholder behind a dangling dot. The positions of the tree always refer to the buffer itself. If
neither helps, the error is that of the first attempt. -/

namespace ContentAssist

/-- A remark about parsing. -/
def parsingRemark (text : String) : LogEntry := ⟨.debug, .parsing, text⟩

/-- The tokens of a text, as far as they help: none if the text is rejected. -/
def tokensOrNone (parser : Parser) (source : String) : List Token × List LogEntry :=
  match parser.tokens source with
  | .ok tokens => (tokens, [])
  | .error r => ([], [parsingRemark ("tokenizer stopped: " ++ r.message)])

/-- The attempt with closing brackets behind the text. -/
def tryClosers (parser : Parser) (source closers : String) : Option Json × List LogEntry :=
  if closers = "" then (none, [])
  else
    match parser.script (source ++ closers) with
    | .ok root => (some root, [parsingRemark ("recovered by appending '" ++ closers ++ "'")])
    | .error r => (none, [parsingRemark ("closing brackets did not help: " ++ r.message)])

/-- The tree of the text with a placeholder behind a dot, brought back to the text itself. -/
def unplugged (root : Json) (dot : Token) (offset : Int) : Json :=
  let removal : Removal := ⟨offset, placeholderLength, dot.endLine, dot.endColumn⟩
  removal.move ((unplug? offset root).getD root)

/-- The offset up to which the text is sound: that of the rejection, else the end. -/
def soundUpTo (source : String) (r : Rejection) : Int :=
  match r.index? with
  | some n => if n < 0 then source.length else n
  | none => source.length

/-- The attempt with a placeholder behind a dangling dot. -/
def tryPlaceholder (parser : Parser) (source closers : String) (tokens : List Token)
    (failure : Rejection) : Option Json × List LogEntry :=
  match danglingDot? tokens (soundUpTo source failure) with
  | none => (none, [])
  | some (dot, span) =>
    match parser.script (plugged source span.stop closers) with
    | .error r => (none, [parsingRemark ("placeholder property did not help: " ++ r.message)])
    | .ok root =>
      (some (unplugged root dot span.stop),
        [parsingRemark ("recovered dangling member access at offset " ++ toString span.stop)])

/-- Both attempts, one after the other. -/
def recover (parser : Parser) (source : String) (failure : Rejection) :
    Option Json × List LogEntry :=
  let (tokens, noTokens) := tokensOrNone parser source
  let closers := missingClosers tokens
  match tryClosers parser source closers with
  | (some root, log) => (some root, noTokens ++ log)
  | (none, log) =>
    let (root, log') := tryPlaceholder parser source closers tokens failure
    (root, noTokens ++ log ++ log')

/-- The tree of a buffer, with what is to be reported. -/
def parse (parser : Parser) (source : String) : Except ParseError Json × List LogEntry :=
  match parser.script source with
  | .ok root => (.ok root, [])
  | .error failure =>
    let start := parsingRemark ("parse failed: " ++ failure.message ++ "; attempting recovery")
    match recover parser source failure with
    | (some root, log) => (.ok root, start :: log)
    | (none, log) => (.error failure.toError, start :: log)

end ContentAssist
