import ContentAssist.Buffer.Parser
import ContentAssist.Text.Search

/-! # Missing closing brackets

A buffer in the middle of an edit often lacks closing brackets. The missing ones are those of the
brackets that are still open at its end, innermost first. A closing bracket that does not fit the
innermost open one is passed over. -/

namespace ContentAssist

/-- The closing bracket for an opening one. -/
def closerFor? (opener : String) : Option String :=
  if opener = "\x7b" then some "\x7d"
  else if opener = "(" then some ")"
  else if opener = "[" then some "]"
  else none

/-- One token more: `pending` holds the closing brackets still to come, innermost first. -/
def closeStep (pending : List String) (t : Token) : List String :=
  if t.kind ≠ "Punctuator" then pending
  else
    match closerFor? t.text, pending with
    | some closer, _ => closer :: pending
    | none, closer :: rest => if t.text = closer then rest else pending
    | none, [] => []

/-- The closing brackets still to come after the tokens, innermost first. -/
def pendingClosers (tokens : List Token) : List String := tokens.foldl closeStep []

/-- The closing brackets that balance the tokens. -/
def missingClosers (tokens : List Token) : String := String.join (pendingClosers tokens)

end ContentAssist
