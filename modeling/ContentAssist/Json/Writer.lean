import ContentAssist.Json.Basic
import ContentAssist.Decimal.Shortest
import ContentAssist.Text.Integer
import ContentAssist.Text.Quoted
import ContentAssist.Text.Search

/-! # Writing JSON

`Json.render` writes a value as JSON text: with indent zero on one line without blanks, otherwise
one item or field a line, each level indented by that many blanks more. `Json.display` writes a
value the way messages show it. An integer with too many digits is written by neither, and the
blanks in front of a line must be a number of them that fits a machine word. -/

namespace ContentAssist.Json

/-- Why a value is not written. -/
inductive WriteError where
  /-- An integer has more digits than are written. -/
  | longInteger
  /-- The number of blanks in front of a line fits no machine word. -/
  | wideIndent
  deriving DecidableEq, Repr

/-- The message of an error. -/
def WriteError.message : WriteError → String
  | longInteger =>
    "Exceeds the limit (" ++ toString Text.maxDigits ++ " digits) for integer string conversion; "
      ++ "use sys.set_int_max_str_digits() to increase the limit"
  | wideIndent => "cannot fit 'int' into an index-sized integer"

/-- The digits of an integer. -/
def integerChars (n : Int) : Except WriteError (List Char) :=
  match Text.decimal? n with
  | some text => .ok text.toList
  | none => .error .longInteger

/-- One character inside a JSON string. -/
def escapeChar (c : Char) : List Char :=
  if c = '\\' then ['\\', '\\']
  else if c = '"' then ['\\', '"']
  else if c = '\n' then ['\\', 'n']
  else if c = '\r' then ['\\', 'r']
  else if c = '\t' then ['\\', 't']
  else if c.toNat < 32 then '\\' :: 'u' :: Text.hexDigits 4 c.toNat
  else [c]

/-- A text as a JSON string. -/
def stringChars (s : String) : List Char := '"' :: s.toList.flatMap escapeChar ++ ['"']

/-- One more than the largest number of a machine word of 64 bits. -/
def wordBound : Int := 0x8000000000000000

/-- Whether a number of blanks fits a machine word. -/
def FitsWord (n : Int) : Prop := -wordBound ≤ n ∧ n < wordBound

instance : DecidablePred FitsWord := fun n =>
  inferInstanceAs (Decidable (-wordBound ≤ n ∧ n < wordBound))

/-- So many blanks; none for a negative number. -/
def padding (n : Int) : Except WriteError (List Char) :=
  if FitsWord n then .ok (List.replicate n.toNat ' ') else .error .wideIndent

/-- Parts between an opening and a closing bracket, at nesting depth `level`. -/
def enclose (opener closer : Char) (indent : Int) (level : Nat) (parts : List (List Char)) :
    Except WriteError (List Char) :=
  if parts.isEmpty then .ok [opener, closer]
  else if indent = 0 then .ok (opener :: Text.join [','] parts ++ [closer])
  else do
    let pad ← padding (indent * (level + 1))
    let padClose ← padding (indent * level)
    return opener :: '\n' :: Text.join [',', '\n'] (parts.map fun p => pad ++ p)
      ++ '\n' :: padClose ++ [closer]

/-- What separates a field's name from its value. -/
def fieldSeparator (indent : Int) : List Char := if indent = 0 then [':'] else [':', ' ']

mutual

/-- The text of a value at nesting depth `level`. -/
def chars (indent : Int) (level : Nat) : Json → Except WriteError (List Char)
  | null => .ok ['n', 'u', 'l', 'l']
  | bool true => .ok ['t', 'r', 'u', 'e']
  | bool false => .ok ['f', 'a', 'l', 's', 'e']
  | int n => integerChars n
  | float x => .ok x.text.toList
  | str s => .ok (stringChars s)
  | arr xs => do
    let parts ← itemChars indent (level + 1) xs
    enclose '[' ']' indent level parts
  | obj fs => do
    let parts ← fieldChars indent (level + 1) fs
    enclose '\x7b' '\x7d' indent level parts

/-- The texts of the items of an array. -/
def itemChars (indent : Int) (level : Nat) : List Json → Except WriteError (List (List Char))
  | [] => .ok []
  | x :: xs => do
    let text ← chars indent level x
    let texts ← itemChars indent level xs
    return text :: texts

/-- The texts of the fields of an object. -/
def fieldChars (indent : Int) (level : Nat) :
    List (String × Json) → Except WriteError (List (List Char))
  | [] => .ok []
  | (k, v) :: fs => do
    let text ← chars indent level v
    let texts ← fieldChars indent level fs
    return (stringChars k ++ fieldSeparator indent ++ text) :: texts

end

/-- A value as JSON text. -/
def render (v : Json) (indent : Int) : Except WriteError String :=
  (chars indent 0 v).map String.ofList

/-- A value as JSON text on one line. -/
def compact (v : Json) : Except WriteError String := v.render 0

/-- The indent of the answers of the command line. -/
def answerIndent : Int := 2

mutual

/-- The characters of a value as messages show it. -/
def displayChars : Json → Except WriteError (List Char)
  | null => .ok ['N', 'o', 'n', 'e']
  | bool true => .ok ['T', 'r', 'u', 'e']
  | bool false => .ok ['F', 'a', 'l', 's', 'e']
  | int n => integerChars n
  | float x => .ok x.text.toList
  | str s => .ok (Text.quoted s).toList
  | arr xs => do
    let parts ← displayItems xs
    return '[' :: Text.join [',', ' '] parts ++ [']']
  | obj fs => do
    let parts ← displayFields fs
    return '\x7b' :: Text.join [',', ' '] parts ++ ['\x7d']

/-- The items of an array as messages show them. -/
def displayItems : List Json → Except WriteError (List (List Char))
  | [] => .ok []
  | x :: xs => do
    let text ← displayChars x
    let texts ← displayItems xs
    return text :: texts

/-- The fields of an object as messages show them. -/
def displayFields : List (String × Json) → Except WriteError (List (List Char))
  | [] => .ok []
  | (k, v) :: fs => do
    let text ← displayChars v
    let texts ← displayFields fs
    return ((Text.quoted k).toList ++ [':', ' '] ++ text) :: texts

end

/-- A value as messages show it. -/
def display (v : Json) : Except WriteError String := v.displayChars.map String.ofList

end ContentAssist.Json
