import ContentAssist.Text.Search

/-! # Types

A type is a name (of a record, or of a builtin such as `Number`) or a function type with a result
and parameter names. As text a function type is `?result:param,param`; the result ends at the last
colon.

Records are found by name. A constructor function's record has the text of its function type without
parameters as its name, and the record of its prototype object has that name followed by `~proto`.
-/

namespace ContentAssist

/-- A type: the name of a record or builtin, or a function type. -/
inductive Ty where
  | named (name : String)
  | function (result : Ty) (params : List String)
  deriving DecidableEq, Repr

namespace Ty

instance : Inhabited Ty := ⟨named "Object"⟩

def object : Ty := named "Object"
def global : Ty := named "Global"
def number : Ty := named "Number"
def string : Ty := named "String"
def boolean : Ty := named "Boolean"
def array : Ty := named "Array"
def regExp : Ty := named "RegExp"
def error : Ty := named "Error"
def arguments : Ty := named "Arguments"

/-- What ends the name of the record of a prototype object. -/
def protoSuffix : String := "~proto"

/-- What the names of generated records begin with. -/
def generatedMark : String := "gen~"

/-! ### Text -/

/-- The characters of the text of a type. -/
def chars : Ty → List Char
  | named name => name.toList
  | function result params =>
    '?' :: result.chars ++ ':' :: Text.join [','] (params.map String.toList)

/-- The text of a type. -/
def text (t : Ty) : String := String.ofList t.chars

/-- The parameter names in a list of them; the empty text holds none. -/
def readParams (s : List Char) : List String :=
  if s.isEmpty then [] else (Text.pieces ',' s).map String.ofList

/-- The type with `levels` levels of function around the text `body`. Each level takes its
parameters from behind the last colon that is left; without one it has none. -/
def unnest : Nat → List Char → Ty
  | 0, body => named (String.ofList body)
  | levels + 1, body =>
    match Text.splitLast ':' body with
    | none => function (unnest levels body) []
    | some (before, after) => function (unnest levels before) (readParams after)

/-- Reads a type. A text with `~proto` in it is a name as it stands. -/
def ofChars (s : List Char) : Ty :=
  if Text.occurs protoSuffix.toList s then named (String.ofList s)
  else unnest (s.takeWhile (· = '?')).length (s.dropWhile (· = '?'))

/-- Reads a type. -/
def ofText (s : String) : Ty := ofChars s.toList

/-! ### Parts -/

/-- Whether the type is a function type. -/
def isFunction : Ty → Bool
  | function _ _ => true
  | named _ => false

/-- The result of a function type; any other type stands for itself. -/
def result : Ty → Ty
  | function r _ => r
  | t => t

/-- The type with its result replaced; a type that is no function becomes the result. -/
def withResult (t r : Ty) : Ty :=
  match t with
  | function _ params => function r params
  | named _ => r

/-- The name that is left when all function levels are stripped. -/
def leaf : Ty → String
  | named name => name
  | function r _ => r.leaf

/-- The name of the record of the constructor function with the given result. -/
def constructorKey (result : Ty) : String := (function result []).text

/-- The name of the record for the prototype object that belongs to the record `key`. -/
def protoKey (key : String) : String := key ++ protoSuffix

/-- The table name that a type stands for: its own name, or that of its constructor record. -/
def key : Ty → String
  | named name => name
  | function r _ => constructorKey r

/-- Whether a name is that of a generated record. -/
def isGenerated (name : String) : Bool := Text.startsWith generatedMark name

/-- The name of the `count`-th record generated for the file `uid`. -/
def generatedName (uid : String) (count : Nat) : String :=
  generatedMark ++ uid ++ "~" ++ toString count

end Ty

end ContentAssist
