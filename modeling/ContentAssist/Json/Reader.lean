import ContentAssist.Json.Basic
import ContentAssist.Text.Integer

/-! # Reading JSON

`Json.read` reads a JSON text. It accepts the standard grammar and, as many writers produce them,
the words `NaN`, `Infinity` and `-Infinity`. Of two fields with one name the later value counts, in
the place of the earlier one. A refusal says what was expected and where. -/

namespace ContentAssist.Json

/-- What is wrong at a place of a text that is not JSON. -/
inductive ReadCause where
  | value
  | fieldName
  | colon
  | comma
  | extraText
  | openString
  | controlCharacter
  | escape
  | unicodeEscape
  | byteOrderMark
  deriving DecidableEq, Repr

/-- Why a text is not read. -/
inductive ReadError where
  /-- The text is not JSON from the given character on. -/
  | refused (cause : ReadCause) (position : Nat)
  /-- A whole number cannot be read. -/
  | integer (error : Text.IntegerError)
  deriving DecidableEq, Repr

/-- The words for a cause. -/
def ReadCause.message : ReadCause → String
  | value => "Expecting value"
  | fieldName => "Expecting property name enclosed in double quotes"
  | colon => "Expecting ':' delimiter"
  | comma => "Expecting ',' delimiter"
  | extraText => "Extra data"
  | openString => "Unterminated string starting at"
  | controlCharacter => "Invalid control character at"
  | escape => "Invalid \\escape"
  | unicodeEscape => "Invalid \\uXXXX escape"
  | byteOrderMark => "Unexpected UTF-8 BOM (decode using utf-8-sig)"

/-- The line of a position, counted from one. -/
def lineAt (text : List Char) (position : Nat) : Nat := (text.take position).count '\n' + 1

/-- The column of a position, counted from one. -/
def columnAt (text : List Char) (position : Nat) : Nat :=
  ((text.take position).reverse.takeWhile (· ≠ '\n')).length + 1

/-- The message about an error in `text`. -/
def ReadError.message (text : String) : ReadError → String
  | refused cause position =>
    cause.message ++ ": line " ++ toString (lineAt text.toList position) ++ " column "
      ++ toString (columnAt text.toList position) ++ " (char " ++ toString position ++ ")"
  | integer error => error.message

/-- What is left to read: the position reached and the characters from there on. -/
structure Rest where
  position : Nat
  chars : List Char

/-- The rest after `n` more characters. -/
def Rest.skip (r : Rest) (n : Nat) : Rest := ⟨r.position + n, r.chars.drop n⟩

/-- The refusal of the rest for the given cause. -/
def Rest.refuse {α : Type} (r : Rest) (cause : ReadCause) : Except ReadError α :=
  .error (.refused cause r.position)

/-- Whether `c` may stand between the parts of a JSON text. -/
def isSpace (c : Char) : Bool := c = ' ' || c = '\t' || c = '\n' || c = '\r'

/-- Skips the blanks at the front. -/
def skipSpaces (position : Nat) : List Char → Rest
  | [] => ⟨position, []⟩
  | c :: chars => if isSpace c then skipSpaces (position + 1) chars else ⟨position, c :: chars⟩

/-- The rest after the blanks at its front. -/
def Rest.unspaced (r : Rest) : Rest := skipSpaces r.position r.chars

/-! ### Strings -/

/-- The value of a hexadecimal digit. -/
def hexValue? (c : Char) : Option Nat :=
  if '0' ≤ c ∧ c ≤ '9' then some (c.toNat - 48)
  else if 'a' ≤ c ∧ c ≤ 'f' then some (c.toNat - 87)
  else if 'A' ≤ c ∧ c ≤ 'F' then some (c.toNat - 55)
  else none

/-- The value of four hexadecimal digits. -/
def unit? (a b c d : Char) : Option Nat := do
  let a ← hexValue? a
  let b ← hexValue? b
  let c ← hexValue? c
  let d ← hexValue? d
  return ((a * 16 + b) * 16 + c) * 16 + d

/-- What a backslash followed by `c` stands for. -/
def escaped? (c : Char) : Option Char :=
  if c = '"' ∨ c = '\\' ∨ c = '/' then some c
  else if c = 'b' then some '\x08'
  else if c = 'f' then some '\x0c'
  else if c = 'n' then some '\n'
  else if c = 'r' then some '\r'
  else if c = 't' then some '\t'
  else none

/-- The code units of a string up to its closing quote, and what follows that. -/
def stringUnits (opening : Nat) : Nat → List Char → Except ReadError (List Nat × Rest)
  | _, [] => .error (.refused .openString opening)
  | position, '"' :: chars => .ok ([], ⟨position + 1, chars⟩)
  | position, '\\' :: 'u' :: a :: b :: c :: d :: chars =>
    match unit? a b c d, chars with
    | some n, _ :: _ =>
      (stringUnits opening (position + 6) chars).map fun r => (n :: r.1, r.2)
    | _, _ => .error (.refused .unicodeEscape (position + 1))
  | position, '\\' :: 'u' :: _ => .error (.refused .unicodeEscape (position + 1))
  | _, ['\\'] => .error (.refused .openString opening)
  | position, '\\' :: c :: chars =>
    match escaped? c with
    | some e => (stringUnits opening (position + 2) chars).map fun r => (e.toNat :: r.1, r.2)
    | none => .error (.refused .escape position)
  | position, c :: chars =>
    if c.toNat < 32 then .error (.refused .controlCharacter position)
    else (stringUnits opening (position + 1) chars).map fun r => (c.toNat :: r.1, r.2)

/-- The characters of code units. A high and a low surrogate in a row stand for one character; a
surrogate on its own becomes the replacement character. -/
def joinUnits : List Nat → List Char
  | [] => []
  | [n] => [if 0xD800 ≤ n ∧ n < 0xE000 then '\ufffd' else Char.ofNat n]
  | n :: m :: rest =>
    if 0xD800 ≤ n ∧ n < 0xDC00 ∧ 0xDC00 ≤ m ∧ m < 0xE000 then
      Char.ofNat (0x10000 + (n - 0xD800) * 0x400 + (m - 0xDC00)) :: joinUnits rest
    else (if 0xD800 ≤ n ∧ n < 0xE000 then '\ufffd' else Char.ofNat n) :: joinUnits (m :: rest)

/-- The string whose opening quote was just read. -/
def readString (r : Rest) : Except ReadError (String × Rest) :=
  (stringUnits (r.position - 1) r.position r.chars).map fun u =>
    (String.ofList (joinUnits u.1), u.2)

/-! ### Numbers -/

/-- The digits at the front and what follows them. -/
def spanDigits (chars : List Char) : List Char × List Char := chars.span Char.isDigit

/-- The digits of the whole part: a zero alone, or digits that start with no zero. -/
def wholeDigits : List Char → List Char × List Char
  | '0' :: chars => (['0'], chars)
  | chars => spanDigits chars

/-- The digits behind a point. A point without a digit behind it is not part of the number. -/
def fractionDigits : List Char → List Char × List Char
  | '.' :: chars =>
    match spanDigits chars with
    | ([], _) => ([], '.' :: chars)
    | (digits, rest) => (digits, rest)
  | chars => ([], chars)

/-- The exponent at the front. One without digits is not part of the number. -/
def exponentPart (chars : List Char) : Option Int × List Char :=
  match chars with
  | c :: rest =>
    if c = 'e' ∨ c = 'E' then
      let (negative, body) := Text.splitSign rest
      match spanDigits body with
      | ([], _) => (none, chars)
      | (digits, after) =>
        let n : Int := Text.ofDigits (digits.map fun d => d.toNat - 48)
        (some (if negative then -n else n), after)
    else (none, chars)
  | [] => (none, [])

/-- Whether a whole number of so many digits is beyond the limit, if there is one. -/
def exceeds (limit : Option Nat) (digits : Nat) : Bool := limit.any fun most => most < digits

/-- The number at the front. -/
def readNumber (limit : Option Nat) (r : Rest) : Except ReadError (Json × Rest) :=
  let (negative, body) : Bool × List Char :=
    match r.chars with
    | '-' :: chars => (true, chars)
    | chars => (false, chars)
  let (whole, afterWhole) := wholeDigits body
  let (fraction, afterFraction) := fractionDigits afterWhole
  let (exponent, after) := exponentPart afterFraction
  let rest : Rest := ⟨r.position + (r.chars.length - after.length), after⟩
  let value (digits : List Char) : Nat := Text.ofDigits (digits.map fun d => d.toNat - 48)
  if whole.isEmpty then r.refuse .value
  else if fraction.isEmpty ∧ exponent.isNone then
    if exceeds limit whole.length then .error (.integer (.tooLong whole.length))
    else .ok (int (if negative then -(value whole : Int) else value whole), rest)
  else
    let scale := exponent.getD 0 - fraction.length
    .ok (float (Binary64.ofDecimal negative (value (whole ++ fraction)) scale), rest)

/-! ### Values -/

/-- The fields in the order of their first mention, each with its last value. -/
def mergeFields (fs : List (String × Json)) : List (String × Json) :=
  fs.foldl (fun acc f => setIn f.1 f.2 acc) []

/-- The words that stand for a value. -/
def constants : List (String × Json) :=
  [("null", null), ("true", bool true), ("false", bool false), ("NaN", float .notANumber),
    ("Infinity", float (.infinity false)), ("-Infinity", float (.infinity true))]

/-- The word at the front that stands for a value. -/
def readConstant? (r : Rest) : Option (Json × Rest) :=
  (constants.find? fun c => c.1.toList.isPrefixOf r.chars).map fun c => (c.2, r.skip c.1.length)

mutual

/-- The value at the front; `fuel` bounds the number of nested steps. -/
def readValue (limit : Option Nat) : Nat → Rest → Except ReadError (Json × Rest)
  | 0, r => r.refuse .value
  | fuel + 1, r =>
    match r.chars with
    | '"' :: _ => (readString (r.skip 1)).map fun s => (str s.1, s.2)
    | '\x7b' :: _ =>
      let inner := (r.skip 1).unspaced
      match inner.chars with
      | '\x7d' :: _ => .ok (obj [], inner.skip 1)
      | _ => (readFields limit fuel inner).map fun f => (obj (mergeFields f.1), f.2)
    | '[' :: _ =>
      let inner := (r.skip 1).unspaced
      match inner.chars with
      | ']' :: _ => .ok (arr [], inner.skip 1)
      | _ => (readItems limit fuel inner).map fun i => (arr i.1, i.2)
    | _ =>
      match readConstant? r with
      | some c => .ok c
      | none => readNumber limit r

/-- The items of an array up to its closing bracket. -/
def readItems (limit : Option Nat) : Nat → Rest → Except ReadError (List Json × Rest)
  | 0, r => r.refuse .value
  | fuel + 1, r =>
    match readValue limit fuel r with
    | .error e => .error e
    | .ok (v, after) =>
      let next := after.unspaced
      match next.chars with
      | ']' :: _ => .ok ([v], next.skip 1)
      | ',' :: _ => (readItems limit fuel (next.skip 1).unspaced).map fun i => (v :: i.1, i.2)
      | _ => next.refuse .comma

/-- The fields of an object up to its closing brace. -/
def readFields (limit : Option Nat) : Nat → Rest → Except ReadError (List (String × Json) × Rest)
  | 0, r => r.refuse .value
  | fuel + 1, r =>
    match r.chars with
    | '"' :: _ =>
      match readString (r.skip 1) with
      | .error e => .error e
      | .ok (name, afterName) =>
        let colon := afterName.unspaced
        match colon.chars with
        | ':' :: _ =>
          match readValue limit fuel (colon.skip 1).unspaced with
          | .error e => .error e
          | .ok (v, afterValue) =>
            let next := afterValue.unspaced
            match next.chars with
            | '\x7d' :: _ => .ok ([(name, v)], next.skip 1)
            | ',' :: _ =>
              (readFields limit fuel (next.skip 1).unspaced).map fun f => ((name, v) :: f.1, f.2)
            | _ => next.refuse .comma
        | _ => colon.refuse .colon
    | _ => r.refuse .fieldName

end

/-- Reads a whole text as one JSON value. Whole numbers may be limited to so many digits. -/
def readWith (limit : Option Nat) (text : String) : Except ReadError Json :=
  let chars := text.toList
  match chars with
  | '\ufeff' :: _ => .error (.refused .byteOrderMark 0)
  | _ =>
    match readValue limit (2 * chars.length + 2) (skipSpaces 0 chars) with
    | .error e => .error e
    | .ok (v, after) =>
      let rest := after.unspaced
      if rest.chars.isEmpty then .ok v else rest.refuse .extraText

/-- Reads a whole text as one JSON value; integers are limited as elsewhere. -/
def read (text : String) : Except ReadError Json := readWith (some Text.maxDigits) text

end ContentAssist.Json
