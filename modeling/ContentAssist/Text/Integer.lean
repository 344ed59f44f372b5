import ContentAssist.Text.Blank
import ContentAssist.Text.DecimalDigit
import ContentAssist.Text.Quoted

/-! # Integers as texts

What is read as an integer has an optional sign and decimal digits of any script; single underscores
may separate digits, and blanks may surround it. Numerals with too many digits are neither read nor
written. -/

namespace ContentAssist.Text

/-- Why a text is not read as an integer. -/
inductive IntegerError where
  /-- The text is not the numeral of an integer. -/
  | notNumeral (text : String)
  /-- The numeral has more digits than are read. -/
  | tooLong (digits : Nat)
  deriving DecidableEq, Repr

/-- The most digits that are read or written. -/
def maxDigits : Nat := 4300

/-- The message of an error. The offending text is shown quoted, and no more than two hundred
characters of that. -/
def IntegerError.message : IntegerError → String
  | .notNumeral text =>
    "invalid literal for int() with base 10: " ++ String.ofList ((quoted text).toList.take 200)
  | .tooLong digits =>
    "Exceeds the limit (" ++ toString maxDigits ++ " digits) for integer string conversion: "
      ++ "value has " ++ toString digits
      ++ " digits; use sys.set_int_max_str_digits() to increase the limit"

/-- The digits of a numeral without sign; single underscores may stand between them. -/
def numeral : List Char → Option (List Nat)
  | [] => none
  | [c] => (digitValue? c).map fun d => [d]
  | c :: '_' :: rest => (digitValue? c).bind fun d => (numeral rest).map fun ds => d :: ds
  | c :: rest => (digitValue? c).bind fun d => (numeral rest).map fun ds => d :: ds

/-- The number with the given decimal digits. -/
def ofDigits (digits : List Nat) : Nat := digits.foldl (fun n d => 10 * n + d) 0

/-- Whether `c` may surround an integer: a blank, but none of the information separators. -/
def isPadding (c : Char) : Bool := isBlank c && !(28 ≤ c.toNat && c.toNat ≤ 31)

/-- The characters of `s` without the blanks that surround them. -/
def trimmed (s : List Char) : List Char :=
  ((s.dropWhile isPadding).reverse.dropWhile isPadding).reverse

/-- Splits the sign off a numeral: whether it is negative, and the rest. -/
def splitSign : List Char → Bool × List Char
  | '-' :: rest => (true, rest)
  | '+' :: rest => (false, rest)
  | rest => (false, rest)

/-- Reads an integer. -/
def integer (s : String) : Except IntegerError Int :=
  let (negative, body) := splitSign (trimmed s.toList)
  match numeral body with
  | none => .error (.notNumeral s)
  | some digits =>
    if digits.length > maxDigits then .error (.tooLong digits.length)
    else .ok (if negative then -(ofDigits digits : Int) else ofDigits digits)

/-- An integer in decimal digits, if these are not too many. -/
def decimal? (n : Int) : Option String :=
  if (Nat.toDigits 10 n.natAbs).length ≤ maxDigits then some (toString n) else none

end ContentAssist.Text
