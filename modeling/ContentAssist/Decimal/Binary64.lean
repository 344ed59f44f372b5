/-! # Binary floating-point numbers

A number of the 64-bit binary format, given by its bits: a sign, eleven bits of exponent and 52 bits
of fraction. A finite magnitude is `mantissa * 2 ^ exponent`; `ofDecimal` rounds a decimal to the
nearest such number, and a tie to the even mantissa. -/

namespace ContentAssist

/-- A number of the 64-bit binary floating-point format. -/
structure Binary64 where
  /-- Whether the sign bit is set. -/
  negative : Bool
  /-- The remaining 63 bits. -/
  magnitude : Nat
  deriving DecidableEq, Repr

namespace Binary64

/-- A power of two. -/
def pow2 (n : Nat) : Nat := Nat.pow 2 n

/-- A power of ten. -/
def pow10 (n : Nat) : Nat := Nat.pow 10 n

/-- The magnitude of infinity; greater ones are not numbers. -/
def infinite : Nat := 2047 * pow2 52

/-- Infinity with the given sign. -/
def infinity (negative : Bool) : Binary64 := ⟨negative, infinite⟩

/-- The quiet value that is not a number. -/
def notANumber : Binary64 := ⟨false, infinite + pow2 51⟩

/-- Whether the value is not a number. -/
def isNaN (x : Binary64) : Bool := infinite < x.magnitude

/-- Whether the value is infinite. -/
def isInfinite (x : Binary64) : Bool := x.magnitude == infinite

/-- Whether the value is a zero, of either sign. -/
def isZero (x : Binary64) : Bool := x.magnitude == 0

/-- The mantissa of a finite value. -/
def mantissa (x : Binary64) : Nat :=
  if x.magnitude < pow2 52 then x.magnitude else x.magnitude % pow2 52 + pow2 52

/-- The exponent of two that belongs to `mantissa`. -/
def exponent (x : Binary64) : Int :=
  if x.magnitude < pow2 52 then -1074 else (x.magnitude / pow2 52 : Nat) - 1075

/-- The integer nearest to a finite value on the side of zero. -/
def truncate (x : Binary64) : Int :=
  let n : Nat :=
    if 0 ≤ x.exponent then x.mantissa * pow2 x.exponent.toNat
    else x.mantissa / pow2 (-x.exponent).toNat
  if x.negative then -n else n

/-- The quotient `num / den` rounded to the nearest integer, a tie to the even one. -/
def roundEven (num den : Nat) : Nat :=
  let q := num / den
  let r := 2 * (num % den)
  if r < den then q else if den < r then q + 1 else q + q % 2

/-- The magnitude nearest to the positive quotient `num / den`. -/
def nearest (num den : Nat) : Nat :=
  let guess : Int := (Nat.log2 num : Int) - Nat.log2 den - 52
  let scaled (e : Int) : Nat × Nat :=
    if 0 ≤ e then (num, den * pow2 e.toNat) else (num * pow2 (-e).toNat, den)
  let low := scaled guess
  let fitting := if low.1 < low.2 * pow2 52 then guess - 1 else guess
  let e := max fitting (-1074)
  let (n, d) := scaled e
  min infinite (roundEven n d + (e + 1074).toNat * pow2 52)

/-- The number nearest to `± digits * 10 ^ exponent`. Beyond the range of the format the result is
zero or infinite. -/
def ofDecimal (negative : Bool) (digits : Nat) (exponent : Int) : Binary64 :=
  let places : Int := (Nat.toDigits 10 digits).length + exponent
  if digits = 0 ∨ places < -330 then ⟨negative, 0⟩
  else if 310 < places then infinity negative
  else if 0 ≤ exponent then ⟨negative, nearest (digits * pow10 exponent.toNat) 1⟩
  else ⟨negative, nearest digits (pow10 (-exponent).toNat)⟩

end Binary64

end ContentAssist
