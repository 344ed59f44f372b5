import ContentAssist.Decimal.Binary64

/-! # Shortest decimals

The text of a floating-point number has the fewest decimal digits that read back as the number; of
two candidates of that length the nearer one is taken. `Layout` says how the digits are written. -/

namespace ContentAssist.Binary64

/-- The reals that round to a number, scaled to naturals over one denominator. -/
structure Rounding where
  /-- Four times the mantissa, scaled. -/
  value : Nat
  /-- The lower end. -/
  low : Nat
  /-- The upper end. -/
  high : Nat
  /-- The common denominator. -/
  denominator : Nat
  /-- Whether the ends themselves round to the number. -/
  closed : Bool

/-- The rounding interval of a finite number other than zero. Below a power of two the gap is half
as wide. -/
def rounding (x : Binary64) : Rounding :=
  let m := x.mantissa
  let q := x.exponent - 2
  let scale := pow2 q.toNat
  let gap := if m = pow2 52 ∧ -1074 < x.exponent then 1 else 2
  { value := 4 * m * scale
    low := (4 * m - gap) * scale
    high := (4 * m + 2) * scale
    denominator := pow2 (-q).toNat
    closed := m % 2 = 0 }

/-- Whether `n * 10 ^ p` reads back. -/
def Rounding.holds (r : Rounding) (n : Nat) (p : Int) : Bool :=
  let c := n * pow10 p.toNat * r.denominator
  let unit := pow10 (-p).toNat
  if r.closed then r.low * unit ≤ c && c ≤ r.high * unit else r.low * unit < c && c < r.high * unit

/-- The greatest `n` such that `n * 10 ^ p` is not above the number. -/
def Rounding.floor (r : Rounding) (p : Int) : Nat :=
  r.value * pow10 (-p).toNat / (r.denominator * pow10 p.toNat)

/-- Whether `n * 10 ^ p` is taken rather than the grid point above it: the nearer one is, and of two
equally near ones the even one. -/
def Rounding.prefersFloor (r : Rounding) (n : Nat) (p : Int) : Bool :=
  let twice := 2 * r.value * pow10 (-p).toNat
  let middle := (2 * n + 1) * pow10 p.toNat * r.denominator
  twice < middle || (twice == middle && n % 2 == 0)

/-- The decimal on the grid of `10 ^ p` that reads back, if there is one. -/
def Rounding.onGrid (r : Rounding) (p : Int) : Option Nat :=
  let n := r.floor p
  match r.holds n p, r.holds (n + 1) p with
  | true, true => some (if r.prefersFloor n p then n else n + 1)
  | true, false => some n
  | false, true => some (n + 1)
  | false, false => none

/-- The number of digits before the point; not positive for a number below a tenth. -/
def Rounding.places (r : Rounding) : Int :=
  (Nat.toDigits 10 (r.value * pow10 340 / r.denominator)).length - 340

/-- Searches grids of more and more digits, at most `fuel` of them. -/
def Rounding.search (r : Rounding) (places : Int) : Nat → Nat → Nat × Int
  | 0, count => (r.floor (places - count), places - count)
  | fuel + 1, count =>
    match r.onGrid (places - count) with
    | some n => (n, places - count)
    | none => r.search places fuel (count + 1)

/-- Digits without the zeros at the end. -/
def significant (digits : List Char) : List Char := (digits.reverse.dropWhile (· = '0')).reverse

/-- The digits of a finite number other than zero, and the number of digits before the point. -/
def shortest (x : Binary64) : List Char × Int :=
  let r := x.rounding
  let (n, p) := r.search r.places 17 1
  let digits := Nat.toDigits 10 n
  (significant digits, p + digits.length)

/-- Digits with the point after the first `places` of them. -/
def positional (digits : List Char) (places : Int) : List Char :=
  if places ≤ 0 then '0' :: '.' :: List.replicate (-places).toNat '0' ++ digits
  else if digits.length ≤ places.toNat then
    digits ++ List.replicate (places.toNat - digits.length) '0' ++ ['.', '0']
  else digits.take places.toNat ++ '.' :: digits.drop places.toNat

/-- Digits with the point after the first one and a power of ten; its exponent has a sign and at
least two digits. -/
def scientific (digits : List Char) (places : Int) : List Char :=
  let e := places - 1
  let size := Nat.toDigits 10 e.natAbs
  digits.take 1 ++ (if digits.length ≤ 1 then [] else '.' :: digits.drop 1)
    ++ 'e' :: (if e < 0 then '-' else '+') :: (if size.length < 2 then '0' :: size else size)

/-- The text of a number: positional from `10 ^ -4` up to below `10 ^ 16`, otherwise with an
exponent; a whole number keeps a zero behind the point. -/
def text (x : Binary64) : String :=
  if x.isNaN then "nan"
  else
    let body : List Char :=
      if x.isInfinite then ['i', 'n', 'f']
      else if x.isZero then ['0', '.', '0']
      else
        let (digits, places) := x.shortest
        if -4 < places ∧ places ≤ 16 then positional digits places else scientific digits places
    String.ofList (if x.negative then '-' :: body else body)

end ContentAssist.Binary64
