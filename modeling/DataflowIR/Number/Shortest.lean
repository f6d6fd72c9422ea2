import DataflowIR.Number.Binary64

namespace DataflowIR.Binary64

/-- The positive decimal `0.d₁d₂…dₙ * 10 ^ point`. -/
structure Decimal where
  digits : List Char
  point : Int
  deriving DecidableEq, Repr

/-- The reals that round to a positive finite value, on a common denominator; the ends belong to
it when `closed`. -/
structure Interval where
  low : Nat
  value : Nat
  high : Nat
  denominator : Nat
  closed : Bool

/-- Halfway to both neighbours; the one below a power of two is half as far. -/
def interval (x : Binary64) : Interval :=
  let below := if x.fraction = 0 && 1 < x.exponent then 1 else 2
  let up := Nat.pow 2 (x.scale - 2).toNat
  { low := (4 * x.mantissa - below) * up
    value := 4 * x.mantissa * up
    high := (4 * x.mantissa + 2) * up
    denominator := Nat.pow 2 (2 - x.scale).toNat
    closed := x.mantissa % 2 = 0 }

/-- Whether `n * 10 ^ place` lies in the interval. -/
def Interval.holds (r : Interval) (n : Nat) (place : Int) : Bool :=
  let point := n * Nat.pow 10 place.toNat * r.denominator
  let unit := Nat.pow 10 (-place).toNat
  if r.closed then r.low * unit ≤ point && point ≤ r.high * unit
  else r.low * unit < point && point < r.high * unit

/-- The least power of ten above the value. -/
def Interval.point (r : Interval) : Int :=
  let whole := r.value / r.denominator
  if whole = 0 then
    let shift := (List.range 400).find? fun k => r.denominator ≤ r.value * Nat.pow 10 k
    1 - (shift.getD 400 : Int)
  else (Nat.toDigits 10 whole).length

/-- The multiple of `10 ^ place` nearest to the value among its two neighbours that lie in the
interval; of two as near, the upper. -/
def Interval.nearest? (r : Interval) (place : Int) : Option Nat :=
  let unit := Nat.pow 10 place.toNat * r.denominator
  let scaled := r.value * Nat.pow 10 (-place).toNat
  let below := scaled / unit
  let upperIsNearer := unit ≤ 2 * (scaled % unit)
  let lower := if r.holds below place then some below else none
  let upper := if r.holds (below + 1) place then some (below + 1) else none
  if upperIsNearer then upper.or lower else lower.or upper

def stripZeros (digits : List Char) : List Char :=
  (digits.reverse.dropWhile (· == '0')).reverse

def Interval.decimal (r : Interval) : Decimal :=
  let point := r.point
  let found := (List.range' 1 17).findSome? fun (n : Nat) =>
    (r.nearest? (point - n)).map fun m => (n, m)
  match found with
  | none => ⟨[], point⟩
  | some (n, m) =>
    let digits := Nat.toDigits 10 m
    ⟨stripZeros digits, point - n + digits.length⟩

/-- The fewest digits that lie in the interval of reals rounding to the value, and of those the
nearest to it. -/
def shortest (x : Binary64) : Decimal :=
  x.interval.decimal

/-- Where a decimal is written with its digits in place: `0.d₁… * 10 ^ point` for these points. -/
structure DecimalStyle where
  leastPoint : Int
  greatestPoint : Int

/-- Values from one ten-thousandth up to ten to the sixteenth have their digits in place. -/
def plainStyle : DecimalStyle := ⟨-3, 16⟩

/-- Digits in place, with at least one on either side of the mark. -/
def Decimal.inPlace (d : Decimal) : List Char :=
  let whole := d.digits.take d.point.toNat ++
    List.replicate (d.point.toNat - d.digits.length) '0'
  let rest := List.replicate (-d.point).toNat '0' ++ d.digits.drop d.point.toNat
  (if whole.isEmpty then ['0'] else whole) ++ '.' :: (if rest.isEmpty then ['0'] else rest)

/-- One digit before the mark and a power of ten. -/
def Decimal.withExponent (d : Decimal) : List Char :=
  let rest := d.digits.drop 1
  d.digits.take 1 ++ (if rest.isEmpty then [] else '.' :: rest) ++
    'e' :: (toString (d.point - 1)).toList

def Decimal.chars (style : DecimalStyle) (d : Decimal) : List Char :=
  if style.leastPoint ≤ d.point && d.point ≤ style.greatestPoint then d.inPlace
  else d.withExponent

def text (x : Binary64) : String :=
  let sign := if x.isNegative then "-" else ""
  if x.isNaN then "NaN"
  else if x.isInfinite then sign ++ "inf"
  else if x.isZero then sign ++ "0.0"
  else sign ++ String.ofList (x.shortest.chars plainStyle)

end DataflowIR.Binary64
