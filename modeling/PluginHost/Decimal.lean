/-!
The shortest decimal that identifies a binary floating-point value, found by exact arithmetic on the
value's neighbourhood.
-/
namespace PluginHost.Decimal

/-- The reals that round to one positive value, as numerators over a common denominator; the ends
belong to the span when the significand is even. -/
structure Span where
  low : Nat
  value : Nat
  high : Nat
  den : Nat
  closed : Bool

/-- The gap below a power of two is half the gap above it. -/
def Span.ofBits (bits : UInt64) : Span :=
  let e := ((bits >>> 52) &&& 0x7FF).toNat
  let f := (bits &&& 0xFFFFFFFFFFFFF).toNat
  let m := if e = 0 then f else f + Nat.pow 2 52
  let q : Int := (if e = 0 then 1 else e : Nat) - 1075
  let up := Nat.pow 2 q.toNat
  let below := if f = 0 ∧ 1 < e then 1 else 2
  { low := (4 * m - below) * up
    value := 4 * m * up
    high := (4 * m + 2) * up
    den := 4 * Nat.pow 2 (-q).toNat
    closed := m % 2 = 0 }

/-- Whether `d * 10 ^ e` lies in the span. -/
def Span.holds (s : Span) (d : Nat) (e : Int) : Bool :=
  let t := d * Nat.pow 10 e.toNat * s.den
  let u := Nat.pow 10 (-e).toNat
  if s.closed then decide (s.low * u ≤ t ∧ t ≤ s.high * u)
  else decide (s.low * u < t ∧ t < s.high * u)

/-- The least `k` for which the value is below `10 ^ k`. -/
def Span.scale (s : Span) : Int :=
  if s.den ≤ s.value then (Nat.toDigits 10 (s.value / s.den)).length
  else
    match (List.range 400).find? fun j => s.den ≤ s.value * Nat.pow 10 j with
    | some j => 1 - (j : Int)
    | none => 0

/-- The decimal of exponent `e` in the span that is nearest to the value; a tie goes to the even
one. -/
def Span.nearest? (s : Span) (e : Int) : Option Nat :=
  let v := s.value * Nat.pow 10 (-e).toNat
  let g := s.den * Nat.pow 10 e.toNat
  let f := v / g
  let low := f ≠ 0 && s.holds f e
  let high := s.holds (f + 1) e
  if low && high then
    let twice := 2 * v
    let middle := (2 * f + 1) * g
    if twice < middle || (twice = middle && f % 2 = 0) then some f else some (f + 1)
  else if low then some f
  else if high then some (f + 1)
  else none

/-- Zeros at the end move into the exponent. -/
def stripZeros : Nat → Nat → Int → Nat × Int
  | 0, d, e => (d, e)
  | fuel + 1, d, e => if d ≠ 0 ∧ d % 10 = 0 then stripZeros fuel (d / 10) (e + 1) else (d, e)

/-- Digits and exponent of the shortest decimal that reads back as the positive value with these
bits. -/
def shortest (bits : UInt64) : Nat × Int :=
  let s := Span.ofBits bits
  let k := s.scale
  let found := (List.range 17).findSome? fun i =>
    let e := k - (i + 1 : Nat)
    (s.nearest? e).map fun d => (d, e)
  let r := found.getD
    (s.value * Nat.pow 10 (17 - k).toNat / (s.den * Nat.pow 10 (k - 17).toNat), k - 17)
  stripZeros 20 r.1 r.2

/-- Digits and exponent laid out: positional while the leading digit has an exponent from -4 to 15,
scientific with a signed exponent of at least two digits otherwise. -/
def layout (d : Nat) (e : Int) : List Char :=
  let ds := Nat.toDigits 10 d
  let lead := e + (ds.length : Int) - 1
  if -4 ≤ lead ∧ lead < 16 then
    if 0 ≤ e then ds ++ List.replicate e.toNat '0' ++ ['.', '0']
    else if 0 ≤ lead then
      let whole := (lead + 1).toNat
      ds.take whole ++ '.' :: ds.drop whole
    else '0' :: '.' :: List.replicate (-lead - 1).toNat '0' ++ ds
  else
    let fraction := match ds.drop 1 with
      | [] => []
      | rest => '.' :: rest
    let size := Nat.toDigits 10 lead.natAbs
    ds.take 1 ++ fraction ++ 'e' :: (if lead < 0 then '-' else '+')
      :: List.replicate (2 - size.length) '0' ++ size

/-- The text of a float. Not a number and the infinities are written as words. -/
def text (x : Float) : String :=
  if x.isNaN then "NaN"
  else
    let bits := x.toBits &&& 0x7FFFFFFFFFFFFFFF
    let sign := if x.toBits >>> 63 = 1 then "-" else ""
    if x.isInf then sign ++ "Infinity"
    else if bits = 0 then sign ++ "0.0"
    else
      let r := shortest bits
      sign ++ String.ofList (layout r.1 r.2)

/-- The integer that a float equals, if it is one. -/
def integer? (x : Float) : Option Int :=
  if x.isNaN || x.isInf then none
  else
    let s := Span.ofBits (x.toBits &&& 0x7FFFFFFFFFFFFFFF)
    let n := s.value / s.den
    if n * s.den = s.value then some (if x.toBits >>> 63 = 1 then -(n : Int) else n) else none

/-- The float nearest to `m * 10 ^ e`; exponents that are out of reach are not computed with. -/
def toFloat (negative : Bool) (m : Nat) (e : Int) : Float :=
  let x :=
    if m = 0 ∨ e + (Nat.toDigits 10 m).length < -400 then 0.0
    else if 400 < e then 1.0 / 0.0
    else Float.ofScientific m (e < 0) e.natAbs
  if negative then -x else x

end PluginHost.Decimal
