/-!
# Shortest decimals

The decimal of fewest digits that lies nearer to a binary fraction than to its
neighbours, and among those the nearest.  The search looks at the decimals of
one digit, of two, and so on up to seventeen, and takes the first that hits.
-/

namespace LedgerScript.Decimal

/-- A positive binary fraction: `mantissa * 2 ^ exponent`. -/
structure Binary where
  mantissa : Nat
  exponent : Int
  deriving DecidableEq, Repr

/-- A decimal: `digits * 10 ^ exponent`. -/
structure Number where
  digits : Nat
  exponent : Int
  deriving DecidableEq, Repr

/-- The least mantissa of a double of full precision. -/
def normalStart : Nat := 0x10000000000000

/-- The finite double of a bit pattern, without its sign. -/
def Binary.ofBits (bits : UInt64) : Binary :=
  let fraction : Nat := bits.toNat % normalStart
  let scale : Nat := bits.toNat / normalStart % 0x800
  if scale = 0 then ⟨fraction, -1074⟩ else ⟨normalStart + fraction, (scale : Int) - 1075⟩

/-- `n * base ^ e` as a quotient of two naturals. -/
def scaled (base n : Nat) (e : Int) : Nat × Nat :=
  if 0 ≤ e then (n * Nat.pow base e.toNat, 1) else (n, Nat.pow base (-e).toNat)

/-- How far below and above the value a number may lie and still round to it,
in quarters of the last binary place: a power of two is nearer to the value
below it. -/
def Binary.reach (b : Binary) : Nat × Nat :=
  (if b.mantissa = normalStart ∧ -1074 < b.exponent then 1 else 2, 2)

/-- The decimal `digits * 10 ^ e` rounds to `b`. -/
def Binary.holds (b : Binary) (digits : Nat) (e : Int) : Bool :=
  let (low, high) := b.reach
  let (num, den) := scaled 10 digits e
  let (lowNum, lowDen) := scaled 2 (4 * b.mantissa - low) (b.exponent - 2)
  let (highNum, highDen) := scaled 2 (4 * b.mantissa + high) (b.exponent - 2)
  if b.mantissa % 2 = 0 then
    lowNum * den ≤ num * lowDen && num * highDen ≤ highNum * den
  else
    lowNum * den < num * lowDen && num * highDen < highNum * den

/-- The number of decimal digits before the point, less for a value below a
tenth: the least `k` with `b < 10 ^ k`, found from an estimate that is at most
`turns` too low. -/
def Binary.magnitude (b : Binary) : (turns : Nat) → Int → Int
  | 0, k => k
  | turns + 1, k =>
    let (num, den) := scaled 2 b.mantissa b.exponent
    let (bound, unit) := scaled 10 1 k
    if num * unit < bound * den then k else b.magnitude turns (k + 1)

/-- Of the two neighbours on the grid of steps `10 ^ e`, the nearer one that
rounds to `b`. -/
def Binary.onGrid? (b : Binary) (e : Int) : Option Nat :=
  let (num, den) := scaled 2 b.mantissa b.exponent
  let (step, unit) := scaled 10 1 e
  let below := num * unit / (den * step)
  let excess := num * unit - below * (den * step)
  let downward := b.holds below e && 0 < below
  let upward := b.holds (below + 1) e
  if downward && (!upward || 2 * excess < den * step
      || (2 * excess = den * step && below % 2 = 0)) then some below
  else if upward then some (below + 1)
  else none

/-- Looks at grids of `count` digits and more. -/
def Binary.search (b : Binary) (magnitude : Int) : (count turns : Nat) → Number
  | _, 0 => ⟨b.mantissa, b.exponent⟩
  | count, turns + 1 =>
    let e := magnitude - count
    match b.onGrid? e with
    | some digits => ⟨digits, e⟩
    | none => b.search magnitude (count + 1) turns

/-- The shortest decimal of a positive binary fraction. -/
def Binary.shortest (b : Binary) : Number :=
  let estimate : Int := ((Nat.log2 b.mantissa : Int) + b.exponent) * 30103 / 100000 - 1
  b.search (b.magnitude 5 estimate) 1 20

/-- Drops the zeros at the end of a numeral. -/
def dropZeros (digits : List Char) : List Char :=
  (digits.reverse.dropWhile (· = '0')).reverse

/-- The text of a positive decimal whose first digit stands `point` places
before the point: plain from five places behind the point to sixteen before
it, and with a signed exponent elsewhere. -/
def Number.text (d : Number) : String :=
  let digits := dropZeros (Nat.toDigits 10 d.digits)
  let point : Int := d.exponent + (Nat.toDigits 10 d.digits).length
  let length : Int := digits.length
  String.ofList <|
    if length ≤ point ∧ point ≤ 16 then
      digits ++ List.replicate (point - length).toNat '0' ++ ['.', '0']
    else if 0 < point ∧ point ≤ 16 then
      digits.take point.toNat ++ '.' :: digits.drop point.toNat
    else if -5 < point ∧ point ≤ 0 then
      '0' :: '.' :: List.replicate (-point).toNat '0' ++ digits
    else
      let exponent := (if 0 < point then ['+'] else []) ++ (toString (point - 1)).toList
      match digits with
      | [d] => d :: 'e' :: exponent
      | d :: more => d :: '.' :: more ++ 'e' :: exponent
      | [] => []

/-- The shortest text of a finite double. -/
def ofFloat (x : Float) : String :=
  let b := Binary.ofBits x.toBits
  let sign := if x.toBits < 0x8000000000000000 then "" else "-"
  if b.mantissa = 0 then sign ++ "0.0" else sign ++ b.shortest.text

end LedgerScript.Decimal
