/-!
# Shortest decimals

A binary floating-point number stands for every real nearer to it than to its neighbours. The
shortest decimal in that interval, and of those the nearest to the number, is the text from which it
can be read back with the fewest digits. Of two equally near ones it is the larger. All arithmetic is
exact, on natural numbers.
-/

namespace ScriptWorker.Decimal

/-- The number `mantissa * 2 ^ (exponent - bias)`, with the width of the gap below it told apart at
powers of two. -/
structure Binary where
  mantissa : Nat
  exponent : Nat
  lowerGapHalved : Bool

/-- Exponents are kept non-negative by adding this to them. -/
def exponentBias : Nat := 1074

def Binary.ofBits (bits : UInt64) : Binary :=
  let fraction := bits.toNat % Nat.pow 2 52
  let field := bits.toNat / Nat.pow 2 52 % Nat.pow 2 11
  if field = 0 then ⟨fraction, 0, false⟩
  else ⟨Nat.pow 2 52 + fraction, field - 1, fraction = 0 && field ≠ 1⟩

/-- Four times the number and the ends of its interval, over the common denominator
`4 * 2 ^ exponentBias`; the ends count when the mantissa is even. -/
structure Interval where
  low : Nat
  value : Nat
  high : Nat
  closed : Bool

def Binary.interval (b : Binary) : Interval :=
  let unit := Nat.pow 2 b.exponent
  let value := 4 * b.mantissa * unit
  { low := value - (if b.lowerGapHalved then unit else 2 * unit)
    value := value
    high := value + 2 * unit
    closed := b.mantissa % 2 = 0 }

def scale : Nat := 4 * Nat.pow 2 exponentBias

/-- A decimal `digits * 10 ^ power`, the power shifted by `powerBias`. -/
structure Shortest where
  digits : Nat
  power : Nat

def powerBias : Nat := 400

def Interval.holds (i : Interval) (digits power : Nat) : Bool :=
  let point := digits * Nat.pow 10 power * scale
  let shift := Nat.pow 10 powerBias
  if i.closed then i.low * shift ≤ point && point ≤ i.high * shift
  else i.low * shift < point && point < i.high * shift

def Interval.distance (i : Interval) (digits power : Nat) : Nat :=
  let point := digits * Nat.pow 10 power * scale
  let value := i.value * Nat.pow 10 powerBias
  if point ≤ value then value - point else point - value

/-- The point of the grid of multiples of `10 ^ (power - powerBias)` that lies in the interval and is
nearest to its value, if there is one; of two equally near the one above. -/
def Interval.onGrid (i : Interval) (power : Nat) : Option Shortest :=
  let below := i.value * Nat.pow 10 powerBias / (Nat.pow 10 power * scale)
  let above := below + 1
  match i.holds below power && below ≠ 0, i.holds above power with
  | false, false => none
  | true, false => some ⟨below, power⟩
  | false, true => some ⟨above, power⟩
  | true, true =>
    if i.distance below power < i.distance above power then some ⟨below, power⟩
    else some ⟨above, power⟩

/-- The coarsest grid with a point in the interval, trying `count` grids from `power` down. -/
def Interval.search (i : Interval) : Nat → Nat → Option Shortest
  | 0, _ => none
  | count + 1, power =>
    match i.onGrid power with
    | some s => some s
    | none => i.search count (power - 1)

def Shortest.trimmed : Nat → Shortest → Shortest
  | 0, s => s
  | fuel + 1, s =>
    if s.digits ≠ 0 && s.digits % 10 = 0 then Shortest.trimmed fuel ⟨s.digits / 10, s.power + 1⟩ else s

def topPower : Nat := powerBias + 310

/-- The shortest decimal that reads back as the double with these bits; `none` for zero. -/
def shortest (bits : UInt64) : Option Shortest :=
  let b := Binary.ofBits bits
  if b.mantissa = 0 then none
  else (b.interval.search (topPower + 1) topPower).map (Shortest.trimmed 20)

end ScriptWorker.Decimal
