/-!
# The shortest decimal of a binary number

A finite double stands for the interval of reals that round to it.  Its shortest decimal is the
decimal in that interval with the fewest digits, of two such the nearer one, of two equally near
ones the even one.  All arithmetic is exact, on natural numbers.

* `Binary.ofBits`: a double as `mantissa · 2 ^ exponent`;
* `Binary.shortest`: its shortest decimal, as `digits · 10 ^ exponent`;
* `Layout.render`: how a decimal is written.
-/

namespace LayeredCss

/-- The decimal digits of a number, the most significant first. -/
def digitChars (n : Nat) : List Char := Nat.toDigits 10 n

/-- A positive decimal `digits · 10 ^ exponent`. -/
structure ScaledDecimal where
  digits : Nat
  exponent : Int
  deriving DecidableEq, Repr

/-- A nonnegative binary number `mantissa · 2 ^ exponent`.  It is `narrow` if the next smaller
number of its format lies only half as far away as the next larger one. -/
structure Binary where
  mantissa : Nat
  exponent : Int
  narrow : Bool
  deriving DecidableEq, Repr

namespace Binary

/-- The weight of the bit that doubles do not store. -/
def hiddenBit : Nat := 0x10000000000000

/-- The magnitude of the finite double with these bits. -/
def ofBits (bits : UInt64) : Binary :=
  let fraction := bits.toNat % hiddenBit
  let exponent := bits.toNat / hiddenBit % 0x800
  if exponent = 0 then ⟨fraction, -1074, false⟩
  else ⟨fraction + hiddenBit, Int.ofNat exponent - 1075, fraction == 0 && decide (1 < exponent)⟩

/-- The interval of the reals that round to the number, over a common denominator:
`low / den`, `value / den` and `high / den`.  Its ends belong to it if the mantissa is even. -/
structure Interval where
  low : Nat
  value : Nat
  high : Nat
  den : Nat
  closed : Bool

def interval (b : Binary) : Interval :=
  let up := Nat.pow 2 (b.exponent - 2).toNat
  { low := (4 * b.mantissa - if b.narrow then 1 else 2) * up
    value := 4 * b.mantissa * up
    high := (4 * b.mantissa + 2) * up
    den := Nat.pow 2 (2 - b.exponent).toNat
    closed := b.mantissa % 2 == 0 }

namespace Interval

/-- The least `t ≥ from` with `10 ^ t · value ≥ den`, looked for in `fuel` steps. -/
def leadingZeros (i : Interval) : (fuel start : Nat) → Nat
  | 0, t => t
  | fuel + 1, t => if i.den ≤ i.value * Nat.pow 10 t then t else leadingZeros i fuel (t + 1)

/-- The power of ten of the leading digit of the value. -/
def magnitude (i : Interval) : Int :=
  if i.den ≤ i.value then Int.ofNat (digitChars (i.value / i.den)).length - 1
  else -Int.ofNat (i.leadingZeros 1100 1)

/-- Whether `digits · 10 ^ exponent` lies in the interval. -/
def holds (i : Interval) (digits : Nat) (exponent : Int) : Bool :=
  let x := digits * Nat.pow 10 exponent.toNat * i.den
  let unit := Nat.pow 10 (-exponent).toNat
  if i.closed then decide (i.low * unit ≤ x) && decide (x ≤ i.high * unit)
  else decide (i.low * unit < x) && decide (x < i.high * unit)

/-- The decimal with the given power of ten that lies in the interval, if there is one: of the two
neighbours of the value on that grid the nearer, of two equally near ones the even. -/
def onGrid? (i : Interval) (exponent : Int) : Option Nat :=
  let num := i.value * Nat.pow 10 (-exponent).toNat
  let unit := i.den * Nat.pow 10 exponent.toNat
  let below := num / unit
  let rest := num % unit
  match i.holds below exponent, i.holds (below + 1) exponent with
  | true, false => some below
  | false, true => some (below + 1)
  | false, false => none
  | true, true =>
    if 2 * rest < unit then some below
    else if unit < 2 * rest then some (below + 1)
    else some (if below % 2 == 0 then below else below + 1)

/-- The decimal on the coarsest grid, from `exponent` on down, that has one in the interval. -/
def search (i : Interval) : (fuel : Nat) → (exponent : Int) → ScaledDecimal
  | 0, exponent => ⟨i.value / i.den, exponent⟩
  | fuel + 1, exponent => match i.onGrid? exponent with
    | some digits => ⟨digits, exponent⟩
    | none => search i fuel (exponent - 1)

end Interval

/-- Drops the zeros at the end of the digits. -/
def trim : (fuel : Nat) → ScaledDecimal → ScaledDecimal
  | 0, d => d
  | fuel + 1, d =>
    if d.digits % 10 = 0 ∧ d.digits ≠ 0 then trim fuel ⟨d.digits / 10, d.exponent + 1⟩ else d

/-- The shortest decimal of a positive number; seventeen digits always suffice. -/
def shortest (b : Binary) : ScaledDecimal :=
  let i := b.interval
  trim 20 (i.search 18 i.magnitude)

end Binary

/-- How a decimal is written: positionally while the power of ten of its leading digit lies between
`least` and `greatest`, and with that power after `mark` otherwise. -/
structure Layout where
  least : Int
  greatest : Int
  /-- Written after a positional text without a fraction. -/
  integral : String
  mark : Char
  /-- Sign of a power that is not negative. -/
  plus : String
  deriving Repr

namespace Layout

def positional (l : Layout) (ds : List Char) (exponent : Int) : List Char :=
  if 0 ≤ exponent then ds ++ List.replicate exponent.toNat '0' ++ l.integral.toList
  else
    let places := (-exponent).toNat
    if places < ds.length then
      ds.take (ds.length - places) ++ '.' :: ds.drop (ds.length - places)
    else '0' :: '.' :: List.replicate (places - ds.length) '0' ++ ds

def scientific (l : Layout) (ds : List Char) (power : Int) : List Char :=
  let tail := ds.drop 1
  ds.take 1 ++ (if tail.isEmpty then [] else '.' :: tail) ++ l.mark ::
    (if power < 0 then ['-'] else l.plus.toList) ++ digitChars power.natAbs

/-- The text of a positive decimal. -/
def render (l : Layout) (d : ScaledDecimal) : List Char :=
  let ds := digitChars d.digits
  let power := Int.ofNat ds.length - 1 + d.exponent
  if l.least ≤ power ∧ power ≤ l.greatest then l.positional ds d.exponent
  else l.scientific ds power

end Layout

end LayeredCss
