/-!
# Shortest decimals

The decimal with the fewest digits that still reads back as a given binary number; of several,
the one nearest to the number, and of two equally near, the greater.

* `Span` — a positive binary number with the reals that round to it.
* `Span.ofBits?` — the number that 64 bits stand for, if it is finite and not zero.
* `Span.shortest` — the decimal.  For one digit, two digits, and so on, the two neighbours of the
  number on the grid of that many digits are tried.
-/

namespace Interlingua.Decimal

/-- A positive number and the reals that round to it, as whole multiples of `2 ^ exponent`. -/
structure Span where
  low : Nat
  value : Nat
  high : Nat
  exponent : Int
  /-- Whether the two ends round to the number as well. -/
  closed : Bool
  deriving DecidableEq, Repr

/-- A positive decimal `coefficient * 10 ^ exponent`. -/
structure Scaled where
  coefficient : Nat
  exponent : Int
  deriving DecidableEq, Repr

namespace Span

/-- The span of `mantissa * 2 ^ exponent`, counted in quarters so that its ends are whole.  The
numbers below a power of two lie twice as dense as those above it. -/
def ofMantissa (mantissa : Nat) (exponent : Int) (onPower : Bool) : Span :=
  { low := if onPower then 4 * mantissa - 1 else 4 * mantissa - 2
    value := 4 * mantissa
    high := 4 * mantissa + 2
    exponent := exponent - 2
    closed := mantissa % 2 == 0 }

/-- The positive number whose exponent and fraction fields are given; nothing for zero, for
infinity and where the bits name no number. -/
def ofFields? (exponent fraction : Nat) : Option Span :=
  if exponent = 2047 then none
  else if exponent = 0 then
    if fraction = 0 then none else some (ofMantissa fraction (-1074) false)
  else
    some (ofMantissa (Nat.pow 2 52 + fraction) (exponent - 1075) (fraction == 0 && exponent != 1))

/-- The factor that `2 ^ exponent / 10 ^ grid` gives a number of the span, as numerator. -/
def numerator (span : Span) (grid : Int) : Nat :=
  Nat.pow 2 span.exponent.toNat * Nat.pow 10 (-grid).toNat

/-- The denominator of the same factor. -/
def denominator (span : Span) (grid : Int) : Nat :=
  Nat.pow 2 (-span.exponent).toNat * Nat.pow 10 grid.toNat

/-- How many steps of `10 ^ grid` fit into the number. -/
def steps (span : Span) (grid : Int) : Nat :=
  span.value * span.numerator grid / span.denominator grid

/-- Whether a grid point rounds to the number. -/
def holds (span : Span) (grid : Int) (point : Nat) : Bool :=
  let here := point * span.denominator grid
  let low := span.low * span.numerator grid
  let high := span.high * span.numerator grid
  if span.closed then low ≤ here && here ≤ high else low < here && here < high

/-- Whether the number is nearer to a grid point than to the one above it. -/
def nearer (span : Span) (grid : Int) (point : Nat) : Bool :=
  2 * span.value * span.numerator grid < (2 * point + 1) * span.denominator grid

/-- The grid point that rounds to the number, if there is one. -/
def onGrid? (span : Span) (grid : Int) : Option Scaled :=
  let point := span.steps grid
  match span.holds grid point, span.holds grid (point + 1) with
  | true, true => some ⟨if span.nearer grid point then point else point + 1, grid⟩
  | true, false => some ⟨point, grid⟩
  | false, true => some ⟨point + 1, grid⟩
  | false, false => none

/-- The position of the decimal point: the least `p` with the number below `10 ^ p`. -/
def point (span : Span) : Int :=
  let num := span.value * span.numerator 0
  let den := span.denominator 0
  if den ≤ num then (Nat.toDigits 10 (num / den)).length
  else 1 - (Nat.toDigits 10 ((den - 1) / num)).length

/-- The shortest decimal that reads back as the number.  Seventeen digits always suffice. -/
def shortest (span : Span) : Scaled :=
  let point := span.point
  let found := (List.range 17).findSome? fun (digits : Nat) => span.onGrid? (point - (digits + 1))
  found.getD ⟨span.steps (point - 17), point - 17⟩

end Span

end Interlingua.Decimal
