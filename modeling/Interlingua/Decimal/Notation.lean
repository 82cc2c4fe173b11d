import Interlingua.Decimal.Shortest
import Interlingua.Text.Numeral

/-!
# Writing floating point numbers

A number is read from its 64 bits and written with its shortest digits.  How the digits are laid
out is a `Layout`; the three layouts in use are `plain`, `pointed` and `compact`.
-/

namespace Interlingua.Decimal

/-- What 64 bits stand for. -/
inductive Binary64 where
  | nan
  | infinite (negative : Bool)
  | zero (negative : Bool)
  | finite (negative : Bool) (span : Span)
  deriving DecidableEq, Repr

namespace Binary64

/-- Reads the sign, the exponent and the fraction. -/
def ofBits (bits : UInt64) : Binary64 :=
  let n := bits.toNat
  let negative := n / Nat.pow 2 63 == 1
  let exponent := n / Nat.pow 2 52 % 2048
  let fraction := n % Nat.pow 2 52
  match Span.ofFields? exponent fraction with
  | some span => .finite negative span
  | none =>
    if exponent = 0 then .zero negative
    else if fraction = 0 then .infinite negative
    else .nan

/-- Whether the sign is set; it counts for what names no number, too. -/
def signBit (bits : UInt64) : Bool := bits.toNat / Nat.pow 2 63 == 1

end Binary64

/-- How digits are laid out. -/
structure Layout where
  /-- Whether a number whose point stands at the given position is written without exponent. -/
  positional : Int → Bool
  /-- Whether a whole number keeps one digit after the point. -/
  keepsPoint : Bool

namespace Layout

/-- Never an exponent, and no point in a whole number. -/
def plain : Layout := ⟨fun _ => true, false⟩

/-- Never an exponent, and always a point. -/
def pointed : Layout := ⟨fun _ => true, true⟩

/-- An exponent below `10 ^ (-4)` and from `10 ^ 16` on; a point in what has no exponent. -/
def compact : Layout := ⟨fun point => -4 < point && point ≤ 16, true⟩

/-- Digits with the point at the given position. -/
def writePositional (layout : Layout) (digits : List Char) (point : Int) : List Char :=
  if point ≤ 0 then
    ['0', '.'] ++ List.replicate (-point).toNat '0' ++ digits
  else if digits.length ≤ point.toNat then
    digits ++ List.replicate (point.toNat - digits.length) '0' ++
      (if layout.keepsPoint then ['.', '0'] else [])
  else
    digits.take point.toNat ++ ['.'] ++ digits.drop point.toNat

/-- One digit before the point, the others after it, and the exponent. -/
def writeExponent (digits : List Char) (point : Int) : List Char :=
  let tail := digits.drop 1
  digits.take 1 ++ (if tail.isEmpty then [] else '.' :: tail) ++ ['e'] ++
    Text.numeralChars (point - 1)

/-- A positive decimal. -/
def writeDecimal (layout : Layout) (decimal : Scaled) : List Char :=
  let all := Nat.toDigits 10 decimal.coefficient
  let digits := (all.reverse.dropWhile (· == '0')).reverse
  let point := decimal.exponent + all.length
  if layout.positional point then layout.writePositional digits point
  else writeExponent digits point

/-- The text of a number; what names no number has no sign. -/
def write (layout : Layout) : Binary64 → String
  | .nan => "NaN"
  | .infinite negative => sign negative ++ "inf"
  | .zero negative => sign negative ++ (if layout.keepsPoint then "0.0" else "0")
  | .finite negative span =>
      sign negative ++ String.ofList (layout.writeDecimal span.shortest)
where
  /-- The sign of a number. -/
  sign (negative : Bool) : String := if negative then "-" else ""

/-- The text of the number that 64 bits stand for. -/
def writeBits (layout : Layout) (bits : UInt64) : String := layout.write (.ofBits bits)

end Layout

end Interlingua.Decimal
