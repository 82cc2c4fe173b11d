/-!
# Numerals

Whole numbers as ASCII digits, with a sign where one is allowed.

* `numeral`, `count` — write a number: no leading zero, no plus, a minus where it is negative.
* `readUnsigned?`, `readSigned?` — read a number of 64 bits.  A number outside that range, an empty
  text, a lone sign and any other character are refused; leading zeros are not.
* `readSigned?_numeralChars` — a number in range is read back as it was written.
-/

namespace Interlingua.Text

/-! ## Writing -/

/-- The digits of a number, with a minus before them if it is negative. -/
def numeralChars : Int → List Char
  | .ofNat n => Nat.toDigits 10 n
  | .negSucc n => '-' :: Nat.toDigits 10 (n + 1)

/-- A number as text. -/
def numeral (n : Int) : String := String.ofList (numeralChars n)

/-- A number of things as text. -/
def count (n : Nat) : String := String.ofList (Nat.toDigits 10 n)

/-! ## Reading -/

/-- The number that ASCII digits write; there must be at least one. -/
def readDigits? (s : List Char) : Option Nat :=
  if s.isEmpty || !s.all Char.isDigit then none
  else some (s.foldl (fun n c => 10 * n + (c.toNat - '0'.toNat)) 0)

/-- A number of 64 bits without sign; a plus may lead it. -/
def readUnsigned? (s : List Char) : Option Nat :=
  let digits := match s with
    | '+' :: rest => rest
    | _ => s
  (readDigits? digits).filter (· < Nat.pow 2 64)

/-- A number of 64 bits, one of them for the sign; a plus or a minus may lead it. -/
def readSigned? (s : List Char) : Option Int :=
  match s with
  | '-' :: rest => ((readDigits? rest).filter (· ≤ Nat.pow 2 63)).map fun (n : Nat) => -(n : Int)
  | '+' :: rest => ((readDigits? rest).filter (· < Nat.pow 2 63)).map fun (n : Nat) => (n : Int)
  | _ => ((readDigits? s).filter (· < Nat.pow 2 63)).map fun (n : Nat) => (n : Int)

/-! ## Reading what was written -/

theorem isDigit_of_mem_digits {n : Nat} {c : Char} (h : c ∈ Nat.toDigits 10 n) :
    c.isDigit = true :=
  Nat.isDigit_of_mem_toDigits (by decide) (by decide) h

theorem readDigits?_toDigits (n : Nat) : readDigits? (Nat.toDigits 10 n) = some n := by
  have hall : (Nat.toDigits 10 n).all Char.isDigit = true :=
    List.all_eq_true.2 fun c hc => isDigit_of_mem_digits hc
  have hne : (Nat.toDigits 10 n).isEmpty = false := by simp [Nat.toDigits_ne_nil]
  have hval := Nat.ofDigitChars_ten_toDigits (n := n)
  rw [Nat.ofDigitChars_eq_foldl] at hval
  simp only [readDigits?, hall, hne]
  simpa using hval

/-- Digits start with neither sign. -/
theorem readSigned?_toDigits (n : Nat) (h : n < Nat.pow 2 63) :
    readSigned? (Nat.toDigits 10 n) = some (n : Int) := by
  unfold readSigned?
  split
  · rename_i rest heq
    have hmem : '-' ∈ Nat.toDigits 10 n := by simp [heq]
    exact absurd (isDigit_of_mem_digits hmem) (by decide)
  · rename_i rest heq
    have hmem : '+' ∈ Nat.toDigits 10 n := by simp [heq]
    exact absurd (isDigit_of_mem_digits hmem) (by decide)
  · rw [readDigits?_toDigits, Option.filter_some, if_pos (decide_eq_true h), Option.map_some]

/-- A number of 64 bits is read back as it was written. -/
theorem readSigned?_numeralChars (n : Int) (low : -(Nat.pow 2 63 : Nat) ≤ n)
    (high : n < (Nat.pow 2 63 : Nat)) : readSigned? (numeralChars n) = some n := by
  cases n with
  | ofNat n => exact readSigned?_toDigits n (Int.ofNat_lt.1 high)
  | negSucc n =>
    have h : n + 1 ≤ Nat.pow 2 63 := by
      rw [Int.negSucc_eq] at low
      omega
    rw [numeralChars, readSigned?, readDigits?_toDigits, Option.filter_some,
      if_pos (decide_eq_true h), Option.map_some]
    rfl

end Interlingua.Text
