import Interlingua.Text.Extending
import Interlingua.Text.Invisible

/-!
# Escaped literals

Character and string literals written so that every character of the result can be seen: the
mark that encloses the literal, the backslash, and characters without a shape of their own are
written as escapes.
-/

namespace Interlingua.Text

/-- Text of a code point in braces, in base sixteen. -/
def codeEscape (c : Char) : List Char :=
  ['\\', 'u', '\x7b'] ++ Nat.toDigits 16 c.toNat ++ ['\x7d']

/-- A character as it stands between the given marks. -/
def escape (mark c : Char) : List Char :=
  if c = '\x00' then ['\\', '0']
  else if c = '\t' then ['\\', 't']
  else if c = '\r' then ['\\', 'r']
  else if c = '\n' then ['\\', 'n']
  else if c = '\\' ∨ c = mark then ['\\', c]
  else if isExtending c ∨ isInvisible c then codeEscape c
  else [c]

/-- A string literal between quotes. -/
def escapedString (s : String) : String :=
  String.ofList ('"' :: s.toList.flatMap (escape '"') ++ ['"'])

/-- A character literal between apostrophes. -/
def escapedChar (c : Char) : String :=
  String.ofList ('\'' :: escape '\'' c ++ ['\''])

end Interlingua.Text
