/-!
# Slices by bytes

A part of a text named by the offsets of its first byte and of the byte after its last one in the
UTF-8 form of the text.  Offsets that are reversed, lie outside the text, or cut a character in
two name no part.
-/

namespace Interlingua.Text

/-- What follows the first `n` bytes. -/
def dropBytes? (n : Nat) (s : List Char) : Option (List Char) :=
  match n, s with
  | 0, s => some s
  | _, [] => none
  | n, c :: rest => if c.utf8Size ≤ n then dropBytes? (n - c.utf8Size) rest else none

/-- The first `n` bytes. -/
def takeBytes? (n : Nat) (s : List Char) : Option (List Char) :=
  match n, s with
  | 0, _ => some []
  | _, [] => none
  | n, c :: rest =>
    if c.utf8Size ≤ n then (takeBytes? (n - c.utf8Size) rest).map (c :: ·) else none

/-- The bytes from one offset up to another. -/
def slice? (s : List Char) (start stop : Nat) : Option (List Char) :=
  if start ≤ stop then (dropBytes? start s).bind (takeBytes? (stop - start)) else none

end Interlingua.Text
