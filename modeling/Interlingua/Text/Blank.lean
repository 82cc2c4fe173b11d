import Interlingua.Text.Ranges

/-!
# Blanks, trimming and lines

* `isBlank` — the Unicode property White_Space.
* `trim`, `trimStart`, `trimEnd` — drop blanks at the ends of a text.
* `lines` — the lines of a text: each ends at a line feed, and a carriage return before the feed
  belongs to the ending.  An ending that closes the text opens no further line.
-/

namespace Interlingua.Text

/-- Characters with the property White_Space. -/
def blankRanges : List (Nat × Nat) :=
  [(0x9, 0xD), (0x20, 0x20), (0x85, 0x85), (0xA0, 0xA0), (0x1680, 0x1680), (0x2000, 0x200A),
    (0x2028, 0x2029), (0x202F, 0x202F), (0x205F, 0x205F), (0x3000, 0x3000)]

/-- The Unicode property White_Space. -/
def isBlank (c : Char) : Bool := inRanges blankRanges c

/-- Drops the blanks a text starts with. -/
def trimStart (s : List Char) : List Char := s.dropWhile isBlank

/-- Drops the blanks a text ends with. -/
def trimEnd (s : List Char) : List Char := (s.reverse.dropWhile isBlank).reverse

/-- Drops the blanks at both ends of a text. -/
def trim (s : List Char) : List Char := trimEnd (trimStart s)

/-- The stretches of a text between its line feeds; there is always at least one. -/
def stretches : List Char → List (List Char)
  | [] => [[]]
  | c :: rest =>
    if c = '\n' then [] :: stretches rest
    else
      match stretches rest with
      | [] => [[c]]
      | line :: more => (c :: line) :: more

/-- A line without the carriage return that belonged to its ending. -/
def dropReturn (line : List Char) : List Char :=
  if line.getLast? = some '\r' then line.dropLast else line

/-- The lines that stretches between line feeds make: the last one has no ending of its own. -/
def endLines : List (List Char) → List (List Char)
  | [] => []
  | [last] => if last.isEmpty then [] else [last]
  | line :: more => dropReturn line :: endLines more

/-- The lines of a text. -/
def lines (s : List Char) : List (List Char) := endLines (stretches s)

end Interlingua.Text
