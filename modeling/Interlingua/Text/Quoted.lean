/-!
# Quoted strings

A string literal between double quotes.  The quote, the backslash, and the three layout
characters are written with a backslash; every other character stands for itself.

* `quote` — writes a literal.
* `readQuoted?` — reads the literal that a text starts with, and returns what follows it.
-/

namespace Interlingua.Text

/-- A character as it stands inside a literal. -/
def quotedChar : Char → List Char
  | '"' => ['\\', '"']
  | '\\' => ['\\', '\\']
  | '\n' => ['\\', 'n']
  | '\r' => ['\\', 'r']
  | '\t' => ['\\', 't']
  | c => [c]

/-- The inside of a literal. -/
def quotedBody (s : List Char) : List Char := s.flatMap quotedChar

/-- A literal. -/
def quoteChars (s : List Char) : List Char := '"' :: quotedBody s ++ ['"']

/-- The literal of a string. -/
def quote (s : String) : String := String.ofList (quoteChars s.toList)

/-- The character that a letter stands for after a backslash. -/
def unescaped? : Char → Option Char
  | '"' => some '"'
  | '\\' => some '\\'
  | 'n' => some '\n'
  | 'r' => some '\r'
  | 't' => some '\t'
  | _ => none

/-- Reads the inside of a literal up to its closing quote. -/
def readBody? : List Char → Option (List Char × List Char)
  | [] => none
  | '"' :: rest => some ([], rest)
  | '\\' :: c :: rest => do
    let c ← unescaped? c
    let (value, after) ← readBody? rest
    return (c :: value, after)
  | c :: rest => do
    let (value, after) ← readBody? rest
    return (c :: value, after)

/-- Reads a literal; returns its value and what follows it. -/
def readQuoted? : List Char → Option (List Char × List Char)
  | '"' :: rest => readBody? rest
  | _ => none

end Interlingua.Text
