import Interlingua.Text.Blank
import Interlingua.Text.Numeral
import Interlingua.Tree.Walk

/-!
# The assignment language

The smallest source language: each line gives a whole number of 64 bits to a name, as in `x = 1`.

* `AssignmentLine.ofChars?` — reads a line.
* `Assignments.parse` — reads a source text into a tree, or names the first line that is refused.
-/

namespace Interlingua

/-- A line of a source text: a name and the number it gets. -/
structure AssignmentLine where
  name : String
  value : Int
  deriving DecidableEq, Repr

/-- Reads a line.  The first equals sign divides it, and blanks around either part do not count;
any other text may stand as a name, even none. -/
def AssignmentLine.ofChars? (line : List Char) : Option AssignmentLine :=
  match line.dropWhile (· ≠ '=') with
  | [] => none
  | _ :: right =>
    (Text.readSigned? (Text.trim right)).map fun value =>
      { name := String.ofList (Text.trim (line.takeWhile (· ≠ '='))), value }

/-- A line that is no assignment, counted from one. -/
structure SourceError where
  line : Nat
  deriving DecidableEq, Repr

def SourceError.message (error : SourceError) : String :=
  "line " ++ Text.count error.line ++ ": expected `name = integer`"

namespace Assignments

/-- Reads lines, the first of them with the given number. -/
def readLines (number : Nat) : List (List Char) → Except SourceError (List AssignmentLine)
  | [] => .ok []
  | line :: rest =>
    match AssignmentLine.ofChars? line with
    | none => .error ⟨number⟩
    | some first =>
      match readLines (number + 1) rest with
      | .error error => .error error
      | .ok more => .ok (first :: more)

/-- Adds an assignment statement to an arena. -/
def addLine (arena : Arena) (line : AssignmentLine) : NodeId × Arena :=
  let (target, arena) := arena.addExpr (.ident line.name)
  let (value, arena) := arena.addExpr (.int line.value)
  arena.addStmt (.assign .plain target value)

/-- Adds assignment statements to an arena, in order. -/
def addLines (arena : Arena) : List AssignmentLine → List NodeId × Arena
  | [] => ([], arena)
  | line :: rest =>
    let (id, arena) := addLine arena line
    let (ids, arena) := addLines arena rest
    (id :: ids, arena)

/-- The program of some assignments. -/
def toTree (lines : List AssignmentLine) : Tree :=
  let (body, arena) := addLines {} lines
  let (root, arena) := arena.addDef (.program body none none)
  ⟨arena, root⟩

/-- Reads a source text into a tree. -/
def parse (source : String) : Except SourceError Tree :=
  match readLines 1 (Text.lines source.toList) with
  | .error error => .error error
  | .ok lines => .ok (toTree lines)

end Assignments

end Interlingua
