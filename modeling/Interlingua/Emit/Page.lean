import Interlingua.Options

/-!
# Pages

The text written so far, and the indentation that its next line gets.
-/

namespace Interlingua

/-- A text in the making. -/
structure Page where
  output : String := ""
  /-- Level of indentation. -/
  level : Nat := 0
  /-- Blanks for each level. -/
  width : Nat := Options.standardWidth
  deriving DecidableEq, Repr

namespace Page

/-- An empty page with the indentation width of some options. -/
def blank (options : Options) : Page :=
  { width := options.indentWidth.getD Options.standardWidth }

def indent (page : Page) : Page := { page with level := page.level + 1 }

/-- One level less, if there is one. -/
def dedent? (page : Page) : Option Page :=
  match page.level with
  | 0 => none
  | level + 1 => some { page with level := level }

def write (page : Page) (text : String) : Page := { page with output := page.output ++ text }

/-- The blanks that a line starts with. -/
def margin (page : Page) : String :=
  String.ofList (List.replicate (page.level * page.width) ' ')

def writeMargin (page : Page) : Page := page.write page.margin

/-- Writes a whole line, indented. -/
def writeLine (page : Page) (text : String) : Page := page.write (page.margin ++ text ++ "\n")

def newline (page : Page) : Page := page.write "\n"

/-- Whether nothing, or an empty line, stands right before. -/
def atParagraph (page : Page) : Bool :=
  match page.output.toList.reverse with
  | [] => true
  | '\n' :: '\n' :: _ => true
  | _ => false

end Page

end Interlingua
