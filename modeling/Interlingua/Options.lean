import Interlingua.Language.Basic
import Interlingua.Text.Blank
import Interlingua.Text.Numeral

/-!
# Options

What a caller may choose about a rendering.

* `Key`, `Setting` — a key, and a key with its value; `Setting.parse` reads one from text.
* `Options` — at most one value for each key; the last one given counts.
* `Options.merge` — both, the second one's values winning.
* `Language.defaults` — what a language sets before the caller does.
-/

namespace Interlingua

/-- Options that are on or off. -/
inductive Flag where
  /-- An opening brace ends the line of its header, rather than standing on its own. -/
  | bracesOnSameLine
  /-- The body of every case of a switch stands in braces. -/
  | bracesAroundCases
  /-- A variable is declared at its first assignment. -/
  | autoDeclaration
  /-- Loose statements are put into the program skeleton of the language. -/
  | unitMode
  /-- Conjunctions of comparisons are kept as they are instead of being chained. -/
  | keepComparisons
  /-- A lone expression is written bare. -/
  | expressionMode
  deriving DecidableEq, Repr

def Flag.all : List Flag :=
  [.bracesOnSameLine, .bracesAroundCases, .autoDeclaration, .unitMode, .keepComparisons,
    .expressionMode]

inductive Key where
  | flag (name : Flag)
  | indentWidth
  deriving DecidableEq, Repr

namespace Key

/-- Every key, in the order that options are listed in. -/
def all : List Key := Flag.all.map .flag ++ [.indentWidth]

/-- How a key is written. -/
def text : Key → String
  | .flag .bracesOnSameLine => "braces-on-same-line"
  | .flag .bracesAroundCases => "braces-around-case-branches"
  | .flag .autoDeclaration => "auto-variable-declaration"
  | .flag .unitMode => "translation-unit-mode"
  | .flag .keepComparisons => "disable-compound-comparison-conversion"
  | .flag .expressionMode => "expression-mode"
  | .indentWidth => "indent-width"

/-- The key that a text writes; underscores count as dashes, and blanks around it do not count. -/
def ofText? (s : String) : Option Key :=
  let written := (Text.trim s.toList).map fun c => if c = '_' then '-' else c
  all.find? fun key => key.text.toList == written

end Key

/-- A key with its value. -/
inductive Setting where
  | flag (name : Flag) (value : Bool)
  | indentWidth (width : Nat)
  deriving DecidableEq, Repr

/-- Why a text names no option or no value. -/
inductive OptionError where
  | unknownKey (key : String)
  | invalidValue (key value expected : String)
  deriving DecidableEq, Repr

def OptionError.message : OptionError → String
  | .unknownKey key => "unknown configuration key `" ++ key ++ "`"
  | .invalidValue key value expected =>
      "invalid value `" ++ value ++ "` for `" ++ key ++ "`: expected " ++ expected

namespace Setting

def key : Setting → Key
  | .flag name _ => .flag name
  | .indentWidth _ => .indentWidth

/-- Whether a setting puts a flag on. -/
def isOn : Setting → Bool
  | .flag _ value => value
  | .indentWidth _ => false

/-- The truth value that a text writes, whatever the case of its letters. -/
def readFlag? (s : List Char) : Option Bool :=
  let word := String.ofList (s.map Char.toLower)
  if ["true", "on", "yes", "1"].contains word then some true
  else if ["false", "off", "no", "0"].contains word then some false
  else none

/-- Reads a key and its value. -/
def parse (key value : String) : Except OptionError Setting :=
  match Key.ofText? key with
  | none => .error (.unknownKey key)
  | some key =>
    let trimmed := Text.trim value.toList
    let refusal (expected : String) : Except OptionError Setting :=
      .error (.invalidValue key.text (String.ofList trimmed) expected)
    match key with
    | .flag name =>
      match readFlag? trimmed with
      | some value => .ok (.flag name value)
      | none => refusal "a boolean"
    | .indentWidth =>
      match Text.readUnsigned? trimmed with
      | some width => .ok (.indentWidth width)
      | none => refusal "a number of spaces"

end Setting

/-- At most one value for each key. -/
structure Options where
  bracesOnSameLine : Option Bool := none
  bracesAroundCases : Option Bool := none
  autoDeclaration : Option Bool := none
  unitMode : Option Bool := none
  keepComparisons : Option Bool := none
  expressionMode : Option Bool := none
  indentWidth : Option Nat := none
  deriving DecidableEq, Repr

namespace Options

/-- The value of a flag. -/
def flag? (options : Options) : Flag → Option Bool
  | .bracesOnSameLine => options.bracesOnSameLine
  | .bracesAroundCases => options.bracesAroundCases
  | .autoDeclaration => options.autoDeclaration
  | .unitMode => options.unitMode
  | .keepComparisons => options.keepComparisons
  | .expressionMode => options.expressionMode

/-- The setting of a key. -/
def get? (options : Options) : Key → Option Setting
  | .flag name => (options.flag? name).map (.flag name)
  | .indentWidth => options.indentWidth.map .indentWidth

/-- The options with one more setting, which counts instead of an earlier one. -/
def put (options : Options) : Setting → Options
  | .flag .bracesOnSameLine value => { options with bracesOnSameLine := some value }
  | .flag .bracesAroundCases value => { options with bracesAroundCases := some value }
  | .flag .autoDeclaration value => { options with autoDeclaration := some value }
  | .flag .unitMode value => { options with unitMode := some value }
  | .flag .keepComparisons value => { options with keepComparisons := some value }
  | .flag .expressionMode value => { options with expressionMode := some value }
  | .indentWidth width => { options with indentWidth := some width }

/-- The settings, in the order of their keys. -/
def toList (options : Options) : List Setting := Key.all.filterMap options.get?

/-- The options that settings make, the last one for each key counting. -/
def ofList (settings : List Setting) : Options := settings.foldl put {}

/-- Reads keys and values, up to the first that is refused. -/
def parse (pairs : List (String × String)) : Except OptionError Options := do
  let settings ← pairs.mapM fun (key, value) => Setting.parse key value
  return ofList settings

/-- Both options; where both have a value, that of the second counts. -/
def merge (first second : Options) : Options where
  bracesOnSameLine := second.bracesOnSameLine.or first.bracesOnSameLine
  bracesAroundCases := second.bracesAroundCases.or first.bracesAroundCases
  autoDeclaration := second.autoDeclaration.or first.autoDeclaration
  unitMode := second.unitMode.or first.unitMode
  keepComparisons := second.keepComparisons.or first.keepComparisons
  expressionMode := second.expressionMode.or first.expressionMode
  indentWidth := second.indentWidth.or first.indentWidth

/-- All options, later ones winning. -/
def mergeAll (all : List Options) : Options := all.foldl merge {}

/-- The settings that satisfy a test. -/
def filter (options : Options) (keep : Setting → Bool) : Options :=
  ofList (options.toList.filter keep)

/-- The number of settings. -/
def size (options : Options) : Nat := options.toList.length

def isEmpty (options : Options) : Bool := options.toList.isEmpty

/-- The truth value of a key; the given one if the key has none. -/
def flagOr (options : Options) (key : Key) (otherwise : Bool) : Bool :=
  match options.get? key with
  | some (.flag _ value) => value
  | _ => otherwise

/-- The number of a key; the given one if the key has none. -/
def countOr (options : Options) (key : Key) (otherwise : Nat) : Nat :=
  match options.get? key with
  | some (.indentWidth width) => width
  | _ => otherwise

/-- Whether a flag is on; it is off if it has no value. -/
def isOn (options : Options) (flag : Flag) : Bool := (options.flag? flag).getD false

/-- The width of one level of indentation, unless the options have another. -/
def standardWidth : Nat := 4

end Options

namespace Language

/-- What a language sets before the caller does. -/
def defaults : Language → Options
  | .java | .cpp =>
    { bracesOnSameLine := some true, autoDeclaration := some true,
      indentWidth := some Options.standardWidth }
  | .python => { unitMode := some true, indentWidth := some Options.standardWidth }

/-- The language that a text names, whatever the case of its letters and the blanks around. -/
def parse (s : String) : Except OptionError Language :=
  match String.ofList ((Text.trim s.toList).map Char.toLower) with
  | "java" => .ok .java
  | "python" | "py" => .ok .python
  | "c++" | "cpp" => .ok .cpp
  | _ => .error (.invalidValue "language" s "one of java, python, c++")

end Language

end Interlingua
