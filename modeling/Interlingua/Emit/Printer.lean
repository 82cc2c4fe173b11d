import Interlingua.Emit.Expr.Basic
import Interlingua.Emit.Page
import Interlingua.Emit.Sections
import Interlingua.Text.Blank

/-!
# Printing statements

* `Printer` — the page, the scope, and the loops around the statement at hand.
* `Emit` — computations that print; they may fail.
* the steps that every statement is printed with: lines, indentation, frames.
-/

namespace Interlingua

/-- What a loop does after each round of its body, where the language has no place for it in the
header. -/
inductive RoundEnd where
  /-- An expression is evaluated. -/
  | update (id : NodeId)
  /-- The loop ends unless a condition holds. -/
  | check (id : NodeId)
  deriving DecidableEq, Repr

/-- A loop that is being printed. -/
structure Loop where
  id : NodeId
  tail : Option RoundEnd
  deriving DecidableEq, Repr

structure Printer where
  page : Page
  scope : Scope := {}
  /-- The loops around the statement at hand, the innermost first. -/
  loops : List Loop := []

/-- Computations that print. -/
abbrev Emit := EStateM EmitError Printer

instance : MonadLift Render Emit where
  monadLift action := fun printer =>
    match action printer.scope with
    | .ok value scope => .ok value { printer with scope := scope }
    | .error error scope => .error error { printer with scope := scope }

namespace Emit

/-- Prints a line. -/
def line (text : String) : Emit Unit :=
  modify fun printer => { printer with page := printer.page.writeLine text }

/-- Prints an empty line. -/
def blankLine : Emit Unit :=
  modify fun printer => { printer with page := printer.page.newline }

def indent : Emit Unit :=
  modify fun printer => { printer with page := printer.page.indent }

def dedent : Emit Unit := do
  let printer ← get
  match printer.page.dedent? with
  | some page => set { printer with page := page }
  | none => throw .indentUnderflow

/-- Opens a frame. -/
def enter : Emit Unit :=
  modify fun printer => { printer with scope := printer.scope.enter }

/-- Closes a frame. -/
def leave : Emit Unit := do
  let printer ← get
  match printer.scope.leave true with
  | .ok scope => set { printer with scope := scope }
  | .error error => throw (.scope error)

/-- Gives a variable a type in the innermost frame. -/
def setVariable (name : String) (ty : Ty) : Emit Unit :=
  modify fun printer => { printer with scope := printer.scope.setVariable name ty }

/-- Runs inference on the scope. -/
def infer {α : Type} (action : Infer α) : Emit α := liftM (liftM action : Render α)

/-- Follows a reference. -/
def follow {α : Type} (result : Except Fault α) : Emit α := liftM (liftM result : Render α)

/-- What a language may refuse. -/
def allowed {α : Type} (result : Except EmitError α) : Emit α := liftM (liftM result : Render α)

/-- Prints inside a loop. -/
def inLoop (loop : Loop) (body : Emit Unit) : Emit Unit := do
  modify fun printer => { printer with loops := loop :: printer.loops }
  body
  modify fun printer => { printer with loops := printer.loops.tail }

/-- Prints items one after another, with an empty line around each definition. -/
def spaced (arena : Arena) (node : NodeId → Emit Unit) (previous : Option NodeId) :
    List NodeId → Emit Unit
  | [] => pure ()
  | item :: rest => do
    match previous with
    | none => pure ()
    | some previous =>
      let apart ← follow do
        if ← arena.isDefinition item then return true else arena.isDefinition previous
      if apart then blankLine
    node item
    spaced arena node (some item) rest

/-- What stands before the definitions of a program, set off by an empty line. -/
def preamble (below : NodeId → Emit Unit) (items : List NodeId) : Emit Unit := do
  items.forM below
  if !items.isEmpty then blankLine

/-- Definitions, an empty line after each. -/
def definitions (below : NodeId → Emit Unit) (items : List NodeId) : Emit Unit :=
  items.forM fun item => do
    below item
    blankLine

end Emit

end Interlingua
