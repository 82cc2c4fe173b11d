import Interlingua.Emit.Basic
import Interlingua.Source.Assignments

/-!
# From source text to source text

A pipeline reads a source language into trees and prints them in a target language.  What reads
the source has errors of its own, which are passed on as they are.

* `Pipeline.run` — reads a text and prints what was read.
* `Pipeline.render` — prints a tree that was read already.
-/

namespace Interlingua

/-- Why a text did not get through a pipeline whose source errors are `ε`. -/
inductive PipelineError (ε : Type) where
  /-- The source was refused. -/
  | source (error : ε)
  /-- The tree cannot be printed. -/
  | emit (error : EmitError)
  deriving DecidableEq, Repr

/-- A way from a source language, whose errors are `ε`, to a target language. -/
structure Pipeline (ε : Type) where
  read : String → Except ε Tree
  target : Language
  options : Options

namespace Pipeline

variable {ε : Type}

/-- Prints a tree that was read already. -/
def render (pipeline : Pipeline ε) (tree : Tree) : Except EmitError String :=
  tree.emit pipeline.target pipeline.options

/-- Reads a source text and prints it. -/
def run (pipeline : Pipeline ε) (source : String) : Except (PipelineError ε) String :=
  match pipeline.read source with
  | .error error => .error (.source error)
  | .ok tree =>
    match pipeline.render tree with
    | .error error => .error (.emit error)
    | .ok text => .ok text

/-- The pipeline from the assignment language. -/
def ofAssignments (target : Language) (options : Options) : Pipeline SourceError :=
  ⟨Assignments.parse, target, options⟩

end Pipeline

end Interlingua
