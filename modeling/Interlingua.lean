import Interlingua.Arena.Basic
import Interlingua.Arena.Edit
import Interlingua.Arena.Same
import Interlingua.Decimal.Notation
import Interlingua.Decimal.Shortest
import Interlingua.Emit.Basic
import Interlingua.Emit.Counting
import Interlingua.Emit.Expr.Basic
import Interlingua.Emit.Expr.Braced
import Interlingua.Emit.Expr.Cpp
import Interlingua.Emit.Expr.Java
import Interlingua.Emit.Expr.Python
import Interlingua.Emit.Page
import Interlingua.Emit.Printer
import Interlingua.Emit.Render
import Interlingua.Emit.Sections
import Interlingua.Emit.Stmt.Braced
import Interlingua.Emit.Stmt.Cpp
import Interlingua.Emit.Stmt.Java
import Interlingua.Emit.Stmt.Python
import Interlingua.Language.Basic
import Interlingua.Language.Cpp
import Interlingua.Language.Java
import Interlingua.Language.Python
import Interlingua.Language.Vocabulary
import Interlingua.Node.Basic
import Interlingua.Node.Children
import Interlingua.Operator
import Interlingua.Options
import Interlingua.Pipeline
import Interlingua.Proofs.Arena.Grounded
import Interlingua.Scope.Basic
import Interlingua.Scope.Infer
import Interlingua.Source.Assignments
import Interlingua.Table
import Interlingua.Text.Blank
import Interlingua.Text.Canonical
import Interlingua.Text.Escaped
import Interlingua.Text.Extending
import Interlingua.Text.Invisible
import Interlingua.Text.Letter
import Interlingua.Text.Numeral
import Interlingua.Text.Quoted
import Interlingua.Text.Ranges
import Interlingua.Text.Slice
import Interlingua.Token.Basic
import Interlingua.Token.Concrete
import Interlingua.Token.Grouping
import Interlingua.Token.Linear
import Interlingua.Tree.Outline
import Interlingua.Tree.Walk
import Interlingua.Ty
import Interlingua.Proofs.Token.Term
import Interlingua.Proofs.Token.Binding
import Interlingua.Proofs.Token.Climbing
import Interlingua.Proofs.Text.Quoted
import Interlingua.Proofs.Token.Readability
import Interlingua.Proofs.Emit.Agreement
import Interlingua.Proofs.Loop.Lowering
import Interlingua.Proofs.Loop.Layout
import Interlingua.Proofs.Loop.Tree
import Interlingua.Proofs.Loop.Printing
import Interlingua.Proofs.Loop.Behavior
import Interlingua.Proofs.Arena.History
import Interlingua.Proofs.Lockstep.Basic
import Interlingua.Proofs.Lockstep.Node
import Interlingua.Proofs.Lockstep.Tie
import Interlingua.Proofs.Lockstep.Infer
import Interlingua.Proofs.Lockstep.Analysis
import Interlingua.Proofs.Lockstep.Expr
import Interlingua.Proofs.Lockstep.Printer
import Interlingua.Proofs.Lockstep.Braced
import Interlingua.Proofs.Lockstep.Python
import Interlingua.Proofs.Emit.Layout
import Interlingua.Proofs.Tree.Walk
import Interlingua.Proofs.Emit.Structure
import Interlingua.Proofs.Text.Slice
import Interlingua.Proofs.Token.NodeKinds
import Interlingua.Proofs.Token.Sketch
import Interlingua.Proofs.Token.Drawing
import Interlingua.Proofs.Arena.Unfolding
import Interlingua.Proofs.Surface.Scan
import Interlingua.Proofs.Surface.Words
import Interlingua.Proofs.Surface.Types
import Interlingua.Proofs.Surface.Phrases
import Interlingua.Proofs.Surface.Operands
import Interlingua.Proofs.Surface.Braced
import Interlingua.Proofs.Surface.Python
import Interlingua.Proofs.Surface.Clear
import Interlingua.Proofs.Jump.Nesting
import Interlingua.Proofs.Jump.Fragments
import Interlingua.Proofs.Jump.Braced
import Interlingua.Proofs.Jump.Python
import Interlingua.Proofs.Jump.Destination
import Interlingua.Proofs.Scope.Frames
import Interlingua.Proofs.Arena.Ownership
import Interlingua.Proofs.Token.Frontier
import Interlingua.Proofs.Emit.Shared
import Interlingua.Proofs.Source.Retraction
import Interlingua.Proofs.Counting.Loop
import Interlingua.Proofs.Counting.Headers
import Interlingua.Proofs.Switch.Printing
import Interlingua.Proofs.Suite.Printing
import Interlingua.Proofs.Effect.Once
import Interlingua.Proofs.Naming.Automatic
import Interlingua.Proofs.Naming.Chained
import Interlingua.Proofs.Naming.Cases
import Interlingua.Proofs.Counting.Steps
import Interlingua.Proofs.Chain.Compound
import Interlingua.Proofs.Token.Minimal
import Interlingua.Proofs.Token.Operands
import Interlingua.Proofs.Token.Soundness
import Interlingua.Proofs.Emit.Fusion
import Interlingua.Proofs.Text.Respacing
import Interlingua.Proofs.Scope.Known
import Interlingua.Proofs.Token.Named
import Interlingua.Proofs.Scope.Operations
import Interlingua.Proofs.Scope.Local
import Interlingua.Proofs.Scope.Elements
import Interlingua.Proofs.Arena.Edits
import Interlingua.Proofs.Tree.Preorder
import Interlingua.Proofs.Tree.Outline
import Interlingua.Proofs.Emit.Format
import Interlingua.Proofs.Options.Merging
import Interlingua.Proofs.Arena.Listing
import Interlingua.Proofs.Emit.Literals
import Interlingua.Proofs.Fields.Balance
import Interlingua.Proofs.Fields.Expressions
import Interlingua.Proofs.Fields.Reading
