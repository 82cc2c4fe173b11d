import Interlingua.Proofs.Lockstep.Braced
import Interlingua.Proofs.Lockstep.Python

/-!
# Whole trees in lockstep

* `Tie.print_node` — tied nodes are printed alike, in whichever language the two views share.
* `Tie.emit` — views whose roots are tied give texts that show the same, or fail alike.
-/

namespace Interlingua

namespace Tie

variable {left right : View} {tie : Tie left right} {m n : Nat} {demand : Option Category}
  {a b : NodeId}

/-- **Tied nodes are printed alike.** -/
theorem print_node (h : tie.pair m n demand a b) :
    tie.Prints Eq (left.node a) (right.node b) := by
  unfold View.node
  rw [tie.lang_eq]
  cases right.lang with
  | java => exact braced_node java_idiomatic h
  | python => exact python_node h
  | cpp => exact braced_node cpp_idiomatic h

theorem print_program (h : tie.pair m n demand left.tree.root right.tree.root) :
    tie.Prints Eq left.program right.program :=
  (inferring (infer_programFunctions h)).bindEq fun _ => print_node h

theorem bare? (h : tie.pair m n demand left.tree.root right.tree.root) :
    Concur tie.fault (Option.Rel (tie.exprs left.arena.depthBound right.arena.depthBound))
      left.bare? right.bare? := by
  unfold View.bare?
  rw [tie.isOn_eq_of_ne .expressionMode nofun]
  exact .ite (soleExpressionTo? (tie.restart h)) (.ok .none)

/-- Before anything is printed, the pages show nothing. -/
theorem at_start (hpage : tie.exact → left.start.page = right.start.page) :
    tie.At ⟨0, ([], 0), [], []⟩ left.start right.start where
  ink := rfl
  page := hpage
  level := rfl
  level' := rfl
  scope := rfl
  around := rfl
  loops := rfl
  loops' := rfl
  tied := .nil

variable (tie) in
/-- Texts that show the same, and are the same if blanks count. -/
def Texts (text text' : String) : Prop :=
  Text.ink text = Text.ink text' ∧ (tie.exact → text = text')

/-- **Views whose roots are tied give texts that show the same, or fail alike.** -/
theorem emit (h : tie.pair m n demand left.tree.root right.tree.root)
    (hpage : tie.exact → left.start.page = right.start.page) :
    Concur tie.Error tie.Texts left.emit right.emit := by
  unfold View.emit
  have hbare := bare? h
  generalize left.bare? = bare at hbare
  generalize right.bare? = bare' at hbare
  cases hbare with
  | error hfault => exact .error (.fault hfault)
  | ok hbare =>
    cases hbare with
    | @some id id' hexpr =>
      have hends := render_expr hexpr ([], 0) (s := {}) (t := {}) ⟨rfl, rfl⟩
      dsimp only
      generalize left.expr id {} = r at hends
      generalize right.expr id' {} = r' at hends
      cases hends with
      | ok heq _ => exact .ok ⟨congrArg Text.ink heq, fun _ => heq⟩
      | error herror => exact .error herror
    | none =>
      have hends := print_program h _ (at_start hpage)
      dsimp only
      generalize left.program left.start = r at hends
      generalize right.program right.start = r' at hends
      cases hends with
      | ok _ hat => exact .ok ⟨hat.ink, fun hexact => congrArg Page.output (hat.page hexact)⟩
      | error herror => exact .error herror

end Tie

end Interlingua
