import Interlingua.Proofs.Emit.Agreement
import Interlingua.Proofs.Lockstep.Expr

/-!
# Printing in lockstep

* `Spot` — where two printers are: the level of indentation, the frames around the innermost one,
  and the loops around the statement at hand.
* `Tie.At` — two printers at one place whose pages show the same.
* `Tie.Prints` — computations that print the same and come back to the place they started from.
* the steps that every statement is printed with: each has a rule.  A step that opens something
  moves the printers to another place, and the step that closes it moves them back.
-/

namespace Interlingua

theorem Text.ink_newline : ink "\n" = [] := by decide

theorem Page.ink_margin (page : Page) : Text.ink page.margin = [] := by
  simp only [margin, Text.ink, String.toList_ofList, List.filter_eq_nil_iff]
  intro c hc
  obtain ⟨-, rfl⟩ := List.mem_replicate.1 hc
  decide

/-- A line shows its text. -/
theorem Page.ink_writeLine (page : Page) (text : String) :
    Text.ink (page.writeLine text).output = Text.ink page.output ++ Text.ink text := by
  simp [writeLine, write, ink_margin, Text.ink_newline]

theorem Page.ink_newline (page : Page) : Text.ink page.newline.output = Text.ink page.output := by
  simp [newline, write, Text.ink_newline]

/-- Where two printers are. -/
structure Spot where
  level : Nat
  /-- The frames around the innermost one, and their number. -/
  around : List Frame × Nat
  /-- The loops around the statement that the first one prints. -/
  loops : List Loop
  loops' : List Loop

namespace Spot

/-- One level deeper. -/
def deeper (here : Spot) : Spot := { here with level := here.level + 1 }

/-- Inside a new frame; the frame that was the innermost is one of those around it. -/
def inside (here : Spot) (frame : Frame) : Spot :=
  { here with around := (frame :: here.around.1, here.around.2 + 1) }

/-- Inside a loop. -/
def looping (here : Spot) (loop loop' : Loop) : Spot :=
  { here with loops := loop :: here.loops, loops' := loop' :: here.loops' }

end Spot

namespace Tie

variable {left right : View} (tie : Tie left right)

/-- Ends of rounds that do the same. -/
inductive Ending : RoundEnd → RoundEnd → Prop
  | update {m n : Nat} {a b : NodeId} (h : tie.exprs m n a b) : Ending (.update a) (.update b)
  | check {m n : Nat} {a b : NodeId} (h : tie.exprs m n a b) : Ending (.check a) (.check b)

/-- Loops that end their rounds alike. -/
structure Looped (loop loop' : Loop) : Prop where
  id : ∃ m n demand, tie.pair m n demand loop.id loop'.id
  tail : Option.Rel tie.Ending loop.tail loop'.tail

/-- Two printers at one place whose pages show the same. -/
structure At (here : Spot) (s s' : Printer) : Prop where
  ink : Text.ink s.page.output = Text.ink s'.page.output
  page : tie.exact → s.page = s'.page
  level : s.page.level = here.level
  level' : s'.page.level = here.level
  scope : s.scope = s'.scope
  around : s.scope.around = here.around
  loops : s.loops = here.loops
  loops' : s'.loops = here.loops'
  tied : List.Forall₂ tie.Looped here.loops here.loops'

/-- Computations that print the same and come back to where they started. -/
abbrev Prints {α β : Type} (value : α → β → Prop) (x : Emit α) (y : Emit β) : Prop :=
  Keeps tie.Error tie.At value x y

/-- Computations that print the same and get from one place to another. -/
abbrev Moves {α β : Type} (here there : Spot) (value : α → β → Prop) (x : Emit α) (y : Emit β) :
    Prop :=
  Lockstep tie.Error (tie.At here) (tie.At there) value x y

variable {tie} {α β : Type} {value : α → β → Prop} {here there : Spot}

/-! ## Lines -/

theorem line (text : String) : tie.Prints Eq (Emit.line text) (Emit.line text) := by
  intro here s s' h
  refine .ok rfl { h with ink := ?_, page := fun hexact => ?_ }
  · rw [Page.ink_writeLine, Page.ink_writeLine, h.ink]
  · exact congrArg (·.writeLine text) (h.page hexact)

theorem blankLine : tie.Prints Eq Emit.blankLine Emit.blankLine := by
  intro here s s' h
  refine .ok rfl { h with ink := ?_, page := fun hexact => ?_ }
  · rw [Page.ink_newline, Page.ink_newline, h.ink]
  · exact congrArg Page.newline (h.page hexact)

/-- Lines that do not depend on a tree. -/
theorem linesOf (texts : List α) (write : α → String) :
    tie.Prints Eq (texts.forM fun text => Emit.line (write text))
      (texts.forM fun text => Emit.line (write text)) :=
  Keeps.forM (List.forall₂_same.2 fun _ _ => rfl) fun _ _ heq => heq ▸ line _

/-! ## What is opened and closed -/

theorem indent : tie.Moves here here.deeper Eq Emit.indent Emit.indent := by
  intro s s' h
  refine .ok rfl { h with page := fun hexact => ?_, level := ?_, level' := ?_ }
  · exact congrArg Page.indent (h.page hexact)
  · exact congrArg (· + 1) h.level
  · exact congrArg (· + 1) h.level'

theorem dedent : tie.Moves here.deeper here Eq Emit.dedent Emit.dedent := by
  intro s s' h
  have hdedent (page : Page) (hlevel : page.level = here.level + 1) :
      page.dedent? = some { page with level := here.level } := by
    unfold Page.dedent?
    rw [hlevel]
  have hrun (printer : Printer) (hlevel : printer.page.level = here.level + 1) :
      Emit.dedent printer =
        .ok () { printer with page := { printer.page with level := here.level } } := by
    have hget : (get : Emit Printer) printer = .ok printer printer := rfl
    rw [Emit.dedent, bind_of_ok hget, hdedent _ hlevel]
    rfl
  rw [hrun s h.level, hrun s' h.level']
  refine .ok rfl { h with page := fun hexact => ?_, level := rfl, level' := rfl }
  rw [h.page hexact]

/-- Inside a frame that is opened, whatever frame it is opened in. -/
theorem enter {x : Unit → Emit α} {y : Unit → Emit β}
    (h : ∀ frame, tie.Moves (here.inside frame) there value (x ()) (y ())) :
    tie.Moves here there value (Emit.enter >>= x) (Emit.enter >>= y) := by
  intro s s' hs
  refine h s.scope.inner { hs with scope := ?_, around := ?_ }
  · simp [hs.scope]
  · exact congrArg (fun around => (s.scope.inner :: around.1, around.2 + 1)) hs.around

theorem leave {frame : Frame} :
    tie.Moves (here.inside frame) here Eq Emit.leave Emit.leave := by
  intro s s' h
  let back : Scope := ⟨frame, here.around.1, here.around.2⟩
  have hrun (printer : Printer) (haround : printer.scope.around = (here.inside frame).around) :
      Emit.leave printer = .ok () { printer with scope := back } := by
    have hleave : printer.scope.leave true = .ok back := Scope.leave_of_around haround true
    have hget : (get : Emit Printer) printer = .ok printer printer := rfl
    rw [Emit.leave, bind_of_ok hget, hleave]
    rfl
  rw [hrun s h.around, hrun s' (h.scope ▸ h.around)]
  exact .ok rfl { h with scope := rfl, around := rfl }

theorem inLoop {loop loop' : Loop} {body body' : Emit Unit} (hloop : tie.Looped loop loop')
    (h : tie.Prints Eq body body') :
    tie.Prints Eq (Emit.inLoop loop body) (Emit.inLoop loop' body') := by
  intro here
  have hpush : tie.Moves here (here.looping loop loop') Eq
      (modify fun printer => { printer with loops := loop :: printer.loops })
      (modify fun printer => { printer with loops := loop' :: printer.loops }) := by
    refine .of_ok fun s s' hs => { hs with loops := ?_, loops' := ?_, tied := .cons hloop hs.tied }
    · exact congrArg (loop :: ·) hs.loops
    · exact congrArg (loop' :: ·) hs.loops'
  have hpop : tie.Moves (here.looping loop loop') here Eq
      (modify fun printer => { printer with loops := printer.loops.tail })
      (modify fun printer => { printer with loops := printer.loops.tail }) := by
    refine .of_ok fun s s' hs => { hs with loops := ?_, loops' := ?_, tied := ?_ }
    · exact congrArg List.tail hs.loops
    · exact congrArg List.tail hs.loops'
    · exact (List.forall₂_cons.1 hs.tied).2
  exact hpush.andThen ((h _).andThen hpop)

/-! ## What the scope is used for -/

theorem setVariable (name : String) (ty : Ty) :
    tie.Prints Eq (Emit.setVariable name ty) (Emit.setVariable name ty) := by
  intro here s s' h
  exact .ok rfl { h with scope := congrArg (·.setVariable name ty) h.scope }

theorem run_liftM_render (x : Render α) (printer : Printer) :
    (liftM x : Emit α) printer =
      match x printer.scope with
      | .ok value scope => .ok value { printer with scope := scope }
      | .error error scope => .error error { printer with scope := scope } :=
  rfl

theorem rendering {x : Render α} {y : Render β} (h : tie.Renders value x y) :
    tie.Prints value (liftM x) (liftM y) := by
  intro here s s' hs
  rw [run_liftM_render, run_liftM_render]
  have hends := h here.around ⟨hs.scope, hs.around⟩
  generalize x s.scope = r at hends
  generalize y s'.scope = r' at hends
  cases hends with
  | ok h hscope => exact .ok h { hs with scope := hscope.1, around := hscope.2 }
  | error h => exact .error h

theorem inferring {x : Infer α} {y : Infer β} (h : tie.Infers value x y) :
    tie.Prints value (Emit.infer x) (Emit.infer y) :=
  rendering (Renders.infer h)

theorem follow {x : Except Fault α} {y : Except Fault β} (h : Concur tie.fault value x y) :
    tie.Prints value (Emit.follow x) (Emit.follow y) :=
  rendering (Renders.follow h)

theorem allowed {x : Except EmitError α} {y : Except EmitError β} (h : Concur tie.Error value x y) :
    tie.Prints value (Emit.allowed x) (Emit.allowed y) :=
  rendering (Renders.allowed h)

theorem print_expr {m n : Nat} {a b : NodeId} (h : tie.exprs m n a b) :
    tie.Prints Eq (liftM (left.expr a)) (liftM (right.expr b)) :=
  rendering (render_expr h)

/-! ## Lists of parts -/

variable (tie) in
/-- Printings of what lies below tied nodes that do the same. -/
def Prints.Below (m n : Nat) (below below' : NodeId → Emit Unit) : Prop :=
  ∀ {demand a b}, tie.pair m n demand a b → tie.Prints Eq (below a) (below' b)

variable {m n : Nat} {below below' : NodeId → Emit Unit}
  (hbelow : Prints.Below tie m n below below')
include hbelow

theorem items {demand : Option Category} {ids ids' : List NodeId}
    (h : List.Forall₂ (tie.pair m n demand) ids ids') :
    tie.Prints Eq (ids.forM below) (ids'.forM below') :=
  Keeps.forM h fun _ _ hid => hbelow hid

theorem preamble {ids ids' : List NodeId} (h : List.Forall₂ (tie.pair m n none) ids ids') :
    tie.Prints Eq (Emit.preamble below ids) (Emit.preamble below' ids') := by
  have hempty : ids.isEmpty = ids'.isEmpty := by cases h <;> rfl
  unfold Emit.preamble
  rw [hempty]
  exact (items hbelow h).bindEq fun _ => .ite blankLine (.pure rfl)

theorem definitions {ids ids' : List NodeId} (h : List.Forall₂ (tie.pair m n none) ids ids') :
    tie.Prints Eq (Emit.definitions below ids) (Emit.definitions below' ids') :=
  Keeps.forM h fun _ _ hid => (hbelow hid).bindEq fun _ => blankLine

theorem spaced {previous previous' : Option NodeId} {ids ids' : List NodeId}
    (hprevious : Option.Rel (tie.pair m n none) previous previous')
    (h : List.Forall₂ (tie.pair m n none) ids ids') :
    tie.Prints Eq (Emit.spaced left.arena below previous ids)
      (Emit.spaced right.arena below' previous' ids') := by
  induction h generalizing previous previous' with
  | nil => exact .pure rfl
  | cons hitem _ ih =>
    unfold Emit.spaced
    have hrest := (hbelow hitem).bindEq fun _ => ih (.some hitem)
    cases hprevious with
    | none => exact hrest
    | some hprevious =>
      refine Keeps.bindEq (follow ?_) fun apart => .ite (blankLine.bindEq fun _ => hrest) hrest
      exact (isDefinition hitem).bindEq fun _ => .ite (.ok rfl) (isDefinition hprevious)

end Tie

end Interlingua
