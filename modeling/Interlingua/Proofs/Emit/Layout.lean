import Interlingua.Proofs.Lockstep.View

/-!
# Balance and layout

* `Options.AgreeButLayout` — options that choose the same about everything but the place of braces
  and the width of the indentation.
* `Tie.layout` — two views of one tree under such options are tied, each identity to itself.
* `View.node_balanced`, `View.expr_balanced` — a printing that succeeds closes whatever it opens.
* `Tree.emit_balanced` — so an emission never closes what is not open.
* `Tree.emit_layout` — the layout makes no difference but in blanks.
-/

namespace Interlingua

/-! ## Views that differ in their layout -/

/-- Options that choose the same about everything but the place of braces and the width of the
indentation. -/
def Options.AgreeButLayout (first second : Options) : Prop :=
  ∀ key : Key, key ≠ .flag .bracesOnSameLine → key ≠ .indentWidth → first.get? key = second.get? key

theorem Options.AgreeButLayout.flag?_eq {first second : Options} (h : first.AgreeButLayout second)
    {flag : Flag} (hne : flag ≠ .bracesOnSameLine) : first.flag? flag = second.flag? flag := by
  have hget := h (.flag flag) (fun heq => hne (Key.flag.inj heq)) nofun
  simp only [get?] at hget
  exact Option.map_injective (fun _ _ heq => (Setting.flag.inj heq).2) hget

theorem Options.flag?_merge (first second : Options) (flag : Flag) :
    (first.merge second).flag? flag = (second.flag? flag).or (first.flag? flag) := by
  cases flag <;> rfl

/-- What a language sets is no layout that the caller's options could differ in. -/
theorem View.isOn_make_eq (tree : Tree) (lang : Language) {first second : Options}
    (h : first.AgreeButLayout second) (flag : Flag) (hne : flag ≠ .bracesOnSameLine) :
    (View.make tree lang first).isOn flag = (View.make tree lang second).isOn flag := by
  simp only [isOn, make, Options.isOn, Options.flag?_merge, h.flag?_eq hne]

variable {tree : Tree} {lang : Language} {options options' : Options}

/-- Two views of one tree that differ in their layout: each identity is tied to itself. -/
def Tie.layout (h : ∀ flag, flag ≠ .bracesOnSameLine → options.isOn flag = options'.isOn flag) :
    Tie ⟨tree, lang, options⟩ ⟨tree, lang, options'⟩ where
  exact := False
  fault := Eq
  soft := Eq
  pair m n _ a b := m = n ∧ a = b
  lang_eq := .refl lang
  isOn_eq flag hflag := h flag (hflag.resolve_right id)
  soft_isSome heq := heq ▸ rfl
  soft_jump hpair heq := by rw [hpair.2, heq]
  soft_entry heq := ⟨rfl, Option.some.inj heq⟩
  restart hpair := ⟨rfl, hpair.2⟩
  recast hpair _ := hpair
  found := by
    rintro m _ demand a _ ⟨rfl, rfl⟩
    exact .refl (fun _ => rfl) (.refl (fun _ _ => ⟨rfl, rfl⟩) fun _ => rfl) _
  descend := by
    rintro m _ demand a _ ⟨rfl, rfl⟩
    cases m with
    | zero => exact .inl ⟨rfl, rfl, rfl⟩
    | succ m =>
      refine .inr ⟨m, m, rfl, rfl, ?_⟩
      exact .refl (fun _ => rfl) (.refl (fun _ _ => ⟨rfl, rfl⟩) fun _ => rfl) _
  miscast hpair _ _ := by rw [hpair.2]
  statement := by
    rintro m _ demand a _ ⟨rfl, rfl⟩
    have hmode : options.isOn .expressionMode = options'.isOn .expressionMode := h _ nofun
    unfold Python.isStatement View.isOn
    simp only [hmode]
    exact .refl (fun _ => rfl) (fun _ => rfl) _
  bare := by
    rintro m _ demand a _ ⟨rfl, rfl⟩
    exact .refl (fun _ => rfl) (fun _ => rfl) _

/-! ## Balance -/

/-- What a printing that succeeds leaves as it was: the level, the frames around the innermost one
and the loops. -/
structure Printer.Balanced (before after : Printer) : Prop where
  level : after.page.level = before.page.level
  around : after.scope.around = before.scope.around
  loops : after.loops = before.loops

theorem Printer.Balanced.outer {before after : Printer} (h : before.Balanced after) :
    after.scope.outer = before.scope.outer :=
  congrArg Prod.fst h.around

theorem Printer.Balanced.depth {before after : Printer} (h : before.Balanced after) :
    after.scope.depth = before.scope.depth :=
  congrArg Prod.snd h.around

/-- The tie of a view to itself. -/
def View.tie (view : View) : Tie view view := .layout fun _ _ => rfl

/-- A printer, next to itself. -/
theorem View.at_self (view : View) (printer : Printer) :
    view.tie.At ⟨printer.page.level, printer.scope.around, printer.loops, printer.loops⟩ printer
      printer where
  ink := rfl
  page := False.elim
  level := rfl
  level' := rfl
  scope := rfl
  around := rfl
  loops := rfl
  loops' := rfl
  tied := by
    refine List.forall₂_same.2 fun loop _ => ⟨⟨0, 0, none, rfl, rfl⟩, ?_⟩
    cases loop.tail with
    | none => exact .none
    | some tail =>
      cases tail with
      | update id => exact .some (.update (m := 0) (n := 0) ⟨rfl, rfl⟩)
      | check id => exact .some (.check (m := 0) (n := 0) ⟨rfl, rfl⟩)

/-- A printing in lockstep with itself comes back to where it started. -/
theorem Tie.Prints.balanced {α : Type} {view : View} {action : Emit α} {value : α}
    {before after : Printer} (h : view.tie.Prints Eq action action)
    (hrun : action before = .ok value after) : before.Balanced after := by
  -- run next to itself, the printing ends where both runs say
  have hends := h _ (view.at_self before)
  rw [hrun] at hends
  cases hends with
  | ok _ hat => exact ⟨hat.level, hat.around, hat.loops⟩

theorem View.node_balanced (view : View) {id : NodeId} {before after : Printer}
    (hrun : view.node id before = .ok () after) : before.Balanced after := by
  have hpair : view.tie.pair 0 0 none id id := ⟨rfl, rfl⟩
  exact (Tie.print_node hpair).balanced hrun

theorem View.expr_balanced (view : View) {id : NodeId} {before after : Printer} {text : String}
    (hrun : (liftM (view.expr id) : Emit String) before = .ok text after) :
    before.Balanced after := by
  have hpair : view.tie.exprs 0 0 id id := ⟨rfl, rfl⟩
  exact (Tie.print_expr hpair).balanced hrun

/-- Nothing is printed while something is rendered. -/
theorem Render.page_eq {α : Type} {action : Render α} {value : α} {before after : Printer}
    (hrun : (liftM action : Emit α) before = .ok value after) : after.page = before.page := by
  rw [Tie.run_liftM_render] at hrun
  split at hrun
  · cases hrun
    rfl
  · cases hrun

/-- The errors of a view are those that count as the same as themselves. -/
theorem View.emit_error (view : View) {error : EmitError} (h : view.emit = .error error) :
    view.tie.Error error error := by
  have hpair : view.tie.pair 0 0 none view.tree.root view.tree.root := ⟨rfl, rfl⟩
  have hemit := Tie.emit hpair False.elim
  rw [h] at hemit
  cases hemit with
  | error h => exact h

/-- **Whatever a printing opens it closes.**  A printing that succeeds leaves the level, the frames
around the innermost one and the loops as they were; an expression leaves the whole page as it was.
So an emission never goes below the first column and never leaves the root frame. -/
theorem View.emission_balanced (view : View) :
    (∀ (id : NodeId) (before after : Printer), view.node id before = .ok () after →
      after.page.level = before.page.level ∧ after.scope.depth = before.scope.depth ∧
        after.scope.outer = before.scope.outer ∧ after.loops = before.loops) ∧
    (∀ (id : NodeId) (before after : Printer) (text : String),
      (liftM (view.expr id) : Emit String) before = .ok text after →
        after.page = before.page ∧ after.scope.depth = before.scope.depth ∧
          after.scope.outer = before.scope.outer ∧ after.loops = before.loops) ∧
    ∀ error, view.emit = .error error →
      error ≠ .indentUnderflow ∧ ∀ misuse, error ≠ .scope misuse := by
  refine ⟨fun id before after hrun => ?_, fun id before after text hrun => ?_, fun error h => ?_⟩
  · have hbalanced := view.node_balanced hrun
    exact ⟨hbalanced.level, hbalanced.depth, hbalanced.outer, hbalanced.loops⟩
  · have hbalanced := view.expr_balanced hrun
    exact ⟨Render.page_eq hrun, hbalanced.depth, hbalanced.outer, hbalanced.loops⟩
  · cases view.emit_error h <;> exact ⟨nofun, nofun⟩

/-- A loop that checks at its end, with a switch and a loop of three clauses in its body, printed
two levels deep inside another loop. -/
theorem View.emission_balanced_nested :
    let arena : Arena := ⟨#[.expr (.ident "x"), .expr (.int 1), .stmt (.block [⟨4⟩]),
      .stmt (.expr ⟨0⟩), .stmt (.continueTo none), .stmt (.switch ⟨0⟩ [⟨.leaves ⟨1⟩, ⟨2⟩⟩]),
      .stmt (.forLoop none (some ⟨0⟩) (some ⟨0⟩) ⟨2⟩), .stmt (.block [⟨5⟩, ⟨6⟩, ⟨3⟩]),
      .stmt (.doWhile ⟨7⟩ ⟨0⟩)]⟩
    let view : View := View.make ⟨arena, ⟨8⟩⟩ .python {}
    let before : Printer :=
      { page := { level := 2 }, scope := Scope.enter {}, loops := [⟨⟨8⟩, some (.check ⟨0⟩)⟩] }
    ∃ after, view.node ⟨8⟩ before = .ok () after ∧ after.page.level = 2 ∧ after.scope.depth = 1 ∧
      after.scope.outer = [{}] ∧ after.loops = [⟨⟨8⟩, some (.check ⟨0⟩)⟩] := by
  intro arena view before
  have hok : (view.node ⟨8⟩).run' before = some () := by decide +kernel +revert
  cases hrun : view.node ⟨8⟩ before with
  | ok _ after => exact ⟨after, rfl, view.emission_balanced.1 ⟨8⟩ before after hrun⟩
  | error _ _ =>
    delta EStateM.run' EStateM.run at hok
    rw [hrun] at hok
    cases hok

/-! ## Layout -/

/-- **The layout makes no difference but in blanks.**  Under options that agree on everything but
the place of braces and the width of the indentation, a tree is refused with the same error or
gives texts that differ in blanks only. -/
theorem Tree.emit_layout (tree : Tree) (lang : Language) (first second : Options)
    (h : first.AgreeButLayout second) :
    (∃ error, tree.emit lang first = .error error ∧ tree.emit lang second = .error error) ∨
    ∃ text text', tree.emit lang first = .ok text ∧ tree.emit lang second = .ok text' ∧
      Text.ink text = Text.ink text' := by
  let tie : Tie (View.make tree lang first) (View.make tree lang second) :=
    .layout (View.isOn_make_eq tree lang h)
  have hpair : tie.pair 0 0 none tree.root tree.root := ⟨rfl, rfl⟩
  have hemit := Tie.emit hpair False.elim
  unfold Tree.emit
  generalize (View.make tree lang first).emit = result at hemit
  generalize (View.make tree lang second).emit = result' at hemit
  cases hemit with
  | ok htexts => exact .inr ⟨_, _, rfl, rfl, htexts.1⟩
  | error herror =>
    cases herror with
    | fault heq => exact .inl ⟨_, rfl, heq ▸ rfl⟩
    | unsupported language construct => exact .inl ⟨_, rfl, rfl⟩
    | malformed node reason => exact .inl ⟨_, rfl, rfl⟩

/-- Two arms, with each brace at the end of a line and with each brace on a line of its own. -/
theorem Tree.emit_layout_arms :
    let arena : Arena := ⟨#[.expr (.ident "x"), .stmt (.expr ⟨0⟩), .stmt (.block [⟨1⟩]),
      .stmt (.conditional [⟨⟨0⟩, ⟨2⟩⟩] (some ⟨2⟩))]⟩
    let tree : Tree := ⟨arena, ⟨3⟩⟩
    let apart : Options := { bracesOnSameLine := some false, indentWidth := some 2 }
    let text := "if (x) \x7b\n    x;\n\x7d else \x7b\n    x;\n\x7d\n"
    let text' := "if (x)\n\x7b\n  x;\n\x7d\nelse\n\x7b\n  x;\n\x7d\n"
    Options.AgreeButLayout {} apart ∧ tree.emit .java {} = .ok text ∧
      tree.emit .java apart = .ok text' ∧ Text.ink text = Text.ink text' := by
  intro arena tree apart text text'
  have hemit : tree.emit .java {} = .ok text ∧ tree.emit .java apart = .ok text' := by
    decide +kernel +revert
  have hagree : Options.AgreeButLayout {} apart := by
    rintro (flag | _) hbraces hwidth
    · cases flag <;> first | rfl | exact absurd rfl hbraces
    · exact absurd rfl hwidth
  refine ⟨hagree, hemit.1, hemit.2, ?_⟩
  rcases emit_layout tree .java {} apart hagree with ⟨error, herror, -⟩ | ⟨_, _, h, h', hink⟩
  · rw [hemit.1] at herror
    cases herror
  · rw [hemit.1] at h
    rw [hemit.2] at h'
    cases h
    cases h'
    exact hink

end Interlingua
