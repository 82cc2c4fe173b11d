import Interlingua.Proofs.Emit.Rows

/-!
# Printing that looks at the scope

What is printed for an assignment depends on the names in sight.

* `Emit.Runs` — from the scopes with a property, a printing that succeeds adds rows, which have a
  property together with the scope that it ends in.  There is one rule for each step that statements
  are printed with.
-/

namespace Interlingua

/-- At a level and from the scopes with a property, a printing that succeeds adds rows, and its
result, they and the scope that it ends in have a property. -/
def Emit.Runs {α : Type} (level : Nat) (pre : Scope → Prop) (action : Emit α)
    (post : α → List Row → Scope → Prop) : Prop :=
  ∀ before value after, before.page.level = level → pre before.scope →
    action before = .ok value after →
      ∃ rows, post value rows after.scope ∧
        after.page = before.page.write (Row.textAll before.page.width rows)

namespace Emit.Runs

variable {α β : Type} {level : Nat} {pre : Scope → Prop} {action : Emit α} {next : α → Emit β}
  {mid : α → List Row → Scope → Prop} {post : β → List Row → Scope → Prop}

theorem mono {goal : α → List Row → Scope → Prop} (h : Runs level pre action mid)
    (hgoal : ∀ a rows scope, mid a rows scope → goal a rows scope) :
    Runs level pre action goal := by
  intro before value after hlevel hpre hrun
  obtain ⟨rows, hrows, hpage⟩ := h before value after hlevel hpre hrun
  exact ⟨rows, hgoal value rows after.scope hrows, hpage⟩

theorem of_pre {pre' : Scope → Prop} (h : Runs level pre action mid)
    (hpre : ∀ scope, pre' scope → pre scope) : Runs level pre' action mid :=
  fun before value after hlevel hscope => h before value after hlevel (hpre _ hscope)

/-- The scope may be fixed. -/
theorem of_scope (h : ∀ scope, pre scope → Runs level (· = scope) action mid) :
    Runs level pre action mid :=
  fun before value after hlevel hscope => h _ hscope before value after hlevel rfl

protected theorem throw (error : EmitError) : Runs level pre (throw error : Emit α) mid := by
  intro before value after _ _ hrun
  cases hrun

protected theorem pure {a : α} (h : ∀ scope, pre scope → mid a [] scope) :
    Runs level pre (pure a) mid := by
  intro before value after _ hpre hrun
  cases hrun
  exact ⟨[], h _ hpre, by simp [Row.textAll, Page.write]⟩

/-- One printing after another. -/
theorem bind (h : Runs level pre action mid)
    (hnext : ∀ a rows,
      Runs level (mid a rows) (next a) fun b more scope => post b (rows ++ more) scope) :
    Runs level pre (action >>= next) post := by
  intro before value after hlevel hpre hrun
  obtain ⟨a, between, haction, hrest⟩ := exists_of_bind hrun
  obtain ⟨rows, hrows, hpage⟩ := h before a between hlevel hpre haction
  have hbetween : between.page.level = level := by rw [hpage]; exact hlevel
  obtain ⟨more, hmore, hpage'⟩ := hnext a rows between value after hbetween hrows hrest
  refine ⟨rows ++ more, hmore, ?_⟩
  rw [hpage', hpage, Row.textAll_append]
  simp [Page.write, String.append_assoc]

/-- Nothing is printed while something is rendered. -/
theorem render {action : Render α} (result : α → Scope → Prop)
    (h : ∀ scope a after, pre scope → action scope = .ok a after → result a after) :
    Runs level pre (liftM action : Emit α) fun a rows after => rows = [] ∧ result a after := by
  intro before value after _ hpre hrun
  rw [Tie.run_liftM_render] at hrun
  cases haction : action before.scope with
  | error error scope =>
    rw [haction] at hrun
    cases hrun
  | ok a scope =>
    rw [haction] at hrun
    cases hrun
    exact ⟨[], ⟨rfl, h _ _ _ hpre haction⟩, by simp [Row.textAll, Page.write]⟩

/-- A printing after a rendering. -/
theorem rendered {action : Render α} (result : α → Scope → Prop)
    (h : ∀ scope a after, pre scope → action scope = .ok a after → result a after)
    (hnext : ∀ a, Runs level (result a) (next a) post) :
    Runs level pre (liftM action >>= next) post := by
  refine (render result h).bind fun a rows => ?_
  intro before value after hlevel hpre hrun
  obtain ⟨rfl, hresult⟩ := hpre
  exact hnext a before value after hlevel hresult hrun

/-- Where a reference is followed, the result is what it refers to. -/
theorem follow {result : Except Fault α} (h : ∀ a, result = .ok a → Runs level pre (next a) post) :
    Runs level pre (Emit.follow result >>= next) post := by
  cases result with
  | error fault => exact .throw _
  | ok a => exact h a rfl

theorem line (text : String) :
    Runs level pre (Emit.line text) fun _ rows scope => rows = [.line level text] ∧ pre scope := by
  intro before value after hlevel hpre hrun
  cases hrun
  refine ⟨[.line level text], ⟨rfl, hpre⟩, ?_⟩
  simp [Row.textAll, Row.text, Fragment.indented, Page.writeLine, Page.margin, hlevel]

/-- A line, if there is one. -/
theorem lineIfAny (tail : Option String) :
    Runs level pre (tail.forM Emit.line) fun _ rows scope =>
      rows = tail.toList.map (.line level) ∧ pre scope := by
  cases tail with
  | none => exact .pure fun _ hscope => ⟨rfl, hscope⟩
  | some text => exact .line text

/-- A line before a printing. -/
theorem lineThen {second : Emit β} {text : String}
    (h : Runs level pre second fun b rows scope => post b (.line level text :: rows) scope) :
    Runs level pre (do Emit.line text; second) post := by
  refine (line text).bind fun _ rows => ?_
  intro before value after hlevel hpre hrun
  obtain ⟨rfl, hscope⟩ := hpre
  exact h before value after hlevel hscope hrun

/-- The lines of a header. -/
theorem spelled {head : Emit Unit} {header : List String} (hhead : Spells head header) :
    Runs level pre head fun _ rows scope => rows = header.map (.line level) ∧ pre scope := by
  intro before value after hlevel hpre hrun
  cases (hhead before).symm.trans hrun
  refine ⟨_, ⟨rfl, hpre⟩, ?_⟩
  rw [Page.foldl_writeLine, Row.textAll_header, hlevel]

section Unit

variable {inside : Emit Unit} {mid : List Row → Scope → Prop}

/-- A printing with a line after it. -/
theorem thenLine (h : Runs level pre inside fun _ => mid) (text : String) :
    Runs level pre (do inside; Emit.line text) fun _ rows after =>
      ∃ front, rows = front ++ [.line level text] ∧ mid front after := by
  refine h.bind fun _ front => (line text).mono ?_
  rintro _ _ after ⟨rfl, hafter⟩
  exact ⟨front, rfl, hafter⟩

/-- What is printed between indentation and dedentation is a level deeper. -/
theorem deeper (h : Runs (level + 1) pre inside fun _ => mid) :
    Runs level pre (do Emit.indent; inside; Emit.dedent) fun _ => mid := by
  intro before value after hlevel hpre hrun
  obtain ⟨between, hinside, hafter⟩ := exists_of_indented hrun
  obtain ⟨rows, hrows, hpage⟩ := h { before with page := before.page.indent } () between
    (by simp [Page.indent, hlevel]) hpre hinside
  obtain rfl := hafter _ hpage
  exact ⟨rows, hrows, rfl⟩

/-- What is registered in a frame of its own is gone when the frame is left. -/
theorem framed {scope : Scope}
    (h : Runs level (· = scope.enter) inside fun _ rows after =>
      after.around = scope.enter.around ∧ mid rows after) :
    Runs level (· = scope) (do Emit.enter; inside; Emit.leave) fun _ rows after =>
      after = scope ∧ ∃ inner, mid rows inner := by
  intro before value after hlevel hpre hrun
  subst hpre
  have henter : Emit.enter before = .ok () { before with scope := before.scope.enter } := rfl
  rw [bind_of_ok henter] at hrun
  obtain ⟨_, between, hinside, hleave⟩ := exists_of_bind hrun
  obtain ⟨rows, ⟨haround, hrows⟩, hpage⟩ :=
    h { before with scope := before.scope.enter } () between hlevel rfl hinside
  have hback : between.scope.leave true = .ok before.scope := Scope.leave_of_around haround true
  have hget : (get : Emit Printer) between = .ok between between := rfl
  rw [Emit.leave, bind_of_ok hget, hback] at hleave
  cases hleave
  exact ⟨rows, ⟨rfl, between.scope, hrows⟩, hpage⟩

end Unit

end Emit.Runs

end Interlingua
