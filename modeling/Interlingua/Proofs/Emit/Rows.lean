import Interlingua.Emit.Basic
import Interlingua.Proofs.Jump.Fragments

/-!
# Printing, line by line

* `Row` — a printed line with its level.
* `View.Renders` — a text is what an expression is rendered as, somewhere in a printing.
* `Emit.Adds` — at a level, a printing that succeeds adds rows with a property.  There is one rule
  for each step that statements are printed with.
* `View.exists_run_of_emit` — the text of a tree is what its root is printed as on an empty page.
-/

namespace Interlingua

/-- A printed line: its level, and what stands on it. -/
inductive Row where
  | blank
  | line (level : Nat) (text : String)
  deriving DecidableEq

namespace Row

def text (width : Nat) : Row → String
  | .blank => "\n"
  | .line level text => Fragment.indented width level text

def textAll (width : Nat) (rows : List Row) : String := String.join (rows.map (text width))

theorem textAll_append (width : Nat) (rows more : List Row) :
    textAll width (rows ++ more) = textAll width rows ++ textAll width more := by
  simp [textAll, String.join_append]

/-- Lines at one level. -/
theorem textAll_header (width level : Nat) (header : List String) :
    textAll width (header.map (line level)) =
      String.join (header.map (Fragment.indented width level)) := by
  rw [textAll, List.map_map]
  rfl

end Row

/-- A text is what an expression is rendered as. -/
def View.Renders (view : View) (id : NodeId) (text : String) : Prop :=
  ∃ before after, view.expr id before = .ok text after

/-- At a level, a printing that succeeds adds rows, and its result and they have a property. -/
def Emit.Adds {α : Type} (level : Nat) (action : Emit α) (post : α → List Row → Prop) : Prop :=
  ∀ before value after, before.page.level = level → action before = .ok value after →
    ∃ rows, post value rows ∧
      after.page = before.page.write (Row.textAll before.page.width rows)

namespace Emit.Adds

variable {α β : Type} {level : Nat} {action : Emit α} {next : α → Emit β}
  {mid : α → List Row → Prop} {post : β → List Row → Prop}

theorem mono {goal : α → List Row → Prop} (h : Adds level action mid)
    (hgoal : ∀ a rows, mid a rows → goal a rows) : Adds level action goal := by
  intro before value after hlevel hrun
  obtain ⟨rows, hrows, hpage⟩ := h before value after hlevel hrun
  exact ⟨rows, hgoal value rows hrows, hpage⟩

protected theorem throw (error : EmitError) : Adds level (throw error : Emit α) mid := by
  intro before value after _ hrun
  cases hrun

/-- What prints nothing. -/
theorem silent (h : Emit.Silent action) : Adds level action fun _ rows => rows = [] := by
  intro before value after _ hrun
  obtain ⟨hpage, -⟩ := h before value after hrun
  exact ⟨[], rfl, by simp [hpage, Row.textAll, Page.write]⟩

protected theorem pure {a : α} (h : mid a []) : Adds level (pure a) mid := by
  intro before value after _ hrun
  cases hrun
  exact ⟨[], h, by simp [Row.textAll, Page.write]⟩

/-- One printing after another. -/
theorem bind (h : Adds level action mid)
    (hnext : ∀ a rows, mid a rows → Adds level (next a) fun b more => post b (rows ++ more)) :
    Adds level (action >>= next) post := by
  intro before value after hlevel hrun
  obtain ⟨a, between, haction, hrest⟩ := exists_of_bind hrun
  obtain ⟨rows, hrows, hpage⟩ := h before a between hlevel haction
  have hbetween : between.page.level = level := by rw [hpage]; exact hlevel
  obtain ⟨more, hmore, hpage'⟩ := hnext a rows hrows between value after hbetween hrest
  refine ⟨rows ++ more, hmore, ?_⟩
  rw [hpage', hpage, Row.textAll_append]
  simp [Page.write, String.append_assoc]

/-- A printing after what prints nothing. -/
theorem after (h : Emit.Silent action) (hnext : ∀ a, Adds level (next a) post) :
    Adds level (action >>= next) post := by
  refine (silent h).bind fun a rows hrows => ?_
  subst hrows
  exact hnext a

/-- What prints nothing after a printing. -/
theorem before (h : Adds level action mid) (hnext : ∀ a, Emit.Silent (next a))
    (hpost : ∀ a b rows, mid a rows → post b rows) : Adds level (action >>= next) post := by
  refine h.bind fun a rows hrows => (silent (hnext a)).mono fun b more hmore => ?_
  subst hmore
  rw [List.append_nil]
  exact hpost a b rows hrows

/-- Where a reference is followed, the result is what it refers to. -/
theorem follow {result : Except Fault α} (h : ∀ a, result = .ok a → Adds level (next a) post) :
    Adds level (Emit.follow result >>= next) post := by
  cases result with
  | error fault => exact .throw _
  | ok a => exact h a rfl

/-- Where something could be refused, it was not. -/
theorem allowed {result : Except EmitError α} (h : ∀ a, result = .ok a → Adds level (next a) post) :
    Adds level (Emit.allowed result >>= next) post := by
  cases result with
  | error error => exact .throw _
  | ok a => exact h a rfl

/-- The state may be looked up. -/
theorem lookUp {next : Printer → Emit β} (h : ∀ printer, Adds level (next printer) post) :
    Adds level (get >>= next) post := by
  intro before value after hlevel hrun
  have hget : (get : Emit Printer) before = .ok before before := rfl
  rw [bind_of_ok hget] at hrun
  exact h before before value after hlevel hrun

/-- What is rendered is the result of a rendering. -/
theorem rendered {action : Render α}
    (h : ∀ a, (∃ before after, action before = .ok a after) → Adds level (next a) post) :
    Adds level (liftM action >>= next) post := by
  intro before value after hlevel hrun
  obtain ⟨a, between, haction, hrest⟩ := exists_of_bind hrun
  obtain ⟨hpage, -⟩ := Emit.Silent.render action before a between haction
  have hresult : ∃ before after, action before = .ok a after := by
    rw [Tie.run_liftM_render] at haction
    cases hrender : action before.scope with
    | error error scope => simp [hrender] at haction
    | ok b scope =>
      simp only [hrender, EStateM.Result.ok.injEq] at haction
      exact ⟨_, scope, haction.1 ▸ hrender⟩
  rw [← hpage]
  exact h a hresult between value after (hpage ▸ hlevel) hrest

theorem line (text : String) :
    Adds level (Emit.line text) fun _ rows => rows = [.line level text] := by
  intro before value after hlevel hrun
  cases hrun
  refine ⟨[.line level text], rfl, ?_⟩
  simp [Row.textAll, Row.text, Fragment.indented, Page.writeLine, Page.margin, hlevel]

theorem blankLine : Adds level Emit.blankLine fun _ rows => rows = [.blank] := by
  intro before value after _ hrun
  cases hrun
  exact ⟨[.blank], rfl, by simp [Row.textAll, Row.text, Page.newline]⟩

/-- A line before a printing. -/
theorem lineThen {second : Emit β} {text : String}
    (h : Adds level second fun b rows => post b (.line level text :: rows)) :
    Adds level (do Emit.line text; second) post := by
  refine (line text).bind fun _ rows hrows => ?_
  subst hrows
  exact h

section Unit

variable {inside first second : Emit Unit} {mid other : List Row → Prop}

theorem andThen {post : List Row → Prop} (h : Adds level first fun _ => mid)
    (h' : Adds level second fun _ => other)
    (hpost : ∀ rows more, mid rows → other more → post (rows ++ more)) :
    Adds level (do first; second) fun _ => post :=
  h.bind fun _ rows hrows => h'.mono fun _ more hmore => hpost rows more hrows hmore

/-- A frame that is opened is closed. -/
theorem framed (h : Adds level inside fun _ => mid) :
    Adds level (do Emit.enter; inside; Emit.leave) fun _ => mid :=
  .after .enter fun _ => h.before (fun _ => .leave) fun _ _ _ hrows => hrows

/-- What is printed between indentation and dedentation is a level deeper. -/
theorem deeper (h : Adds (level + 1) inside fun _ => mid) :
    Adds level (do Emit.indent; inside; Emit.dedent) fun _ => mid := by
  intro before value after hlevel hrun
  obtain ⟨between, hinside, hafter⟩ := exists_of_indented hrun
  obtain ⟨rows, hrows, hpage⟩ := h { before with page := before.page.indent } () between
    (by simp [Page.indent, hlevel]) hinside
  obtain rfl := hafter _ hpage
  exact ⟨rows, hrows, rfl⟩

/-- Items one after another, each with rows of its own. -/
theorem forM {γ : Type} {f : γ → Emit Unit} {each : γ → List Row → Prop} {items : List γ}
    (h : ∀ item ∈ items, Adds level (f item) fun _ => each item) :
    Adds level (items.forM f) fun _ rows =>
      ∃ groups, rows = groups.flatten ∧ List.Forall₂ each items groups := by
  induction items with
  | nil => exact .pure ⟨[], rfl, .nil⟩
  | cons item rest ih =>
    refine (h item (by simp)).andThen (ih fun item hitem => h item (by simp [hitem])) ?_
    rintro rows _ hrows ⟨groups, rfl, hgroups⟩
    exact ⟨rows :: groups, rfl, .cons hrows hgroups⟩

theorem optional {post : List Row → Prop} {γ : Type} {f : γ → Emit Unit} {item : Option γ}
    (hnone : item = none → post []) (h : ∀ i ∈ item, Adds level (f i) fun _ => post) :
    Adds level (item.forM f) fun _ => post := by
  cases item with
  | none => exact .pure (hnone rfl)
  | some i => exact h i rfl

theorem inLoop (loop : Loop) (h : Adds level inside fun _ => mid) :
    Adds level (Emit.inLoop loop inside) fun _ => mid := by
  intro before value after hlevel hrun
  obtain ⟨_, entered, hentered, hrest⟩ := exists_of_bind hrun
  cases hentered
  obtain ⟨_, between, hinside, hleft⟩ := exists_of_bind hrest
  cases hleft
  exact h { before with loops := loop :: before.loops } () between hlevel hinside

end Unit

end Emit.Adds

/-- A header, and what is printed a level deeper. -/
theorem Python.adds_suite {level : Nat} {header : String} {inside : Emit Unit}
    {post : List Row → Prop}
    (h : Emit.Adds (level + 1) inside fun _ rows => post (.line level (header ++ ":") :: rows)) :
    Emit.Adds level (suite header inside) fun _ => post := by
  have hall := Emit.Adds.lineThen h.framed.deeper
  simp only [bind_assoc] at hall
  exact hall

/-- A tree that is not written as a bare expression is printed from a page that is still empty. -/
theorem View.exists_run_of_emit {view : View} {text : String} (hbare : view.bare? = .ok none)
    (hemit : view.emit = .ok text) :
    ∃ before after, before.page = view.start.page ∧
      view.node view.tree.root before = .ok () after ∧ after.page.output = text := by
  unfold View.emit at hemit
  rw [hbare] at hemit
  cases hrun : view.program view.start with
  | error error printer => simp [hrun] at hemit
  | ok _ printer =>
    simp only [hrun, Except.ok.injEq] at hemit
    obtain ⟨_, between, hinfer, hnode⟩ := exists_of_bind hrun
    obtain ⟨hpage, -⟩ := Emit.Silent.render _ view.start _ between hinfer
    exact ⟨between, printer, hpage, hnode, hemit⟩

end Interlingua
