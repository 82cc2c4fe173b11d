import Interlingua.Proofs.Surface.Phrases
import Interlingua.Proofs.Token.Binding

/-!
# Operands on the surface

* `Language.boundOf` — how weak the operator of an expression is; nothing for an atom.
* `Site.Written` — the text of an expression shows no operator weaker than that of the expression.
* `Site.prints_operand` — then, as an operand, it shows none weaker than that of its parent: if it
  had to be weaker, it would be grouped.
* the same for each way in which the languages put the texts of operands together.
-/

namespace Interlingua

open Surface

/-- How weak the operator of an expression is. -/
def Language.boundOf (lang : Language) (e : Expr) : Nat :=
  ((lang.formOf? e).map OperatorForm.level).getD 0

theorem Language.boundOf_eq {lang : Language} {e : Expr} {form : OperatorForm}
    (h : lang.formOf? e = some form) : lang.boundOf e = form.level := by
  simp [boundOf, h]

/-- No operator is weaker than the assignment. -/
theorem Language.boundOf_le_assign {lang : Language} {form : OperatorForm}
    (h : lang.operators.assign .plain = some form) (e : Expr) : lang.boundOf e ≤ form.level := by
  have hbinary : ∀ op, ((lang.operators.binary op).map OperatorForm.level).getD 0 ≤ form.level := by
    intro op
    cases lang <;> cases h <;> cases op <;> decide
  have hunary : ∀ op, ((lang.operators.unary op).map OperatorForm.level).getD 0 ≤ form.level := by
    intro op
    cases lang <;> cases h <;> cases op <;> decide
  have hassign : ∀ op, (((lang.operators.assign op).or (lang.operators.assign .plain)).map
      OperatorForm.level).getD 0 ≤ form.level := by
    intro op
    cases lang <;> cases h <;> cases op <;> decide
  have hternary : lang.operators.ternary.1.level ≤ form.level := by
    cases lang <;> cases h <;> decide
  have hcast : (lang.operators.cast.map OperatorForm.level).getD 0 ≤ form.level := by
    cases lang <;> cases h <;> decide
  unfold boundOf
  cases e with
  | binary op left right => exact hbinary op
  | unary op operand => exact hunary op
  | assign op target value => exact hassign op
  | ternary cond whenTrue whenFalse => exact hternary
  | compound items => exact hbinary _
  | cast ty value => exact hcast
  | int value =>
    simp only [formOf?]
    split
    · exact hunary .neg
    · exact Nat.zero_le _
  | float bits =>
    simp only [formOf?]
    split
    · exact hunary .neg
    · exact Nat.zero_le _
  | _ => exact Nat.zero_le _

/-! ## What a rendering looks up -/

namespace Render

variable {α : Type} {inv : Scope → Prop} {post : α → Prop}

theorem yields_infer {action : Infer α} (h : Yields inv action post) :
    Yields inv (liftM action : Render α) post := by
  intro s a s' hs hrun
  cases haction : action s with
  | error fault scope =>
    have hlift : (liftM action : Render α) s = .error (.ofFault fault) scope := by
      simp only [liftM, monadLift, MonadLift.monadLift, haction]
    rw [hlift] at hrun
    cases hrun
  | ok value scope =>
    have hlift : (liftM action : Render α) s = .ok value scope := by
      simp only [liftM, monadLift, MonadLift.monadLift, haction]
    rw [hlift] at hrun
    cases hrun
    exact h s a s' hs haction

end Render

namespace Site

/-- The text of an expression shows no operator weaker than that of the expression. -/
def Written (site : Site) (id : NodeId) : Prop :=
  Yields Scope.Plain (site.below id) fun text =>
    ∃ e, site.arena.expr id = .ok e ∧ Shows site.lang (site.lang.boundOf e) text

/-- The result shows no operator weaker than a bound. -/
def Prints (site : Site) (bound : Nat) (action : Render String) : Prop :=
  Yields Scope.Plain action (Shows site.lang bound)

variable {site : Site} {id : NodeId} {bound : Nat}

theorem Prints.mono {bound' : Nat} {action : Render String} (h : site.Prints bound action)
    (hle : bound ≤ bound') : site.Prints bound' action :=
  Yields.mono h fun _ htext => htext.mono hle

/-- Whatever an expression is, what it opens it closes. -/
theorem Written.neat (h : site.Written id) :
    Yields Scope.Plain (site.below id) fun text => ∃ face, Neat AroundCode text.toList face :=
  Yields.mono h fun _ ⟨_, _, hshows⟩ => hshows.neat

/-- An operand that is not grouped binds at least as tightly as its parent. -/
theorem boundOf_le_of_not_wraps {lang : Language} {arena : Arena} {parent : OperatorForm}
    {side : Side} {e : Expr} (he : arena.expr id = .ok e)
    (h : lang.wraps arena parent id side = .ok false) : lang.boundOf e ≤ parent.level := by
  simp only [Language.wraps, Language.exprForm?, he, bind, Except.bind, pure, Except.pure] at h
  unfold Language.boundOf
  cases hform : lang.formOf? e with
  | none => exact Nat.zero_le _
  | some form =>
    rw [hform] at h
    exact OperatorForm.level_le_of_not_mustGroup (Except.ok.inj h)

/-- **An operand shows no operator weaker than its parent.** -/
theorem prints_operand (h : site.Written id) (parent : OperatorForm) (side : Side) :
    site.Prints parent.level (site.operand parent id side) := by
  refine Yields.bind h fun text ⟨e, he, hshows⟩ => ?_
  refine (Render.yields_follow fun wrapped hwrapped => hwrapped).bind fun wrapped hwrapped => ?_
  cases wrapped with
  | true =>
    obtain ⟨face, hface⟩ := hshows.neat
    exact .pure (.grouped hface)
  | false => exact .pure (hshows.mono (boundOf_le_of_not_wraps he hwrapped))

/-- An operand shows no operator weaker than its own. -/
theorem prints_operand_self {e : Expr} (h : site.Written id) (he : site.arena.expr id = .ok e)
    (parent : OperatorForm) (side : Side) :
    site.Prints (site.lang.boundOf e) (site.operand parent id side) := by
  refine Yields.bind h fun text ⟨e', he', hshows⟩ => ?_
  cases he.symm.trans he'
  refine (Render.yields_follow fun wrapped _ => trivial).bind fun wrapped _ => ?_
  cases wrapped with
  | true =>
    obtain ⟨face, hface⟩ := hshows.neat
    exact .pure (.grouped hface)
  | false => exact .pure hshows

/-! ## What the languages share -/

variable {left right : NodeId} {form : OperatorForm}

theorem prints_between (hform : form ∈ site.lang.infixes) (hl : site.Written left)
    (hr : site.Written right) : site.Prints form.level (site.between form left right) :=
  (prints_operand hl form .left).bind fun _ hleft => (prints_operand hr form .right).bind
    fun _ hright => .pure (.between hform (Nat.le_refl _) hleft hright)

theorem prints_accessed (h : site.Written id) : site.Prints 0 (site.accessed id) :=
  Yields.mono (prints_operand h _ .left) fun _ htext => htext.tighten (Nat.le_refl _)

theorem yields_args {ids : List NodeId} (h : ∀ id ∈ ids, site.Written id) :
    Yields Scope.Plain (site.args ids) fun text => ∃ face, Neat AroundCode text.toList face :=
  (Yields.mapM fun id hid => (h id hid).neat).bind fun _ htexts => .pure (Neat.commas htexts)

theorem prints_word (word : Word) (e : Expr) : site.Prints 0 (site.word word e) := by
  unfold Site.word
  cases hword : site.lang.operators.word word with
  | none => exact .throw _
  | some text => exact .pure (.reserved hword)

end Site

/-- A form of a language is one of its operators. -/
theorem Language.binary_mem_infixes {lang : Language} {op : BinaryOp} {form : OperatorForm}
    (h : lang.operators.binary op = some form) : form ∈ lang.infixes := by
  simp only [infixes, List.mem_append, List.mem_filterMap]
  exact .inl (.inl (.inl ⟨op, op.mem_all, h⟩))

theorem Language.assign_mem_infixes {lang : Language} {op : AssignOp} {form : OperatorForm}
    (h : lang.operators.assign op = some form) : form ∈ lang.infixes := by
  simp only [infixes, List.mem_append, List.mem_filterMap]
  exact .inl (.inl (.inr ⟨op, op.mem_all, h⟩))

namespace Site

variable {site : Site} {id left right : NodeId} {bound : Nat}

theorem prints_binary (op : BinaryOp) (hl : site.Written left) (hr : site.Written right) :
    site.Prints (site.lang.boundOf (.binary op left right)) (site.binary op left right) := by
  unfold Site.binary
  cases hform : site.lang.operators.binary op with
  | none => exact .throw _
  | some form =>
    rw [Language.boundOf_eq (e := .binary op left right) hform]
    exact prints_between (Language.binary_mem_infixes hform) hl hr

theorem step_value {lang : Language} {op : UnaryOp} {form : OperatorForm}
    (h : lang.operators.unary op = some form) (hpost : op.isPost = true) :
    form.value = "++" ∨ form.value = "--" := by
  cases lang <;> cases op <;> cases hpost <;> cases h <;> decide

/-- What stands before an operand is a symbol, or a word that is no weaker operator. -/
theorem leading_value {lang : Language} {op : UnaryOp} {form : OperatorForm}
    (h : lang.operators.unary op = some form) (hpost : op.isPost = false) :
    if form.value.toList.getLast?.any Text.isLetter then
      form.value.toList.all isNameChar = true ∧ form.value.toList ≠ [] ∧
        ∀ other ∈ lang.infixes, form.value.toList ∈ other.words → other.level ≤ form.level
    else
      form.value.toList.all isPlain = true ∧ form.value.toList.all isSymbol = true ∧
        form.value.toList ≠ [] := by
  cases lang <;> cases op <;> cases hpost <;> cases h <;> decide

theorem prints_unaryOperand {op : UnaryOp} {form : OperatorForm}
    (hform : site.lang.operators.unary op = some form) (h : site.Written id) :
    site.Prints form.level (site.unaryOperand form op id) := by
  unfold Site.unaryOperand
  cases hpost : op.isPost with
  | true =>
    exact (prints_operand h form .left).bind fun text htext =>
      .pure (htext.stepped (step_value hform hpost))
  | false =>
    refine (prints_operand h form .right).bind fun text htext => .pure ?_
    have hvalue := leading_value hform hpost
    split at hvalue
    · rename_i hword
      have hfirst : Shows site.lang form.level form.value := .word hvalue.1 hvalue.2.1 hvalue.2.2
      simpa [hword] using hfirst.spaced htext
    · rename_i hword
      simpa [hword] using htext.prefixed hvalue.1 hvalue.2.1 hvalue.2.2

theorem prints_unary (op : UnaryOp) (h : site.Written id) :
    site.Prints (site.lang.boundOf (.unary op id)) (site.unary op id) := by
  unfold Site.unary
  cases hform : site.lang.operators.unary op with
  | none => exact .throw _
  | some form =>
    rw [Language.boundOf_eq (e := .unary op id) hform]
    exact prints_unaryOperand hform h

theorem prints_ternary {cond whenTrue whenFalse : NodeId} (hc : site.Written cond)
    (ht : site.Written whenTrue) (hf : site.Written whenFalse) :
    site.Prints (site.lang.boundOf (.ternary cond whenTrue whenFalse))
      (site.ternary cond whenTrue whenFalse) := by
  have hfirst : site.lang.operators.ternary.1 ∈ site.lang.infixes := by simp [Language.infixes]
  have hsecond : site.lang.operators.ternary.2 ∈ site.lang.infixes := by simp [Language.infixes]
  have hlevel : site.lang.operators.ternary.2.level ≤ site.lang.operators.ternary.1.level := by
    cases site.lang <;> decide
  have hall : ∀ {a b : NodeId}, site.Written a → site.Written b → site.Prints
      site.lang.operators.ternary.1.level (do
        let leftText ← site.operand site.lang.operators.ternary.1 a .left
        let centerText ← site.operand site.lang.operators.ternary.1 b .center
        let rightText ← site.operand site.lang.operators.ternary.1 whenFalse .right
        return leftText ++ " " ++ site.lang.operators.ternary.1.value ++ " " ++ centerText ++ " " ++
          site.lang.operators.ternary.2.value ++ " " ++ rightText) := by
    intro a b ha hb
    refine (prints_operand ha _ .left).bind fun _ hleft => ?_
    refine (prints_operand hb _ .center).bind fun _ hcenter => ?_
    refine (prints_operand hf _ .right).bind fun _ hright => .pure ?_
    exact .between hsecond hlevel (.between hfirst (Nat.le_refl _) hleft hcenter) hright
  change site.Prints site.lang.operators.ternary.1.level _
  unfold Site.ternary
  cases site.lang.operators.ternaryLayout with
  | condFirst => exact hall hc ht
  | thenFirst => exact hall ht hc

end Site

/-! ## Expressions that are written with their own operator -/

/-- Names are names, literals do not end before their last mark, and comparisons compare. -/
def Language.isProper (lang : Language) : Expr → Bool
  | .ident name => lang.isName name
  | .scoped path => lang.isPath path
  | .method _ name _ | .member _ name => isIdentifier name
  | .str value kind => kind = .plain || staysIn '"' false value.toList
  | .compound items => !items.isEmpty
  | _ => true

/-- The types that Python converts to by a call. -/
def Python.isConversion : Ty → Bool
  | .int | .float | .str | .char | .bool => true
  | _ => false

/-- Where a language writes an expression with another operator than the one it is grouped by, the
expression is not of that kind:

* a cast that Python leaves out is one of an atom, and an array with one size, which Python
  multiplies, has items;
* an array has a size or its items in a list;
* a comparison in a chain is no conjunction;
* an assignment or a step in Python is no statement;
* Java does not concatenate the parts of a string;
* no code in a Python format string starts with a brace, which would be read as text;
* sequences, whose commas are bare, do not occur. -/
def Language.keepsForm (lang : Language) (view : View) (id : NodeId) (e : Expr) : Prop :=
  match lang, e with
  | .java, .newArray _ dims init => dims = [] → init ≠ none
  | .java, .interpolated parts => parts = [] ∨ ∃ part value kind, parts = [part] ∧
      view.arena.expr part = .ok (.str value kind)
  | .cpp, .newArray _ dims init => dims = [] → ∃ list ∈ init, ∃ kind items,
      view.arena.expr list = .ok (.collection kind items)
  | .cpp, .sequence _ | .python, .sequence _ => False
  | .python, .cast ty value => (∃ t, view.arena.ty ty = .ok t ∧ Python.isConversion t = true) ∨
      Language.python.exprForm? view.arena value = .ok none
  | .python, .newArray _ dims none => dims.length ≠ 1
  | .python, .newArray _ _ (some list) => Language.python.exprForm? view.arena list = .ok none
  | .python, .compound items => ∀ item ∈ items, ∀ op left right,
      view.arena.expr item = .ok (.binary op left right) → op.isLogical = false
  | .python, .assign .. => Python.isStatement view id = .ok false
  | .python, .unary op _ => op.isStep = true → Python.isStatement view id = .ok false
  | .python, .interpolated parts => ∀ part ∈ parts, ∀ depth scope text after,
      view.exprTo depth part scope = .ok text after → text.toList.head? ≠ some '\x7b'
  | _, _ => True

/-- Every expression at and below a node is proper and keeps its form. -/
inductive View.Tight (view : View) : NodeId → Prop
  | node {id : NodeId}
    (layer : ∀ e, view.arena.expr id = .ok e →
      view.lang.isProper e = true ∧ view.lang.keepsForm view id e)
    (below : ∀ e, view.arena.expr id = .ok e →
      ∀ child ∈ e.children.map Child.id, view.Tight child) :
    view.Tight id

namespace View.Tight

variable {view : View} {id : NodeId} {e : Expr}

theorem of_expr (he : view.arena.expr id = .ok e) (hproper : view.lang.isProper e = true)
    (hkeeps : view.lang.keepsForm view id e)
    (hbelow : ∀ child ∈ e.children.map Child.id, view.Tight child) : view.Tight id := by
  refine .node (fun e' he' => ?_) fun e' he' => ?_
  · cases he.symm.trans he'
    exact ⟨hproper, hkeeps⟩
  · cases he.symm.trans he'
    exact hbelow

theorem isProper (h : view.Tight id) (he : view.arena.expr id = .ok e) :
    view.lang.isProper e = true := by
  cases h with
  | node layer _ => exact (layer e he).1

theorem compound_ne_nil {items : List NodeId} (h : view.Tight id)
    (he : view.arena.expr id = .ok (.compound items)) : items ≠ [] := by
  have hproper : (!items.isEmpty) = true := h.isProper he
  simpa using hproper

theorem keepsForm (h : view.Tight id) (he : view.arena.expr id = .ok e) {lang : Language}
    (hlang : view.lang = lang) : lang.keepsForm view id e := by
  cases h with
  | node layer _ =>
    subst hlang
    exact (layer e he).2

theorem child (h : view.Tight id) (he : view.arena.expr id = .ok e) {child : NodeId}
    (hchild : child ∈ e.children.map Child.id) : view.Tight child := by
  cases h with
  | node _ below => exact below e he child hchild

variable {left right ty : NodeId}

theorem binary {op : BinaryOp} (h : view.Tight id)
    (he : view.arena.expr id = .ok (.binary op left right)) :
    view.Tight left ∧ view.Tight right :=
  ⟨h.child he (by simp [Expr.children]), h.child he (by simp [Expr.children])⟩

theorem assign {op : AssignOp} (h : view.Tight id)
    (he : view.arena.expr id = .ok (.assign op left right)) :
    view.Tight left ∧ view.Tight right :=
  ⟨h.child he (by simp [Expr.children]), h.child he (by simp [Expr.children])⟩

theorem unary {op : UnaryOp} (h : view.Tight id) (he : view.arena.expr id = .ok (.unary op left)) :
    view.Tight left :=
  h.child he (by simp [Expr.children])

theorem cast (h : view.Tight id) (he : view.arena.expr id = .ok (.cast ty left)) :
    view.Tight left :=
  h.child he (by simp [Expr.children])

/-- The children of one field. -/
theorem held (field : String) {ids : List NodeId} (h : view.Tight id)
    (he : view.arena.expr id = .ok e) (hids : held field ids ⊆ e.children) :
    ∀ child ∈ ids, view.Tight child := by
  intro child hchild
  refine h.child he (List.mem_map.2 ⟨⟨child, field⟩, hids ?_, rfl⟩)
  simpa [Interlingua.held] using hchild

theorem newArray {dims : List NodeId} {init : Option NodeId} (h : view.Tight id)
    (he : view.arena.expr id = .ok (.newArray ty dims init)) :
    (∀ dim ∈ dims, view.Tight dim) ∧ ∀ list ∈ init, view.Tight list := by
  refine ⟨h.held "dims" he fun child hchild => ?_, fun list hlist => ?_⟩
  · simp [Expr.children, hchild]
  · cases hlist
    exact h.child he (by simp [Expr.children, heldIf, Interlingua.held])

theorem dict {entries : List (NodeId × NodeId)} (h : view.Tight id)
    (he : view.arena.expr id = .ok (.dict entries)) :
    ∀ entry ∈ entries, view.Tight entry.1 ∧ view.Tight entry.2 := by
  intro entry hentry
  refine ⟨h.child he (List.mem_map.2 ⟨⟨entry.1, "key"⟩, ?_, rfl⟩),
    h.child he (List.mem_map.2 ⟨⟨entry.2, "value"⟩, ?_, rfl⟩)⟩
  · exact List.mem_flatMap.2 ⟨entry, hentry, by simp⟩
  · exact List.mem_flatMap.2 ⟨entry, hentry, by simp⟩

end View.Tight

/-- Below a tight expression, all texts show their own operators at most. -/
def Site.Writes (site : Site) : Prop := ∀ id, site.view.Tight id → site.Written id

end Interlingua
