import Interlingua.Proofs.Lockstep.Printer

/-!
# Statements of the languages with braces in lockstep

* `Emit.Inks` — what a printing shows, wherever its lines break.  The two layouts of a brace show
  the same.
* `Tie.Styled`, `Tie.Idiomatic` — a style and an idiom say the same about tied nodes.
* `Tie.braced_node` — tied nodes are printed alike under an idiom that does.
* `Tie.java_idiomatic`, `Tie.cpp_idiomatic` — the idioms of the two languages do.
-/

namespace Interlingua

/-- Whatever the printer, some lines are printed which show the given characters. -/
def Emit.Inks (action : Emit Unit) (ink : List Char) : Prop :=
  ∀ printer : Printer, ∃ page : Page, action printer = .ok () { printer with page := page } ∧
    page.level = printer.page.level ∧ Text.ink page.output = Text.ink printer.page.output ++ ink

theorem Emit.Inks.line (text : String) : Emit.Inks (Emit.line text) (Text.ink text) :=
  fun printer =>
  ⟨printer.page.writeLine text, rfl, rfl, printer.page.ink_writeLine text⟩

theorem Emit.Inks.andThen {first second : Emit Unit} {ink after : List Char} (h : first.Inks ink)
    (hsecond : second.Inks after) : Emit.Inks (do first; second) (ink ++ after) := by
  intro printer
  obtain ⟨page, hrun, hlevel, hink⟩ := h printer
  obtain ⟨page', hrun', hlevel', hink'⟩ := hsecond { printer with page := page }
  refine ⟨page', (bind_of_ok hrun).trans hrun', hlevel'.trans hlevel, ?_⟩
  rw [hink', hink, List.append_assoc]

theorem Braced.inks_openBlock (view : View) (header : String) :
    Emit.Inks (Braced.openBlock view header) (Text.ink header ++ Text.ink "\x7b") := by
  unfold Braced.openBlock
  split
  · have h := Emit.Inks.line (header ++ " \x7b")
    rw [Text.ink_append] at h
    exact h
  · exact (Emit.Inks.line header).andThen (.line "\x7b")

theorem Braced.inks_reopenBlock (view : View) (header : String) :
    Emit.Inks (Braced.reopenBlock view header)
      (Text.ink "\x7d" ++ (Text.ink header ++ Text.ink "\x7b")) := by
  unfold Braced.reopenBlock
  split
  · have h := Emit.Inks.line ("\x7d " ++ header ++ " \x7b")
    rw [Text.ink_append, Text.ink_append, List.append_assoc] at h
    exact h
  · exact (Emit.Inks.line "\x7d").andThen ((Emit.Inks.line header).andThen (.line "\x7b"))

/-- The statements of a body. -/
def Braced.inside (view : View) (below : NodeId → Emit Unit) (id : NodeId) : Emit Unit := do
  match ← Emit.follow (view.arena.stmt id) with
  | .block items => items.forM below
  | _ => below id

theorem Braced.body_eq (view : View) (below : NodeId → Emit Unit) (id : NodeId)
    (tail : Option String) :
    Braced.body view below id tail = (do
      Emit.indent
      Emit.enter
      Braced.inside view below id
      tail.forM Emit.line
      Emit.leave
      Emit.dedent) := by
  unfold Braced.body Braced.inside
  simp only [bind_assoc]
  refine bind_congr fun _ => bind_congr fun _ => bind_congr fun s => ?_
  cases s <;> rfl

namespace Tie

variable {left right : View} {tie : Tie left right} {m n : Nat} {a b : NodeId}

/-- Where blanks do not count, printings that show the same do the same. -/
theorem prints_of_inks {action action' : Emit Unit} {ink : List Char} (hexact : ¬ tie.exact)
    (h : action.Inks ink) (h' : action'.Inks ink) : tie.Prints Eq action action' := by
  intro here s s' hs
  obtain ⟨page, hrun, hlevel, hink⟩ := h s
  obtain ⟨page', hrun', hlevel', hink'⟩ := h' s'
  rw [hrun, hrun']
  refine .ok rfl { hs with
    ink := ?_, page := fun he => absurd he hexact, level := hlevel.trans hs.level,
    level' := hlevel'.trans hs.level' }
  rw [hink, hink', hs.ink]

theorem openBlock (header : String) :
    tie.Prints Eq (Braced.openBlock left header) (Braced.openBlock right header) := by
  by_cases hexact : tie.exact
  · unfold Braced.openBlock
    rw [tie.isOn_eq _ (.inr hexact)]
    exact .ite (line _) ((line _).bindEq fun _ => line _)
  · exact prints_of_inks hexact (Braced.inks_openBlock left header)
      (Braced.inks_openBlock right header)

theorem reopenBlock (header : String) :
    tie.Prints Eq (Braced.reopenBlock left header) (Braced.reopenBlock right header) := by
  by_cases hexact : tie.exact
  · unfold Braced.reopenBlock
    rw [tie.isOn_eq _ (.inr hexact)]
    exact .ite (line _) ((line _).bindEq fun _ => (line _).bindEq fun _ => line _)
  · exact prints_of_inks hexact (Braced.inks_reopenBlock left header)
      (Braced.inks_reopenBlock right header)

theorem closeBlock : tie.Prints Eq Braced.closeBlock Braced.closeBlock := line _

theorem tailLine (tail : Option String) :
    tie.Prints Eq (tail.forM Emit.line) (tail.forM Emit.line) := by
  cases tail with
  | none => exact .pure rfl
  | some text => exact line text

/-! ## Bodies -/

section Body

variable {below below' : NodeId → Emit Unit}

/-- Bodies whose statements print the same. -/
theorem body_of_inside (tail : Option String)
    (h : tie.Prints Eq (Braced.inside left below a) (Braced.inside right below' b)) :
    tie.Prints Eq (Braced.body left below a tail) (Braced.body right below' b tail) := by
  intro here
  rw [Braced.body_eq, Braced.body_eq]
  refine indent.andThen (enter fun frame => ?_)
  exact (h _).andThen ((tailLine tail _).andThen (leave.andThen dedent))

/-- A block knows its own statements. -/
theorem block_body {ids ids' : List NodeId} (hs : left.arena.stmt a = .ok (.block ids))
    (hs' : right.arena.stmt b = .ok (.block ids'))
    (h : tie.Prints Eq (ids.forM below) (ids'.forM below'))
    (tail : Option String) :
    tie.Prints Eq (Braced.body left below a tail) (Braced.body right below' b tail) := by
  refine body_of_inside tail ?_
  unfold Braced.inside
  rw [hs, hs']
  exact h

variable (hbelow : Prints.Below tie m n below below')
include hbelow

theorem body (h : tie.pair m n (some .statement) a b) (tail : Option String) :
    tie.Prints Eq (Braced.body left below a tail) (Braced.body right below' b tail) := by
  refine body_of_inside tail ((follow (stmt h)).bind fun s s' hs => ?_)
  cases hs with
  | block hitems => exact items hbelow hitems
  | _ => exact hbelow h

theorem bodyUnder (header : String) (h : tie.pair m n (some .statement) a b) :
    tie.Prints Eq (Braced.bodyUnder left below header a) (Braced.bodyUnder right below' header b) :=
  (openBlock header).bindEq fun _ => (body hbelow h none).bindEq fun _ => closeBlock

end Body

/-! ## Assignments and declarations -/

variable (tie) in
/-- A style that writes the types of variables alike. -/
def Styled (style : Braced.Style) : Prop :=
  ∀ ty inferable, Concur tie.Error Eq (style.variableType left ty inferable)
    (style.variableType right ty inferable)

section Style

variable {style : Braced.Style} (hstyle : tie.Styled style)
include hstyle

theorem braced_assignment (op : AssignOp) {target target' value value' : NodeId}
    (ht : tie.exprs m n target target') (hv : tie.exprs m n value value') :
    tie.Renders Eq (Braced.assignment style left op target value)
      (Braced.assignment style right op target' value') := by
  unfold Braced.assignment
  refine (declaredName? op ht).bindEq fun name => ?_
  cases name with
  | some name =>
    refine (render_expr hv).bindEq fun valueText => (inferred hv).bindEq fun ty => ?_
    refine (Renders.allowed (hstyle ty true)).bindEq fun typeText => ?_
    exact (Renders.setVariable name ty).bindEq fun _ => .pure rfl
  | none =>
    dsimp only
    rw [tie.lang_eq]
    have hbinary := (tie.speaks right.lang).binary (below_expr (m := m) (n := n))
    refine (assignWith below_expr hbinary _ op ht hv).bindEq fun text => ?_
    exact (Renders.infer (infer_assignment op ht hv)).bindEq fun _ => .pure rfl

omit hstyle in
theorem isLoneInit_eq {declarators declarators' : List Declarator}
    (h : List.Forall₂ (Declarator.Tied (tie.pair m n)) declarators declarators') :
    Braced.isLoneInit declarators = Braced.isLoneInit declarators' := by
  cases h with
  | nil => rfl
  | @cons d d' _ _ hd hrest =>
    cases hrest with
    | nil =>
      obtain ⟨_, init⟩ := d
      obtain ⟨_, init'⟩ := d'
      obtain ⟨_, hinit⟩ := hd
      cases hinit <;> rfl
    | cons _ _ => rfl

theorem varsText (h : tie.pair m n (some .declaration) a b) :
    tie.Renders Eq (Braced.varsText style left a) (Braced.varsText style right b) := by
  unfold Braced.varsText
  refine (Renders.follow (decl h)).bind fun d d' htied => ?_
  have hd := htied
  cases hd with
  | @vars _ _ declarators declarators' modifiers ht hd =>
    refine (Renders.follow (ty ht)).bindEq fun declared => ?_
    extract_lets write write'
    have hwrite (typeText : String) : tie.Renders Eq (write typeText) (write' typeText) := by
      refine Keeps.bindEq (Keeps.mapMEq hd fun d d' hd => ?_) fun parts =>
        (Renders.infer (infer_declare h)).bindEq fun _ => .pure rfl
      obtain ⟨name, init⟩ := d
      obtain ⟨_, init'⟩ := d'
      obtain ⟨rfl, hinit⟩ := hd
      cases hinit with
      | none => exact .pure rfl
      | some hinit => exact (render_expr hinit).bindEq fun _ => .pure rfl
    refine .ite ((Renders.allowed (typeName declared)).bindEq hwrite) ?_
    rw [isLoneInit_eq hd]
    exact (Renders.allowed (hstyle declared _)).bindEq hwrite
  | function _ _ _ _ _ | classHead _ _ _ | imports _ _ _ | package _ | includes _ _ =>
    exact .throw (.declRefusal tie htied _)

/-- The first clause of a loop header. -/
theorem inlineTo {demand : Option Category} (h : tie.pair m n demand a b) :
    tie.Renders Eq (Braced.inlineTo style left m a) (Braced.inlineTo style right n b) := by
  induction h using tie.recursion with
  | zero _ _ _ _ hfault => exact .throw (.fault hfault)
  | succ m n ih _ a b h hnode =>
    unfold Braced.inlineTo
    generalize hx : left.arena.node a = x at hnode
    generalize right.arena.node b = y at hnode
    cases hnode with
    | error hfault => exact .throw (.fault hfault)
    | @ok x y hnode =>
      have hrefused : tie.Error (left.refusal (x.kindName ++ " in a loop header"))
          (right.refusal (y.kindName ++ " in a loop header")) :=
        .refusal_of_eq tie (congrArg (· ++ " in a loop header") hnode.kindName_eq)
      cases hnode with
      | decl _ => exact varsText hstyle (tie.recast h hx)
      | expr _ => exact render_expr (tie.recast h hx)
      | stmt hs =>
        cases hs with
        | expr hvalue => exact render_expr hvalue
        | assign op ht hv => exact braced_assignment hstyle op ht hv
        | multiAssign hitems =>
          exact (Keeps.mapMEq hitems fun _ _ hid => ih hid).bindEq fun _ => .pure rfl
        | _ => exact .throw hrefused
      | defn _ | type _ => exact .throw hrefused

theorem forEachHeader (var : String) {ty ty' iterable iterable' : NodeId}
    (ht : tie.pair m n (some .type) ty ty') (hi : tie.exprs m n iterable iterable') :
    tie.Renders Eq (Braced.forEachHeader style left var ty iterable)
      (Braced.forEachHeader style right var ty' iterable') := by
  unfold Braced.forEachHeader
  refine (render_expr hi).bindEq fun text => (Renders.follow (Tie.ty ht)).bindEq fun declared => ?_
  extract_lets write write'
  have hwrite (item : Ty) : tie.Renders Eq (write item) (write' item) :=
    (Renders.allowed (hstyle item true)).bindEq fun _ => .pure rfl
  exact .ite (hwrite _) ((inferred hi).bindEq fun _ => hwrite _)

end Style

theorem clause {id id' : Option NodeId} (h : Option.Rel (tie.exprs m n) id id') :
    tie.Renders Eq (Braced.clause left id) (Braced.clause right id') := by
  cases h with
  | none => exact .pure rfl
  | some h => exact (render_expr h).bindEq fun _ => .pure rfl

/-! ## Statements -/

theorem caseLabel {label label' : CaseLabel} (h : label.Tied (tie.pair m n) label') :
    tie.Renders Eq (Braced.caseLabel left label) (Braced.caseLabel right label') := by
  cases h with
  | leaves h | falls h => exact (render_expr h).bindEq fun _ => .pure rfl
  | default => exact .pure rfl

theorem caseTail {case case' : Case} (h : case.Tied (tie.pair m n) case') :
    Concur tie.fault Eq (Braced.caseTail left case) (Braced.caseTail right case') := by
  obtain ⟨label, body⟩ := case
  obtain ⟨label', body'⟩ := case'
  obtain ⟨hlabel, hbody⟩ := h
  cases hlabel with
  | leaves _ => exact (leavesAtEndTo (tie.restart hbody)).bindEq fun _ => .ok rfl
  | falls _ | default => exact .ok rfl

theorem isBracedCase {case case' : Case} (h : case.Tied (tie.pair m n) case') :
    Concur tie.fault Eq (Braced.isBracedCase left case) (Braced.isBracedCase right case') := by
  unfold Braced.isBracedCase
  rw [tie.isOn_eq_of_ne .bracesAroundCases nofun]
  exact .ite (.ok rfl) (declaresDirectly h.body)

theorem rangeTest_eq {range range' : Range} (h : range.Tied (tie.pair m n) range') :
    Braced.rangeTest range = Braced.rangeTest range' := by
  unfold Braced.rangeTest
  rw [h.descending, h.inclusive]

theorem rangeUpdate (var : String) {range range' : Range} (h : range.Tied (tie.pair m n) range') :
    tie.Renders Eq (Braced.rangeUpdate left var range) (Braced.rangeUpdate right var range') := by
  obtain ⟨start, stop, step, inclusive, descending⟩ := range
  obtain ⟨start', stop', step', inclusive', descending'⟩ := range'
  obtain ⟨-, -, hstep, rfl, rfl⟩ := h
  cases hstep with
  | none => exact .pure rfl
  | some hstep => exact (render_expr hstep).bindEq fun _ => .pure rfl

theorem rangeHeader (var : String) {range range' : Range} (h : range.Tied (tie.pair m n) range') :
    tie.Renders Eq (Braced.rangeHeader left var range) (Braced.rangeHeader right var range') := by
  unfold Braced.rangeHeader
  refine (inferred h.start).bindEq fun startType => (inferred h.stop).bindEq fun stopType => ?_
  refine (Renders.allowed (typeName _)).bindEq fun typeText => ?_
  refine (render_expr h.start).bindEq fun start => ?_
  rw [tie.lang_eq, rangeTest_eq h]
  cases right.lang.operators.binary (Braced.rangeTest range') with
  | none => exact .throw (.operatorRefusal tie _)
  | some test =>
    refine (operand below_expr test .right h.stop).bindEq fun stop => ?_
    exact (rangeUpdate var h).bindEq fun _ => .pure rfl

theorem braced_comment (text : String) (multiline : Bool) :
    tie.Prints Eq (Braced.comment text multiline) (Braced.comment text multiline) :=
  .ite ((line _).bindEq fun _ => (linesOf _ _).bindEq fun _ => line _) (linesOf _ _)

section Stmt

variable {below below' : NodeId → Emit Unit} (hbelow : Prints.Below tie m n below below')
include hbelow

theorem otherArms {branches branches' : List Branch}
    (h : List.Forall₂ (Branch.Tied (tie.pair m n)) branches branches') :
    tie.Prints Eq (Braced.otherArms left below branches)
      (Braced.otherArms right below' branches') := by
  induction h with
  | nil => exact .pure rfl
  | cons hbranch _ ih =>
    exact (print_expr hbranch.cond).bindEq fun _ => (reopenBlock _).bindEq fun _ =>
      (body hbelow hbranch.body none).bindEq fun _ => ih

theorem braced_conditional {branches branches' : List Branch} {otherwise otherwise' : Option NodeId}
    (hb : List.Forall₂ (Branch.Tied (tie.pair m n)) branches branches')
    (ho : Option.Rel (tie.pair m n (some .statement)) otherwise otherwise') :
    tie.Prints Eq (Braced.conditional left below branches otherwise)
      (Braced.conditional right below' branches' otherwise') := by
  unfold Braced.conditional
  extract_lets close rest rest'
  have hrest : tie.Prints Eq (rest ()) (rest' ()) := by
    cases ho with
    | none => exact closeBlock
    | some ho =>
      exact (reopenBlock _).bindEq fun _ => (body hbelow ho none).bindEq fun _ => closeBlock
  cases hb with
  | nil => exact hrest
  | cons hfirst hothers =>
    exact (print_expr hfirst.cond).bindEq fun _ => (openBlock _).bindEq fun _ =>
      (body hbelow hfirst.body none).bindEq fun _ =>
        (otherArms hbelow hothers).bindEq fun _ => hrest

theorem switchCase {case case' : Case} (h : case.Tied (tie.pair m n) case') :
    tie.Prints Eq (Braced.switchCase left below case) (Braced.switchCase right below' case') := by
  unfold Braced.switchCase
  refine (rendering (caseLabel h.label)).bindEq fun label => ?_
  refine (follow (isBracedCase h)).bindEq fun braced => (follow (caseTail h)).bindEq fun tail => ?_
  refine .ite ?_ ((line _).bindEq fun _ => body hbelow h.body tail)
  exact (line _).bindEq fun _ => (body hbelow h.body tail).bindEq fun _ => closeBlock

theorem switchCases {cases cases' : List Case}
    (h : List.Forall₂ (Case.Tied (tie.pair m n)) cases cases') :
    tie.Prints Eq (cases.forM (Braced.switchCase left below))
      (cases'.forM (Braced.switchCase right below')) :=
  Keeps.forM h fun _ _ => switchCase hbelow

end Stmt

variable (tie) in
/-- An idiom that says the same about tied nodes. -/
structure Idiomatic (idiom : Braced.Idiom) : Prop where
  styled : tie.Styled idiom.toStyle
  decl : ∀ {m n a b}, tie.pair m n (some .declaration) a b →
    tie.Prints Eq (idiom.decl left a) (idiom.decl right b)
  defn : ∀ {m n below below'}, Prints.Below tie m n below below' → ∀ {d d'},
    d.Tied (tie.pair m n) tie.soft d' →
    tie.Prints Eq (idiom.defn left below d) (idiom.defn right below' d')
  delete : ∀ {m n a b}, tie.exprs m n a b → ∀ array,
    tie.Prints Eq (idiom.delete left a array) (idiom.delete right b array)

section Node

variable {idiom : Braced.Idiom} (hidiom : tie.Idiomatic idiom)
include hidiom

theorem braced_stmt {below below' : NodeId → Emit Unit} (hbelow : Prints.Below tie m n below below')
    {s s' : Stmt} (hs : left.arena.stmt a = .ok s) (hs' : right.arena.stmt b = .ok s')
    (h : s.Tied (tie.pair m n) tie.soft s') :
    tie.Prints Eq (Braced.stmt idiom left below a s) (Braced.stmt idiom right below' b s') := by
  cases h <;> unfold Braced.stmt
  case block h =>
    exact (line _).bindEq fun _ =>
      (block_body hs hs' (items hbelow h) none).bindEq fun _ => closeBlock
  case expr h => exact (print_expr h).bindEq fun _ => line _
  case assign op _ _ _ _ ht hv =>
    exact (rendering (braced_assignment hidiom.styled op ht hv)).bindEq fun _ => line _
  case multiAssign h => exact items hbelow h
  case conditional hb ho => exact braced_conditional hbelow hb ho
  case switch hsubject hc =>
    refine (print_expr hsubject).bindEq fun subjectText => (openBlock _).bindEq fun _ here => ?_
    exact indent.andThen ((switchCases hbelow hc _).andThen (dedent.andThen (closeBlock here)))
  case whileLoop hc hb => exact (print_expr hc).bindEq fun _ => bodyUnder hbelow _ hb
  case doWhile hb hc =>
    exact (openBlock _).bindEq fun _ => (body hbelow hb none).bindEq fun _ =>
      (print_expr hc).bindEq fun _ => line _
  case forLoop hi hc hu hb =>
    intro here
    refine enter fun frame => ?_
    extract_lets rest rest'
    have hrest (initText : String) :
        tie.Moves (here.inside frame) here Eq (rest initText) (rest' initText) := by
      refine (rendering (clause hc)).thenStep fun condText => ?_
      refine (rendering (clause hu)).thenStep fun updateText => ?_
      exact (bodyUnder hbelow _ hb _).andThen leave
    cases hi with
    | none => exact hrest ""
    | some hi => exact (rendering (inlineTo hidiom.styled (tie.restart hi))).thenStep hrest
  case rangeFor var _ _ _ _ hr hb =>
    intro here
    refine enter fun frame => (rendering (rangeHeader var hr)).thenStep fun header => ?_
    exact (setVariable var _ _).andThen ((bodyUnder hbelow _ hb _).andThen leave)
  case forEach var _ _ _ _ _ _ ht hi hb =>
    intro here
    have hheader := rendering (forEachHeader hidiom.styled var ht hi)
    refine enter fun frame => hheader.thenStep fun header => ?_
    exact (setVariable var _ _).andThen ((bodyUnder hbelow _ hb _).andThen leave)
  case infinite h => exact bodyUnder hbelow _ h
  case breakTo _ => exact line _
  case continueTo _ => exact line _
  case ret h =>
    cases h with
    | none => exact line _
    | some h => exact (print_expr h).bindEq fun _ => line _
  case delete array h => exact hidiom.delete h array
  case comment text multiline => exact braced_comment text multiline

/-- **Tied nodes are printed alike under an idiom that says the same about them.** -/
theorem braced_nodeTo {demand : Option Category} (h : tie.pair m n demand a b) :
    tie.Prints Eq (Braced.nodeTo idiom left m a) (Braced.nodeTo idiom right n b) := by
  induction h using tie.recursion with
  | zero _ _ _ _ hfault => exact .throw (.fault hfault)
  | succ m n ih _ a b h hnode =>
    unfold Braced.nodeTo
    generalize hx : left.arena.node a = x at hnode
    generalize hy : right.arena.node b = y at hnode
    cases hnode with
    | error hfault => exact .throw (.fault hfault)
    | ok hnode =>
      cases hnode with
      | expr _ => exact (print_expr (tie.recast h hx)).bindEq fun _ => line _
      | stmt hs =>
        exact braced_stmt hidiom ih (Arena.stmt_of_node hx) (Arena.stmt_of_node hy) hs
      | decl _ => exact hidiom.decl (tie.recast h hx)
      | defn hd => exact hidiom.defn ih hd
      | type ty => exact (allowed (typeName ty)).bindEq fun _ => line _

theorem braced_node {demand : Option Category} (h : tie.pair m n demand a b) :
    tie.Prints Eq (Braced.node idiom left a) (Braced.node idiom right b) :=
  braced_nodeTo hidiom (tie.restart h)

end Node

/-! ## Definitions and imports -/

theorem paramList {params params' : List Param}
    (h : List.Forall₂ (Param.Tied (tie.pair m n)) params params') :
    Concur tie.Error Eq (Braced.paramList left params) (Braced.paramList right params') := by
  refine Concur.mapMEq h fun p p' hp => (typeAt hp.ty).bindEq fun _ => ?_
  rw [hp.name]
  exact .ok rfl

theorem signatureOf (front name : String) {params params' : List Param} {ret ret' : NodeId}
    (hp : List.Forall₂ (Param.Tied (tie.pair m n)) params params')
    (hr : tie.pair m n (some .type) ret ret') :
    Concur tie.Error Eq (Braced.signatureOf left front name params ret)
      (Braced.signatureOf right front name params' ret') :=
  (paramList hp).bindEq fun _ => (typeAt hr).bindEq fun _ => .ok rfl

/-- The refusal of a definition whose declaration is of another kind. -/
theorem notDeclared (definition : String) {d d' : Decl} (h : d.Tied (tie.pair m n) d') :
    tie.Error (Braced.notDeclared definition d) (Braced.notDeclared definition d') := by
  unfold Braced.notDeclared
  rw [h.kindName_eq]
  exact .malformed _ _

theorem variablesLine {style : Braced.Style} (hstyle : tie.Styled style)
    (h : tie.pair m n (some .declaration) a b) :
    tie.Prints Eq (Braced.variablesLine style left a) (Braced.variablesLine style right b) :=
  (rendering (varsText hstyle h)).bindEq fun _ => line _

section Definition

variable {below below' : NodeId → Emit Unit} (hbelow : Prints.Below tie m n below below')
include hbelow

theorem separated {ids ids' : List NodeId} (h : List.Forall₂ (tie.pair m n none) ids ids') :
    tie.Prints Eq (Braced.separated below ids) (Braced.separated below' ids') := by
  cases h with
  | nil => exact .pure rfl
  | cons hfirst hrest =>
    refine (hbelow hfirst).bindEq fun _ => Keeps.forM hrest fun _ _ hid => ?_
    exact blankLine.bindEq fun _ => hbelow hid

theorem braced_function (header : String) {decl decl' functionBody functionBody' : NodeId}
    (hd : tie.pair m n (some .declaration) decl decl')
    (hb : tie.pair m n (some .statement) functionBody functionBody') :
    tie.Prints Eq (Braced.function left below header decl functionBody)
      (Braced.function right below' header decl' functionBody') := by
  refine (inferring (infer_declare hd)).bindEq fun _ here => enter fun frame => ?_
  exact (inferring (infer_params hd) _).andThen ((bodyUnder hbelow header hb _).andThen leave)

theorem entryPoint (header : String) {ids ids' : List NodeId}
    (h : List.Forall₂ (tie.pair m n none) ids ids') (tail : Option String) :
    tie.Prints Eq (Braced.entryPoint left below header ids tail)
      (Braced.entryPoint right below' header ids' tail) := by
  refine (openBlock header).bindEq fun _ here => indent.andThen (enter fun frame => ?_)
  refine (items hbelow h _).andThen ((tailLine tail _).andThen ?_)
  exact leave.andThen (dedent.andThen (closeBlock here))

end Definition

/-! ### Java -/

theorem java_styled : tie.Styled Java.style := fun ty _ => .ite (.ok rfl) (typeName ty)

theorem java_signature (place : Java.Enclosing) {d d' : Decl} (h : d.Tied (tie.pair m n) d') :
    Concur tie.Error Eq (Java.signature left place d) (Java.signature right place d') := by
  have htied := h
  cases h with
  | function name modifiers hp hr _ => exact signatureOf _ name hp hr
  | _ => exact .error (notDeclared _ htied)

theorem java_parentClause {ids ids' : List NodeId}
    (h : List.Forall₂ (tie.pair m n (some .type)) ids ids') :
    Concur tie.Error Eq (Java.parentClause left ids) (Java.parentClause right ids') := by
  cases h with
  | nil => exact .ok rfl
  | cons hfirst hrest =>
    have hnames := typeNames hrest
    cases hrest with
    | nil => exact (typeAt hfirst).bindEq fun _ => .ok rfl
    | cons _ _ => exact (typeAt hfirst).bindEq fun _ => hnames.bindEq fun _ => .ok rfl

theorem java_classHeader (place : Java.Enclosing) {d d' : Decl} (h : d.Tied (tie.pair m n) d') :
    Concur tie.Error Eq (Java.classHeader left place d) (Java.classHeader right place d') := by
  have htied := h
  cases h with
  | classHead name modifiers hp => exact (java_parentClause hp).bindEq fun _ => .ok rfl
  | _ => exact .error (notDeclared _ htied)

theorem java_imports (path : List String) (items : ImportItems) (static : Bool) :
    tie.Prints Eq (Java.imports path items static) (Java.imports path items static) := by
  cases items with
  | wholeModule | all => exact line _
  | members names => exact linesOf names _

theorem java_decl (h : tie.pair m n (some .declaration) a b) :
    tie.Prints Eq (Java.decl left a) (Java.decl right b) := by
  unfold Java.decl
  refine (follow (decl h)).bind fun d d' htied => ?_
  have hd := htied
  cases hd with
  | vars _ _ _ => exact variablesLine java_styled h
  | function _ _ _ _ _ =>
    exact (inferring (infer_declare h)).bindEq fun _ =>
      (allowed (java_signature .own htied)).bindEq fun _ => line _
  | classHead _ _ _ => exact (allowed (java_classHeader .own htied)).bindEq fun _ => line _
  | imports path items static => exact java_imports path items static
  | package _ => exact line _
  | includes _ _ => exact .throw (.refusal tie _)

section Java

variable {below below' : NodeId → Emit Unit} (hbelow : Prints.Below tie m n below below')
include hbelow

theorem java_function (place : Java.Enclosing) {decl decl' functionBody functionBody' : NodeId}
    (hd : tie.pair m n (some .declaration) decl decl')
    (hb : tie.pair m n (some .statement) functionBody functionBody') :
    tie.Prints Eq (Java.function left below place decl functionBody)
      (Java.function right below' place decl' functionBody') := by
  refine (follow (Tie.decl hd)).bind fun d d' htied => ?_
  exact (allowed (java_signature place htied)).bindEq fun header =>
    braced_function hbelow header hd hb

theorem java_classBody (place : Java.Enclosing) {decl decl' : NodeId} {ids ids' : List NodeId}
    (hd : tie.pair m n (some .declaration) decl decl')
    (hm : List.Forall₂ (tie.pair m n none) ids ids') :
    tie.Prints Eq (Java.classBody left below place decl ids)
      (Java.classBody right below' place decl' ids') := by
  refine (follow (Tie.decl hd)).bind fun d d' htied => ?_
  refine (allowed (java_classHeader place htied)).bindEq fun header => ?_
  refine (openBlock header).bindEq fun _ here => indent.andThen (enter fun frame => ?_)
  exact (separated hbelow hm _).andThen (leave.andThen (dedent.andThen (closeBlock here)))

theorem java_staticMember : Prints.Below tie m n (Java.staticMember left below)
    (Java.staticMember right below') := by
  intro demand a b h
  refine (follow (tie.found h)).bind fun x y hxy => ?_
  cases hxy with
  | defn hd =>
    cases hd with
    | function hd hb => exact java_function hbelow .mainClass hd hb
    | classBody hd hm => exact java_classBody hbelow .mainClass hd hm
    | program _ _ _ => exact hbelow h
  | expr _ | stmt _ | decl _ | type _ => exact hbelow h

theorem java_wrapped {ids ids' : List NodeId} (h : List.Forall₂ (tie.pair m n none) ids ids') :
    tie.Prints Eq (Java.wrapped left below ids) (Java.wrapped right below' ids') := by
  refine (follow (sections h)).bind fun s s' hs => (preamble hbelow hs.preamble).bindEq fun _ => ?_
  refine (openBlock _).bindEq fun _ here => indent.andThen ?_
  refine (definitions (java_staticMember hbelow) hs.definitions _).andThen ?_
  exact (entryPoint hbelow _ hs.statements none _).andThen (dedent.andThen (closeBlock here))

theorem java_defn {d d' : Def} (h : d.Tied (tie.pair m n) tie.soft d') :
    tie.Prints Eq (Java.defn left below d) (Java.defn right below' d') := by
  cases h with
  | program hb hm _ =>
    simp only [Java.defn]
    rw [hm, tie.isOn_eq_of_ne .unitMode nofun]
    exact .ite (spaced hbelow .none hb) (java_wrapped hbelow hb)
  | function hd hb => exact java_function hbelow .own hd hb
  | classBody hd hm => exact java_classBody hbelow .own hd hm

end Java

theorem java_idiomatic : tie.Idiomatic Java.idiom where
  styled := java_styled
  decl := java_decl
  defn := java_defn
  delete _ _ := .throw (.refusal tie _)

/-! ### C++ -/

theorem cpp_styled : tie.Styled Cpp.style := fun ty _ =>
  .ite (.error (.refusal tie _)) (typeName ty)

theorem cpp_signature {d d' : Decl} (h : d.Tied (tie.pair m n) d') :
    Concur tie.Error Eq (Cpp.signature left d) (Cpp.signature right d') := by
  have htied := h
  cases h with
  | function name modifiers hp hr _ => exact signatureOf _ name hp hr
  | _ => exact .error (notDeclared _ htied)

theorem cpp_classHeader {d d' : Decl} (h : d.Tied (tie.pair m n) d') :
    Concur tie.Error Eq (Cpp.classHeader left d) (Cpp.classHeader right d') := by
  have htied := h
  cases h with
  | classHead name modifiers hp => exact (typeNames hp).bindEq fun _ => .ok rfl
  | _ => exact .error (notDeclared _ htied)

theorem cpp_imports (path : List String) (items : ImportItems) :
    tie.Prints Eq (Cpp.imports path items) (Cpp.imports path items) := by
  cases items with
  | wholeModule | all => exact line _
  | members names => exact linesOf names _

theorem cpp_decl (h : tie.pair m n (some .declaration) a b) :
    tie.Prints Eq (Cpp.decl left a) (Cpp.decl right b) := by
  unfold Cpp.decl
  refine (follow (decl h)).bind fun d d' htied => ?_
  have hd := htied
  cases hd with
  | vars _ _ _ => exact variablesLine cpp_styled h
  | function _ _ _ _ _ =>
    exact (inferring (infer_declare h)).bindEq fun _ =>
      (allowed (cpp_signature htied)).bindEq fun _ => line _
  | classHead _ _ _ => exact (allowed (cpp_classHeader htied)).bindEq fun _ => line _
  | imports path items _ => exact cpp_imports path items
  | package _ => exact .throw (.refusal tie _)
  | includes _ system => cases system <;> exact line _

section Cpp

variable {below below' : NodeId → Emit Unit} (hbelow : Prints.Below tie m n below below')
include hbelow

theorem cpp_classBody {decl decl' : NodeId} {ids ids' : List NodeId}
    (hd : tie.pair m n (some .declaration) decl decl')
    (hm : List.Forall₂ (tie.pair m n none) ids ids') :
    tie.Prints Eq (Cpp.classBody left below decl ids) (Cpp.classBody right below' decl' ids') := by
  refine (follow (Tie.decl hd)).bind fun d d' htied => ?_
  refine (allowed (cpp_classHeader htied)).bindEq fun header => ?_
  refine (openBlock header).bindEq fun _ => ?_
  refine (line _).bindEq fun _ here => indent.andThen (enter fun frame => ?_)
  exact (separated hbelow hm _).andThen (leave.andThen (dedent.andThen (line _ here)))

theorem cpp_wrapped {ids ids' : List NodeId} (h : List.Forall₂ (tie.pair m n none) ids ids') :
    tie.Prints Eq (Cpp.wrapped left below ids) (Cpp.wrapped right below' ids') := by
  refine (follow (sections h)).bind fun s s' hs => (preamble hbelow hs.preamble).bindEq fun _ => ?_
  exact (definitions hbelow hs.definitions).bindEq fun _ => entryPoint hbelow _ hs.statements _

theorem cpp_defn {d d' : Def} (h : d.Tied (tie.pair m n) tie.soft d') :
    tie.Prints Eq (Cpp.defn left below d) (Cpp.defn right below' d') := by
  cases h with
  | program hb _ he =>
    simp only [Cpp.defn]
    rw [tie.soft_isSome he, tie.isOn_eq_of_ne .unitMode nofun]
    exact .ite (spaced hbelow .none hb) (cpp_wrapped hbelow hb)
  | function hd hb =>
    refine (follow (Tie.decl hd)).bind fun d d' htied => ?_
    exact (allowed (cpp_signature htied)).bindEq fun header => braced_function hbelow header hd hb
  | classBody hd hm => exact cpp_classBody hbelow hd hm

end Cpp

theorem cpp_idiomatic : tie.Idiomatic Cpp.idiom where
  styled := cpp_styled
  decl := cpp_decl
  defn := cpp_defn
  delete h _ := (print_expr h).bindEq fun _ => line _

end Tie

end Interlingua
