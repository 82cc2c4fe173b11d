import Interlingua.Proofs.Lockstep.Printer

/-!
# Statements in Python in lockstep

Tied nodes are printed alike (`Tie.python_node`).  A loop that counts counts on both sides and over
tied ranges; what a loop does at the end of a round is looked up on the stack of loops, whose
entries are tied as well.
-/

namespace Interlingua

namespace Tie

variable {left right : View} {tie : Tie left right} {m n : Nat} {a b : NodeId}

/-- A header, and what is below it. -/
theorem suite (header : String) {inside inside' : Emit Unit} (h : tie.Prints Eq inside inside') :
    tie.Prints Eq (Python.suite header inside) (Python.suite header inside') := by
  refine (line _).bindEq fun _ here => indent.andThen (enter fun frame => ?_)
  exact (h _).andThen (leave.andThen dedent)

theorem isPlainBreak {demand : Option Category} (h : tie.pair m n demand a b) :
    Concur tie.fault Eq (Python.isPlainBreak left.arena a) (Python.isPlainBreak right.arena b) := by
  refine (tie.found h).bind fun x y hxy => ?_
  cases hxy with
  | stmt hs =>
    cases hs with
    | @breakTo target target' h =>
      have hsome := tie.soft_isSome h
      cases target <;> cases target' <;> first | exact .ok rfl | cases hsome
    | _ => exact .ok rfl
  | _ => exact .ok rfl

theorem withoutBreak {ids ids' : List NodeId} (h : List.Forall₂ (tie.pair m n none) ids ids') :
    Concur tie.fault (List.Forall₂ (tie.pair m n none)) (Python.withoutBreak left.arena ids)
      (Python.withoutBreak right.arena ids') := by
  have hlast := rel_getLast? h
  unfold Python.withoutBreak
  generalize ids.getLast? = last at hlast
  generalize ids'.getLast? = last' at hlast
  cases hlast with
  | none => exact .ok h
  | some hlast =>
    refine (isPlainBreak hlast).bindEq fun isBreak => .ok ?_
    cases isBreak with
    | true => exact forall₂_dropLast h
    | false => exact h

section Below

variable {below below' : NodeId → Emit Unit} (hbelow : Prints.Below tie m n below below')
include hbelow

theorem orPass {ids ids' : List NodeId} (h : List.Forall₂ (tie.pair m n none) ids ids') :
    tie.Prints Eq (Python.orPass below ids) (Python.orPass below' ids') := by
  cases h with
  | nil => exact line _
  | cons hfirst hrest => exact items hbelow (.cons hfirst hrest)

theorem statements (h : tie.pair m n (some .statement) a b) :
    tie.Prints Eq (Python.statements left below a) (Python.statements right below' b) := by
  refine (follow (stmt h)).bind fun s s' hs => ?_
  cases hs with
  | block hitems => exact orPass hbelow hitems
  | _ => exact hbelow h

theorem caseStatements (h : tie.pair m n (some .statement) a b) :
    tie.Prints Eq (Python.caseStatements left below a) (Python.caseStatements right below' b) := by
  refine (follow (stmt h)).bind fun s s' hs => ?_
  cases hs with
  | block hitems => exact (follow (withoutBreak hitems)).bind fun _ _ hkept => orPass hbelow hkept
  | @breakTo target target' htarget =>
    have hsome := tie.soft_isSome htarget
    cases target <;> cases target' <;> first | cases hsome; done | skip
    · exact line _
    · exact hbelow h
  | _ => exact hbelow h

/-! ## Conditionals and switches -/

theorem arms (keyword : String) {branches branches' : List Branch}
    (h : List.Forall₂ (Branch.Tied (tie.pair m n)) branches branches') :
    tie.Prints Eq (Python.arms left below keyword branches)
      (Python.arms right below' keyword branches') := by
  induction h generalizing keyword with
  | nil => exact .pure rfl
  | cons hbranch _ ih =>
    exact (print_expr hbranch.cond).bindEq fun _ =>
      (suite _ (statements hbelow hbranch.body)).bindEq fun _ => ih "elif"

theorem python_conditional {branches branches' : List Branch} {otherwise otherwise' : Option NodeId}
    (hb : List.Forall₂ (Branch.Tied (tie.pair m n)) branches branches')
    (ho : Option.Rel (tie.pair m n (some .statement)) otherwise otherwise') :
    tie.Prints Eq (Python.conditional left below branches otherwise)
      (Python.conditional right below' branches' otherwise') :=
  (arms hbelow "if" hb).bindEq fun _ =>
    Keeps.optionForM ho fun _ _ hbody => suite _ (statements hbelow hbody)

omit hbelow in
theorem casePattern {label label' : CaseLabel} (h : label.Tied (tie.pair m n) label') :
    tie.Renders Eq (Python.casePattern left label) (Python.casePattern right label') := by
  cases h with
  | leaves h | falls h => exact render_expr h
  | default => exact .pure rfl

theorem python_cases (pending : List String) {cases cases' : List Case}
    (h : List.Forall₂ (Case.Tied (tie.pair m n)) cases cases') :
    tie.Prints Eq (Python.cases left below pending cases)
      (Python.cases right below' pending cases') := by
  induction h generalizing pending with
  | nil =>
    refine .ite ((line _).bindEq fun _ here => ?_) (.pure rfl)
    exact indent.andThen ((line _ _).andThen dedent)
  | @cons case case' _ _ hcase _ ih =>
    obtain ⟨label, body⟩ := case
    obtain ⟨label', body'⟩ := case'
    obtain ⟨hlabel, hbody⟩ := hcase
    refine (rendering (casePattern hlabel)).bindEq fun pattern => ?_
    have hsuite : tie.Prints Eq
        (Python.suite ("case " ++ Python.patternLabel (pending ++ [pattern]))
          (Python.caseStatements left below body))
        (Python.suite ("case " ++ Python.patternLabel (pending ++ [pattern]))
          (Python.caseStatements right below' body')) :=
      suite _ (caseStatements hbelow hbody)
    cases hlabel with
    | falls _ =>
      exact (follow (isEmptyBlock hbody)).bindEq fun _ => .ite (ih _) (.throw (.refusal tie _))
    | leaves _ | default => exact hsuite.bindEq fun _ => ih []

theorem python_switch {subject subject' : NodeId} {cases cases' : List Case}
    (hs : tie.exprs m n subject subject')
    (hc : List.Forall₂ (Case.Tied (tie.pair m n)) cases cases') :
    tie.Prints Eq (Python.switch left below subject cases)
      (Python.switch right below' subject' cases') := by
  refine (print_expr hs).bindEq fun _ => (line _).bindEq fun _ here => indent.andThen ?_
  exact (python_cases hbelow [] hc _).andThen dedent

end Below

/-! ## Loops -/

theorem exprLine (h : tie.exprs m n a b) :
    tie.Prints Eq (Python.exprLine left a) (Python.exprLine right b) :=
  (print_expr h).bindEq fun _ => line _

theorem leaveUnless (h : tie.exprs m n a b) :
    tie.Prints Eq (Python.leaveUnless left a) (Python.leaveUnless right b) := by
  refine (rendering (unaryOperand below_expr _ .not h)).bindEq fun _ => ?_
  exact (line _).bindEq fun _ here => indent.andThen ((line _ _).andThen dedent)

theorem roundEnd {tail tail' : RoundEnd} (h : tie.Ending tail tail') :
    tie.Prints Eq (Python.roundEnd left tail) (Python.roundEnd right tail') := by
  cases h with
  | update h => exact exprLine h
  | check h => exact leaveUnless h

/-- The innermost loops of two printers are tied. -/
theorem innermost :
    tie.Prints (fun s s' => Option.Rel tie.Looped s.loops.head? s'.loops.head?) get get := by
  intro here s s' h
  refine .ok ?_ h
  rw [h.loops, h.loops']
  exact rel_head? h.tied

theorem continueTo {target target' : Option NodeId} (h : tie.soft target target') :
    tie.Prints Eq (Python.continueTo left target) (Python.continueTo right target') := by
  refine innermost.bind fun s s' hloop => ?_
  generalize s.loops.head? = loop at hloop
  generalize s'.loops.head? = loop' at hloop
  cases hloop with
  | none => exact line _
  | some hloop =>
    obtain ⟨⟨_, _, _, hid⟩, htail⟩ := hloop
    -- both jumps leave the innermost loop, or both stay and end its round first
    have hend := (Keeps.optionForM htail fun _ _ => roundEnd).bindEq fun _ => line "continue"
    dsimp only
    rw [tie.soft_jump hid h]
    exact .ite (.throw (.refusal tie _)) hend

section Loop

variable {below below' : NodeId → Emit Unit} (hbelow : Prints.Below tie m n below below')
include hbelow

theorem round {tail tail' : Option RoundEnd} (h : tie.pair m n (some .statement) a b)
    (ht : Option.Rel tie.Ending tail tail') :
    tie.Prints Eq (Python.round left below a tail) (Python.round right below' b tail') := by
  cases ht with
  | none => exact statements hbelow h
  | some ht =>
    refine (follow (isEmptyBlock h)).bindEq fun isEmpty => ?_
    exact .ite ((statements hbelow h).bindEq fun _ => roundEnd ht) (roundEnd ht)

theorem python_doWhile {body body' cond cond' : NodeId}
    (hb : tie.pair m n (some .statement) body body')
    (hc : tie.exprs m n cond cond') :
    tie.Prints Eq (Python.doWhile left below body cond) (Python.doWhile right below' body' cond') :=
  suite _ (round hbelow hb (.some (.check hc)))

omit hbelow in
theorem offset (less : Bool) (h : tie.exprs m n a b) :
    tie.Renders Eq (Python.offset left a less) (Python.offset right b less) := by
  refine (Renders.follow (expr h)).bind fun e e' he => ?_
  cases he with
  | int value => exact .pure rfl
  | _ => cases less <;> exact (operand below_expr _ .left h).bindEq fun _ => .pure rfl

omit hbelow in
theorem negated (h : tie.exprs m n a b) :
    tie.Renders Eq (Python.negated left a) (Python.negated right b) := by
  refine (Renders.follow (expr h)).bind fun e e' he => ?_
  cases he with
  | int value => exact .pure rfl
  | _ => exact unary below_expr .neg h

omit hbelow in
theorem rangeStop {range range' : Range} (h : range.Tied (tie.pair m n) range') :
    tie.Renders Eq (Python.rangeStop left range) (Python.rangeStop right range') := by
  unfold Python.rangeStop
  rw [h.inclusive, h.descending]
  exact .ite (offset _ h.stop) (render_expr h.stop)

omit hbelow in
theorem rangeStep {range range' : Range} (h : range.Tied (tie.pair m n) range') :
    tie.Renders Eq (Python.rangeStep left range) (Python.rangeStep right range') := by
  obtain ⟨start, stop, step, inclusive, descending⟩ := range
  obtain ⟨start', stop', step', inclusive', descending'⟩ := range'
  obtain ⟨-, -, hstep, rfl, rfl⟩ := h
  cases hstep with
  | none => cases descending <;> exact .pure rfl
  | some hstep =>
    cases descending with
    | true => exact (negated hstep).bindEq fun _ => .pure rfl
    | false => exact (render_expr hstep).bindEq fun _ => .pure rfl

omit hbelow in
theorem rangeText {range range' : Range} (h : range.Tied (tie.pair m n) range') :
    tie.Renders Eq (Python.rangeText left range) (Python.rangeText right range') := by
  unfold Python.rangeText
  refine (rangeStop h).bindEq fun stop => (rangeStep h).bindEq fun step => ?_
  refine (Renders.follow (expr h.start)).bind fun e e' he => ?_
  have hfull (step : Option String) : tie.Renders Eq
      (do
        let start ← left.expr range.start
        return "range" ++ parenthesized (commas (start :: stop :: step.toList)))
      (do
        let start ← right.expr range'.start
        return "range" ++ parenthesized (commas (start :: stop :: step.toList))) :=
    (render_expr h.start).bindEq fun _ => .pure rfl
  cases step with
  | some step => cases he <;> exact hfull (some step)
  | none =>
    cases he with
    | int value =>
      rcases value with (_ | _) | _
      · exact .pure rfl
      · exact hfull none
      · exact hfull none
    | _ => exact hfull none

theorem python_rangeFor (var : String) {range range' : Range} {body body' : NodeId}
    (hr : range.Tied (tie.pair m n) range') (hb : tie.pair m n (some .statement) body body') :
    tie.Prints Eq (Python.rangeFor left below var range body)
      (Python.rangeFor right below' var range' body') := by
  intro here
  refine enter fun frame => (rendering (rangeText hr)).thenStep fun call => ?_
  exact (setVariable var .int _).andThen ((suite _ (statements hbelow hb) _).andThen leave)

theorem python_forEach (var : String) {ty ty' iterable iterable' body body' : NodeId}
    (ht : tie.pair m n (some .type) ty ty') (hi : tie.exprs m n iterable iterable')
    (hb : tie.pair m n (some .statement) body body') :
    tie.Prints Eq (Python.forEach left below var ty iterable body)
      (Python.forEach right below' var ty' iterable' body') := by
  intro here
  refine enter fun frame => (print_expr hi).thenStep fun iterableText => ?_
  refine (follow (Tie.ty ht)).thenStep fun declared => ?_
  extract_lets rest rest'
  have hrest (item : Ty) : tie.Moves (here.inside frame) here Eq (rest item) (rest' item) :=
    (setVariable var item _).andThen ((suite _ (statements hbelow hb) _).andThen leave)
  split
  · exact hrest declared
  · exact (rendering (inferred hi)).thenStep fun _ => hrest _

theorem python_forLoop {demand : Option Category} {k l : Nat} (hid : tie.pair k l demand a b)
    {init init' cond cond' update update' : Option NodeId} {body body' : NodeId}
    (hi : Option.Rel (tie.pair m n none) init init') (hc : Option.Rel (tie.exprs m n) cond cond')
    (hu : Option.Rel (tie.exprs m n) update update')
    (hb : tie.pair m n (some .statement) body body') :
    tie.Prints Eq (Python.forLoop left below a init cond update body)
      (Python.forLoop right below' b init' cond' update' body') := by
  refine (follow (counting? hi hc hu hb)).bind fun counted counted' hcounted => ?_
  rcases hcounted with @⟨⟨var, range⟩, ⟨_, range'⟩, rfl, hrange⟩ | _
  · exact inLoop ⟨⟨_, _, _, hid⟩, .none⟩ (python_rangeFor hbelow var hrange hb)
  · -- a loop that does not count: its update ends each round
    have htail : Option.Rel tie.Ending (update.map .update) (update'.map .update) := by
      cases hu with
      | none => exact .none
      | some hu => exact .some (.update hu)
    intro here
    refine enter fun frame => (Keeps.optionForM hi (fun _ _ hid => hbelow hid) _).andThen ?_
    have hrest (condText : String) : tie.Moves (here.inside frame) here Eq
        (do
          Python.suite ("while " ++ condText) (Emit.inLoop ⟨a, update.map .update⟩
            (Python.round left below body (update.map .update)))
          Emit.leave)
        (do
          Python.suite ("while " ++ condText) (Emit.inLoop ⟨b, update'.map .update⟩
            (Python.round right below' body' (update'.map .update)))
          Emit.leave) :=
      (suite _ (inLoop ⟨⟨_, _, _, hid⟩, htail⟩ (round hbelow hb htail)) _).andThen leave
    cases hc with
    | none => exact hrest "True"
    | some hc => exact (print_expr hc).thenStep hrest

end Loop

/-! ## Statements -/

theorem python_comment (text : String) :
    tie.Prints Eq (Python.comment text) (Python.comment text) :=
  linesOf _ _

theorem python_stmt {below below' : NodeId → Emit Unit} (hbelow : Prints.Below tie m n below below')
    {demand : Option Category} {k l : Nat} (hid : tie.pair k l demand a b) {s s' : Stmt}
    (h : s.Tied (tie.pair m n) tie.soft s') :
    tie.Prints Eq (Python.stmt left below a s) (Python.stmt right below' b s') := by
  cases h <;> unfold Python.stmt
  case block h =>
    intro here
    exact enter fun frame => (items hbelow h _).andThen leave
  case expr h => exact exprLine h
  case assign op _ _ _ _ ht hv =>
    exact (rendering (python_assignment below_expr op ht hv)).bindEq fun _ => line _
  case multiAssign h => exact items hbelow h
  case conditional hb ho => exact python_conditional hbelow hb ho
  case switch hs hc => exact python_switch hbelow hs hc
  case whileLoop hc hb =>
    exact (print_expr hc).bindEq fun _ =>
      inLoop ⟨⟨_, _, _, hid⟩, .none⟩ (suite _ (statements hbelow hb))
  case doWhile hb hc =>
    exact inLoop ⟨⟨_, _, _, hid⟩, .some (.check hc)⟩ (python_doWhile hbelow hb hc)
  case forLoop hi hc hu hb => exact python_forLoop hbelow hid hi hc hu hb
  case rangeFor var _ _ _ _ hr hb =>
    exact inLoop ⟨⟨_, _, _, hid⟩, .none⟩ (python_rangeFor hbelow var hr hb)
  case forEach var _ _ _ _ _ _ ht hi hb =>
    exact inLoop ⟨⟨_, _, _, hid⟩, .none⟩ (python_forEach hbelow var ht hi hb)
  case infinite h => exact inLoop ⟨⟨_, _, _, hid⟩, .none⟩ (suite _ (statements hbelow h))
  case breakTo _ => exact line _
  case continueTo h => exact continueTo h
  case ret h =>
    cases h with
    | none => exact line _
    | some h => exact (print_expr h).bindEq fun _ => line _
  case delete _ h => exact (print_expr h).bindEq fun _ => line _
  case comment text _ => exact python_comment text

/-! ## Declarations -/

theorem declarator (typeNote : Option String) {d d' : Declarator} (h : d.Tied (tie.pair m n) d') :
    tie.Renders Eq (Python.declarator left typeNote d) (Python.declarator right typeNote d') := by
  obtain ⟨name, init⟩ := d
  obtain ⟨_, init'⟩ := d'
  obtain ⟨rfl, hinit⟩ := h
  cases hinit with
  | none => cases typeNote <;> exact .pure rfl
  | some hinit => exact (render_expr hinit).bindEq fun _ => .pure rfl

theorem typeNote? (h : tie.pair m n (some .type) a b) :
    Concur tie.Error Eq (Python.typeNote? left a) (Python.typeNote? right b) := by
  have hty := ty h
  unfold Python.typeNote?
  generalize left.arena.ty a = declared at hty
  generalize right.arena.ty b = declared' at hty
  cases hty with
  | error hfault => exact .error (.fault hfault)
  | ok heq =>
    subst heq
    exact .ite ((typeName _).bindEq fun _ => .ok rfl) (.ok rfl)

theorem python_imports (path : List String) (items : ImportItems) :
    tie.Prints Eq (Python.imports path items) (Python.imports path items) := by
  cases items <;> exact line _

theorem python_decl (h : tie.pair m n (some .declaration) a b) :
    tie.Prints Eq (Python.decl left a) (Python.decl right b) := by
  refine (follow (decl h)).bind fun d d' hd => ?_
  cases hd with
  | vars _ ht hd =>
    refine (allowed (typeNote? ht)).bindEq fun typeNote => ?_
    refine Keeps.bindEq (Keeps.forM hd fun _ _ hd => ?_) fun _ => inferring (infer_declare h)
    exact (rendering (declarator typeNote hd)).bindEq fun _ => line _
  | function _ _ _ _ _ | classHead _ _ _ => exact inferring (infer_declare h)
  | imports path items _ => exact python_imports path items
  | package _ => exact .pure rfl
  | includes _ _ => exact .throw (.refusal tie _)

/-! ## Definitions -/

theorem param {p p' : Param} (h : p.Tied (tie.pair m n) p') :
    Concur tie.Error Eq (Python.param left p) (Python.param right p') := by
  refine (typeNote? h.ty).bindEq fun typeNote => ?_
  rw [h.name]
  cases typeNote <;> exact .ok rfl

theorem functionHeader (name : String) {params params' : List Param} {ret ret' : NodeId}
    (hasReceiver : Bool) (hp : List.Forall₂ (Param.Tied (tie.pair m n)) params params')
    (hr : tie.pair m n (some .type) ret ret') :
    Concur tie.Error Eq (Python.functionHeader left name params ret hasReceiver)
      (Python.functionHeader right name params' ret' hasReceiver) :=
  (Concur.mapMEq hp fun _ _ => param).bindEq fun _ => (typeNote? hr).bindEq fun _ => .ok rfl

theorem python_parentClause {ids ids' : List NodeId}
    (h : List.Forall₂ (tie.pair m n (some .type)) ids ids') :
    Concur tie.Error Eq (Python.parentClause left ids) (Python.parentClause right ids') :=
  (typeNames h).bindEq fun _ => .ok rfl

theorem runGuard (entry : String) :
    tie.Prints Eq (Python.runGuard entry) (Python.runGuard entry) := by
  refine blankLine.bindEq fun _ => (line _).bindEq fun _ here => ?_
  exact indent.andThen ((line _ _).andThen dedent)

theorem entryName (h : tie.pair m n (some .definition) a b) :
    tie.Prints Eq (Python.entryName left a) (Python.entryName right b) := by
  refine (follow (defn h)).bind fun d d' hd => ?_
  cases hd with
  | function hd _ =>
    refine (follow (decl hd)).bind fun d d' htied => ?_
    have hd := htied
    cases hd with
    | function _ _ _ _ _ => exact .pure rfl
    | _ => exact .throw (.declRefusal tie htied _)
  | program _ _ _ | classBody _ _ => exact .throw (.refusal tie _)

section Definition

variable {below below' : NodeId → Emit Unit} (hbelow : Prints.Below tie m n below below')
include hbelow

theorem python_function {decl decl' body body' : NodeId}
    (hd : tie.pair m n (some .declaration) decl decl')
    (hb : tie.pair m n (some .statement) body body') :
    tie.Prints Eq (Python.function left below decl body)
      (Python.function right below' decl' body') := by
  refine (follow (Tie.decl hd)).bind fun d d' htied => ?_
  have htied' := htied
  cases htied' with
  | @function name _ _ _ _ modifiers _ _ hp hr ho =>
    refine (inferring (infer_declare hd)).bindEq fun _ => ?_
    rw [ho]
    refine (allowed (functionHeader name _ hp hr)).bindEq fun header => ?_
    extract_lets rest rest'
    have hrest : tie.Prints Eq (rest ()) (rest' ()) := by
      intro here
      refine enter fun frame => (inferring (infer_params hd) _).andThen ?_
      exact (suite header (statements hbelow hb) _).andThen leave
    exact .ite ((line _).bindEq fun _ => hrest) hrest
  | _ => exact .throw (.declRefusal tie htied _)

theorem python_classBody {decl decl' : NodeId} {ids ids' : List NodeId}
    (hd : tie.pair m n (some .declaration) decl decl')
    (hm : List.Forall₂ (tie.pair m n none) ids ids') :
    tie.Prints Eq (Python.classBody left below decl ids)
      (Python.classBody right below' decl' ids') := by
  refine (follow (Tie.decl hd)).bind fun d d' htied => ?_
  have htied' := htied
  cases htied' with
  | classHead name _ hp =>
    refine (allowed (python_parentClause hp)).bindEq fun clause => suite _ ?_
    have hspaced := spaced hbelow .none hm
    cases hm with
    | nil => exact (line _).bindEq fun _ => hspaced
    | cons _ _ => exact hspaced
  | _ => exact .throw (.declRefusal tie htied _)

theorem python_wrapped {ids ids' : List NodeId} (h : List.Forall₂ (tie.pair m n none) ids ids') :
    tie.Prints Eq (Python.wrapped left below ids) (Python.wrapped right below' ids') := by
  refine (follow (sections h)).bind fun s s' hs => (preamble hbelow hs.preamble).bindEq fun _ => ?_
  refine (definitions hbelow hs.definitions).bindEq fun _ => ?_
  exact (suite _ (orPass hbelow hs.statements)).bindEq fun _ => runGuard _

theorem python_program {ids ids' : List NodeId} {entry entry' : Option NodeId}
    (h : List.Forall₂ (tie.pair m n none) ids ids') (he : tie.soft entry entry') :
    tie.Prints Eq (Python.program left below ids entry)
      (Python.program right below' ids' entry') := by
  unfold Python.program
  rw [tie.isOn_eq_of_ne .unitMode nofun]
  refine .ite ?_ (spaced hbelow .none h)
  have hsome := tie.soft_isSome he
  cases entry <;> cases entry' <;> first | cases hsome; done | skip
  · exact python_wrapped hbelow h
  · refine (spaced hbelow .none h).bindEq fun _ => ?_
    exact (entryName (tie.soft_entry he)).bindEq fun _ => runGuard _

end Definition

/-! ## Nodes -/

/-- **Tied nodes are printed alike in Python.** -/
theorem python_nodeTo {demand : Option Category} (h : tie.pair m n demand a b) :
    tie.Prints Eq (Python.nodeTo left m a) (Python.nodeTo right n b) := by
  induction h using tie.recursion with
  | zero _ _ _ _ hfault => exact .throw (.fault hfault)
  | succ m n ih _ a b h hnode =>
    unfold Python.nodeTo
    generalize hx : left.arena.node a = x at hnode
    generalize right.arena.node b = y at hnode
    cases hnode with
    | error hfault => exact .throw (.fault hfault)
    | ok hnode =>
      cases hnode with
      | expr _ => exact exprLine (tie.recast h hx)
      | stmt hs => exact python_stmt ih h hs
      | decl _ => exact python_decl (tie.recast h hx)
      | defn hd =>
        cases hd with
        | program hb _ he => exact python_program ih hb he
        | function hd hb => exact python_function ih hd hb
        | classBody hd hm => exact python_classBody ih hd hm
      | type ty => exact (allowed (typeName ty)).bindEq fun _ => line _

theorem python_node {demand : Option Category} (h : tie.pair m n demand a b) :
    tie.Prints Eq (Python.node left a) (Python.node right b) :=
  python_nodeTo (tie.restart h)

end Tie

end Interlingua
