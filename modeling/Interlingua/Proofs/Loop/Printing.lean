import Interlingua.Emit.Basic
import Interlingua.Proofs.Loop.Layout
import Interlingua.Proofs.Loop.Tree

/-!
# Printing commands

* `Emits` — what is printed are the lines of a layout, from any printer whose innermost loop ends
  its rounds in a given way.
* `Emits.suite`, `Emits.inLoop`, … — one lemma for each step that statements are printed with.
* `Command.At.emits` — a command is printed as the lines of its script.
-/

namespace Interlingua

namespace Printer

/-- The column where the next line starts. -/
def column (printer : Printer) : Nat := printer.page.level * printer.page.width

/-- What the innermost loop does at the end of a round. -/
def tail? (printer : Printer) : Option RoundEnd := printer.loops.head?.bind (·.tail)

/-- The printer after some more lines. -/
def put (printer : Printer) (lines : List Line) : Printer :=
  { printer with page := printer.page.write (String.ofList (Line.textAll lines)) }

@[simp] theorem put_page_width (printer : Printer) (lines : List Line) :
    (printer.put lines).page.width = printer.page.width := rfl

@[simp] theorem put_column (printer : Printer) (lines : List Line) :
    (printer.put lines).column = printer.column := rfl

@[simp] theorem put_tail? (printer : Printer) (lines : List Line) :
    (printer.put lines).tail? = printer.tail? := rfl

@[simp] theorem put_nil (printer : Printer) : printer.put [] = printer := by
  simp [put, Page.write, Line.textAll]

@[simp] theorem put_put (printer : Printer) (first second : List Line) :
    (printer.put first).put second = printer.put (first ++ second) := by
  simp [put, Page.write, Line.textAll, String.append_assoc, String.ofList_append]

end Printer

theorem Emit.lift_of_ok {α : Type} {action : Render α} {printer : Printer} {a : α} {scope : Scope}
    (h : action printer.scope = .ok a scope) :
    (liftM action : Emit α) printer = .ok a { printer with scope := scope } := by
  simp only [liftM, monadLift, MonadLift.monadLift, h]

/-- What a printed loop does at the end of a round is what a command does there. -/
def Tail.At (view : View) : Tail → RoundEnd → Prop
  | .update made, .update id => made.At view id
  | .check cond, .check id => cond.At view id
  | _, _ => False

/-- Lines at a column, with suites deeper by a width. -/
abbrev Layout := Nat → Nat → List Line

/-- What is printed are the lines of a layout, from any printer whose innermost loop ends its
rounds in the given way. -/
structure Emits (view : View) (tail : Option Tail) (action : Emit Unit) (layout : Layout) :
    Prop where
  run : ∀ printer : Printer, Option.Rel (Tail.At view) tail printer.tail? →
    action printer = .ok () (printer.put (layout printer.page.width printer.column))

namespace Emits

variable {view : View} {tail : Option Tail} {action next : Emit Unit} {layout after : Layout}

theorem nothing : Emits view tail (pure ()) fun _ _ => [] := by
  refine ⟨fun printer _ => ?_⟩
  rw [Printer.put_nil]
  rfl

theorem line (head : Head) {text : String} (h : text = head.text) :
    Emits view tail (Emit.line text) fun _ column => [(column, head)] := by
  refine ⟨fun printer _ => ?_⟩
  subst h
  show EStateM.Result.ok () _ = EStateM.Result.ok () _
  simp [Printer.put, Printer.column, Page.writeLine, Page.write, Page.margin, Line.textAll,
    Line.text, String.ofList_append, String.append_assoc]

theorem andThen (h : Emits view tail action layout) (hnext : Emits view tail next after) :
    Emits view tail (do action; next) fun width column => layout width column ++ after width column := by
  refine ⟨fun printer htail => ?_⟩
  rw [bind_of_ok (h.run printer htail), hnext.run _ (by simpa using htail)]
  simp

theorem congr (h : Emits view tail action layout)
    (hsame : ∀ width column, layout width column = after width column) :
    Emits view tail action after := by
  refine ⟨fun printer htail => ?_⟩
  rw [← hsame]
  exact h.run printer htail

/-- A frame that is opened is closed. -/
theorem frame (h : Emits view tail action layout) :
    Emits view tail (do Emit.enter; action; Emit.leave) layout := by
  refine ⟨fun printer htail => ?_⟩
  have hinside := h.run { printer with scope := printer.scope.enter } htail
  exact (bind_of_ok (show Emit.enter printer = .ok () _ from rfl)).trans (bind_of_ok hinside)

theorem inLoop {inner : Option Tail} {loop : Loop} (hloop : Option.Rel (Tail.At view) inner loop.tail)
    (h : Emits view inner action layout) : Emits view tail (Emit.inLoop loop action) layout := by
  refine ⟨fun printer _ => ?_⟩
  have hinside := h.run { printer with loops := loop :: printer.loops } hloop
  exact bind_of_ok hinside

/-- What is printed between indentation and dedentation starts deeper. -/
theorem deeper (h : Emits view tail action layout) :
    Emits view tail (do Emit.indent; action; Emit.dedent)
      fun width column => layout width (column + width) := by
  refine ⟨fun printer htail => ?_⟩
  have hinside := h.run { printer with page := printer.page.indent } htail
  have hcolumn : Printer.column { printer with page := printer.page.indent } =
      printer.column + printer.page.width := Nat.succ_mul _ _
  rw [hcolumn] at hinside
  exact (bind_of_ok (show Emit.indent printer = .ok () _ from rfl)).trans (bind_of_ok hinside)

/-- A header, and below it what is deeper. -/
theorem suite (head : Head) {header : String} (hhead : header ++ ":" = head.text)
    (h : Emits view tail action layout) :
    Emits view tail (Python.suite header action)
      fun width column => (column, head) :: layout width (column + width) := by
  have hall := (line head hhead).andThen h.frame.deeper
  simp only [bind_assoc] at hall
  exact hall

/-- A reference is followed without a trace. -/
theorem follow {α : Type} {result : Except Fault α} {a : α} {next : α → Emit Unit}
    (h : result = .ok a) (hnext : Emits view tail (next a) layout) :
    Emits view tail (do next (← Emit.follow result)) layout := by
  subst h
  exact hnext

/-- So is a call rendered. -/
theorem render {made : Call} {id : NodeId} {next : String → Emit Unit} (h : made.At view id)
    (hnext : Emits view tail (next made.text) layout) :
    Emits view tail (do next (← liftM (view.expr id))) layout := by
  refine ⟨fun printer htail => ?_⟩
  rw [bind_of_ok (Emit.lift_of_ok (h.expr_ok printer.scope))]
  exact hnext.run printer htail

end Emits

/-! ## What a loop does at the end of a round -/

section

variable {view : View} {tail : Option Tail} {below : NodeId → Emit Unit}

theorem Call.At.exprLine_emits {made : Call} {id : NodeId} (h : made.At view id) :
    Emits view tail (Python.exprLine view id) fun _ column => [(column, .call made)] :=
  .render h (.line (.call made) rfl)

/-- A call is never grouped. -/
theorem Call.At.negated {made : Call} {id : NodeId} {form : OperatorForm} (scope : Scope)
    (hlang : view.lang = .python) (h : made.At view id) (hform : Python.unary .not = some form) :
    view.site.unaryOperand form .not id scope = .ok ("not " ++ made.text) scope := by
  have hwraps : view.lang.wraps view.arena form id .right = .ok false := by
    cases hform
    rw [Language.wraps, Language.exprForm?, hlang]
    rcases h.exists_expr with ⟨callee, args, he⟩ | ⟨receiver, name, args, he⟩
    · rw [he]
      rfl
    · rw [he]
      rfl
  have hoperand : view.site.operand form id .right scope = .ok made.text scope := by
    unfold Site.operand
    rw [bind_of_ok (show view.site.below id scope = .ok made.text scope from h.expr_ok scope)]
    show ((liftM (view.lang.wraps view.arena form id .right) : Render Bool) >>= _) scope = _
    rw [hwraps]
    rfl
  unfold Site.unaryOperand
  cases hform
  rw [if_neg (by decide), bind_of_ok hoperand]
  rfl

theorem Tail.At.emits (hlang : view.lang = .python) : ∀ {ending : Tail} {found : RoundEnd},
    ending.At view found →
    Emits view tail (Python.roundEnd view found)
      fun width column => Step.linesAll width column ending.steps
  | .update made, .update id, h => h.exprLine_emits
  | .check cond, .check id, h => by
    have hbody : Emits view tail
        (do Emit.line ("if " ++ ("not " ++ cond.text) ++ ":")
            Emit.indent; Emit.line "break"; Emit.dedent)
        fun width column => [(column, .choose (.fails cond)), (column + width, .leave)] :=
      Emits.andThen (.line (.choose (.fails cond)) rfl) (.deeper (.line .leave rfl))
    refine ⟨fun printer htail => ?_⟩
    rw [Python.roundEnd, Python.leaveUnless]
    refine (bind_of_ok (Emit.lift_of_ok (h.negated printer.scope hlang rfl))).trans ?_
    exact hbody.run printer htail
  | .update _, .check _, h | .check _, .update _, h => h.elim

theorem Emits.roundEnds {ending : Option Tail} {found : Option RoundEnd}
    (hlang : view.lang = .python) (h : Option.Rel (Tail.At view) ending found) :
    Emits view tail (found.forM (Python.roundEnd view))
      fun width column => Step.linesAll width column (Tail.stepsOf ending) := by
  cases h with
  | none => exact .nothing
  | some h => exact h.emits hlang

end

/-! ## Bodies -/

namespace Step

theorem linesAll_append (width column : Nat) (first second : List Step) :
    linesAll width column (first ++ second) =
      linesAll width column first ++ linesAll width column second := by
  induction first with
  | nil => rfl
  | cons step steps ih => rw [List.cons_append, linesAll, linesAll, ih, List.append_assoc]

theorem linesAll_singleton (width column : Nat) (step : Step) :
    linesAll width column [step] = step.lines width column := by
  rw [linesAll, linesAll, List.append_nil]

theorem orPass_of_ne_nil {steps : List Step} (h : steps ≠ []) : orPass steps = steps := by
  cases steps with
  | nil => exact absurd rfl h
  | cons step steps => rfl

end Step

theorem Tail.steps_ne_nil (ending : Tail) : ending.steps ≠ [] := by
  cases ending <;> simp [steps]

namespace Command

theorem lower_ne_nil (tail : Option Tail) (command : Command) : command.lower tail ≠ [] := by
  cases command <;> simp [lower]

theorem lowerAll_ne_nil (tail : Option Tail) (command : Command) (commands : List Command) :
    lowerAll tail (command :: commands) ≠ [] := by
  simp [lowerAll, lower_ne_nil]

variable {view : View} {tail : Option Tail} {below : NodeId → Emit Unit} {commands : List Command}
  {body : NodeId}

/-- A body is a block of statements that are printed as the lines of their scripts. -/
structure BodyAt (view : View) (tail : Option Tail) (below : NodeId → Emit Unit)
    (commands : List Command) (body : NodeId) (items : List NodeId) : Prop where
  block : view.arena.stmt body = .ok (.block items)
  named : AllAt view commands items
  emits : Emits view tail (items.forM below)
    fun width column => Step.linesAll width column (lowerAll tail commands)

namespace BodyAt

variable {items : List NodeId}

theorem isEmptyBlock (h : BodyAt view tail below commands body items) :
    view.arena.isEmptyBlock body = .ok commands.isEmpty := by
  have hnamed := h.named
  rw [Arena.isEmptyBlock, h.block]
  cases commands with
  | nil =>
    simp only [AllAt] at hnamed
    subst hnamed
    rfl
  | cons command commands =>
    simp only [AllAt] at hnamed
    obtain ⟨item, more, rfl, -⟩ := hnamed
    rfl

theorem statements_emits (h : BodyAt view tail below commands body items) :
    Emits view tail (Python.statements view below body)
      fun width column => Step.linesAll width column (Step.orPass (lowerAll tail commands)) := by
  obtain ⟨hblock, hnamed, hemits⟩ := h
  refine .follow hblock ?_
  cases commands with
  | nil =>
    simp only [AllAt] at hnamed
    subst hnamed
    exact .line .pass rfl
  | cons command commands =>
    simp only [AllAt] at hnamed
    obtain ⟨item, more, rfl, -⟩ := hnamed
    rw [Step.orPass_of_ne_nil (lowerAll_ne_nil tail command commands)]
    exact hemits

/-- A body is followed by what its loop does at the end of a round. -/
theorem round_emits (h : BodyAt view tail below commands body items) {found : Option RoundEnd}
    (hlang : view.lang = .python) (htail : Option.Rel (Tail.At view) tail found) :
    Emits view tail (Python.round view below body found)
      fun width column => Step.linesAll width column (Step.round tail (lowerAll tail commands)) := by
  cases htail with
  | none =>
    rw [Step.round, Tail.stepsOf, List.append_nil]
    exact h.statements_emits
  | @some ending found htail =>
    have hending : Emits view (some ending) (Python.roundEnd view found)
        fun width column => Step.linesAll width column ending.steps := htail.emits hlang
    refine .follow h.isEmptyBlock ?_
    cases commands with
    | nil =>
      refine hending.congr fun width column => ?_
      rw [Step.round, lowerAll, List.nil_append, Tail.stepsOf,
        Step.orPass_of_ne_nil ending.steps_ne_nil]
    | cons command commands =>
      refine (h.statements_emits.andThen hending).congr fun width column => ?_
      have hne := lowerAll_ne_nil (some ending) command commands
      rw [Step.round, Step.orPass_of_ne_nil hne, Step.orPass_of_ne_nil (by simp [hne]),
        Step.linesAll_append, Tail.stepsOf]

end BodyAt

end Command

/-! ## Statements -/

/-- A call sets no variable. -/
theorem Call.StatedAt.startOf? {view : View} {made : Call} {id : NodeId}
    (h : made.StatedAt view id) : view.arena.startOf? id = .ok none := by
  rcases h with h | ⟨value, hs, h⟩
  · unfold Arena.startOf?
    rcases h.exists_expr with ⟨callee, args, he⟩ | ⟨receiver, name, args, he⟩
    · rw [Arena.node_of_expr he]
      rfl
    · rw [Arena.node_of_expr he]
      rfl
  · simp only [Arena.startOf?, Arena.node_of_stmt hs, bind, Except.bind]
    rcases h.exists_expr with ⟨callee, args, he⟩ | ⟨receiver, name, args, he⟩
    · rw [he]
      rfl
    · rw [he]
      rfl

/-- A loop that starts with a call, or with nothing, does not count. -/
theorem Call.counting?_eq_none {view : View} {init : Option Call} {i c u : Option NodeId}
    {b : NodeId} (h : Option.Rel (StatedAt view) init i) :
    view.arena.counting? i c u b = .ok none := by
  cases h with
  | none => rfl
  | some h =>
    unfold Arena.counting?
    simp only [h.startOf?]
    rfl

section

variable {view : View} {tail : Option Tail} {depth : Nat} {id : NodeId}

theorem Emits.stmt {s : Stmt} {layout : Layout} (hs : view.arena.stmt id = .ok s)
    (h : Emits view tail (Python.stmt view (Python.nodeTo view depth) id s) layout) :
    Emits view tail (Python.nodeTo view (depth + 1) id) layout :=
  .follow (Arena.node_of_stmt hs) h

theorem Call.StatedAt.emits {made : Call} (h : made.StatedAt view id) :
    Emits view tail (Python.nodeTo view (depth + 1) id)
      fun _ column => [(column, .call made)] := by
  rcases h with h | ⟨value, hs, h⟩
  · obtain ⟨e, he, -⟩ := h.isCall
    exact .follow (Arena.node_of_expr he) h.exprLine_emits
  · exact .stmt hs h.exprLine_emits

/-- Before the next round of the innermost loop is started, the round is ended. -/
theorem Emits.continueTo (hlang : view.lang = .python) :
    Emits view tail (Python.continueTo view none)
      fun width column => Step.linesAll width column (Tail.stepsOf tail ++ [.next]) := by
  refine ⟨fun printer htail => ?_⟩
  have hall : (do (printer.tail?).forM (Python.roundEnd view); Emit.line "continue") printer =
      .ok () (printer.put (Step.linesAll printer.page.width printer.column
        (Tail.stepsOf tail ++ [Step.next]))) := by
    rw [Step.linesAll_append]
    exact ((Emits.roundEnds hlang htail).andThen (.line .next rfl)).run printer htail
  rw [← hall]
  unfold Python.continueTo Printer.tail?
  rw [bind_of_ok (show (get : Emit Printer) printer = .ok printer printer from rfl)]
  cases printer.loops with
  | nil => rfl
  | cons innermost loops => rfl

/-- An arm of a choice, and what comes after it. -/
theorem Emits.arm {below : NodeId → Emit Unit} {keyword : String} {cond : Call} {branch : Branch}
    {others : List Branch} {rest : Emit Unit} {layout after : Layout} (head : Head)
    (hhead : keyword ++ " " ++ cond.text ++ ":" = head.text)
    (hcond : cond.At view branch.cond)
    (hbody : Emits view tail (Python.statements view below branch.body) layout)
    (hrest : Emits view tail (do Python.arms view below "elif" others; rest) after) :
    Emits view tail (do Python.arms view below keyword (branch :: others); rest)
      fun width column =>
        (column, head) :: (layout width (column + width) ++ after width column) := by
  rw [Python.arms]
  simp only [bind_assoc]
  exact .render hcond ((suite head hhead hbody).andThen hrest)

theorem Arena.GroundedTo.belowStmt {s : Stmt} (h : view.arena.GroundedTo (depth + 1) id)
    (found : view.arena.stmt id = .ok s) : ∀ c ∈ s.children, view.arena.GroundedTo depth c.id :=
  fun _ hc => h.child (node_of_stmt found) hc

/-- The statements of a block are no deeper than the block. -/
theorem Arena.GroundedTo.items {items : List NodeId} (h : view.arena.GroundedTo depth id)
    (found : view.arena.stmt id = .ok (.block items)) :
    ∀ item ∈ items, view.arena.GroundedTo depth item := by
  intro item hitem
  refine h.succ.belowStmt found ⟨item, "body"⟩ ?_
  simpa [Stmt.children, held] using hitem

/-- The first clause of a loop. -/
theorem Emits.clause {made : Option Call} {i : Option NodeId}
    (h : Option.Rel (Call.StatedAt view) made i) (hd : ∀ id ∈ i, view.arena.GroundedTo depth id) :
    Emits view tail (i.forM (Python.nodeTo view depth))
      fun width column => Step.linesAll width column (made.map Step.call).toList := by
  cases h with
  | none => exact .nothing
  | @some made i h =>
    obtain ⟨less, rfl⟩ := (hd i rfl).pos
    simp only [Option.map_some, Option.toList_some, Step.linesAll_singleton, Step.lines]
    exact h.emits

/-- The third clause of a loop is what it does at the end of a round. -/
theorem Tail.update_rel {update : Option Call} {u : Option NodeId}
    (h : Option.Rel (Call.At view) update u) :
    Option.Rel (Tail.At view) (update.map .update) (u.map .update) := by
  cases h with
  | none => exact .none
  | some h => exact .some h

/-- A loop that does not count, given how a round of it is printed. -/
theorem Emits.forLoop {init cond update : Option Call} {i c u : Option NodeId} {b : NodeId}
    {layout : Layout} (hinit : Option.Rel (Call.StatedAt view) init i)
    (hcond : Option.Rel (Call.At view) cond c) (hupdate : Option.Rel (Call.At view) update u)
    (hd : ∀ id ∈ i, view.arena.GroundedTo depth id)
    (hround : Emits view (update.map .update)
      (Python.round view (Python.nodeTo view depth) b (u.map .update)) layout) :
    Emits view tail (Python.forLoop view (Python.nodeTo view depth) id i c u b)
      fun width column => Step.linesAll width column (init.map Step.call).toList ++
        (column, .loop (Guard.ofCond cond)) :: layout width (column + width) := by
  have hloop : Emits view tail (Emit.inLoop ⟨id, u.map .update⟩ _) layout :=
    .inLoop (Tail.update_rel hupdate) hround
  refine .follow (Call.counting?_eq_none hinit) ?_
  cases hcond with
  | none =>
    have hall := ((clause hinit hd).andThen (hloop.suite (.loop .always) rfl)).frame
    simp only [bind_assoc] at hall
    exact hall
  | @some cond c hcond =>
    have hsuite : Emits view tail (do Python.suite ("while " ++ (← view.expr c)) _) _ :=
      .render hcond (.suite (.loop (.holds cond)) rfl hloop)
    have hall := ((clause hinit hd).andThen hsuite).frame
    simp only [bind_assoc] at hall
    exact hall

end

mutual
/-- A command is printed as the lines of its script. -/
theorem Command.At.emits {view : View} (hlang : view.lang = .python) :
    ∀ {command : Command} {id : NodeId} {depth : Nat} (tail : Option Tail),
    command.At view id → view.arena.GroundedTo (depth + 1) id →
    Emits view tail (Python.nodeTo view (depth + 1) id)
      fun width column => Step.linesAll width column (command.lower tail)
  | .call made, id, depth, tail, h, _ => by
    simp only [Command.At] at h
    simp only [Command.lower, Step.linesAll_singleton, Step.lines]
    exact h.emits
  | .choose cond body rest, id, depth, tail, h, hd => by
    simp only [Command.At] at h
    obtain ⟨first, others, otherwise, items, hs, hcond, hb, hbody, hrest⟩ := h
    have hd := hd.belowStmt hs
    simp only [Stmt.children, List.flatMap_cons, List.cons_append, List.nil_append,
      List.forall_mem_cons] at hd
    have hfirst : Command.BodyAt view tail (Python.nodeTo view depth) body first.body items :=
      ⟨hb, hbody, hbody.emits hlang tail (hd.2.1.items hb)⟩
    have hothers := hrest.emits hlang tail hd.2.2
    simp only [Command.lower, Step.linesAll_singleton, Step.lines]
    exact .stmt hs (.arm (.choose (.holds cond)) (by simp [Head.text, Guard.text]) hcond
      hfirst.statements_emits hothers)
  | .whileLoop cond body, id, depth, tail, h, hd => by
    simp only [Command.At] at h
    obtain ⟨c, b, items, hs, hcond, hb, hbody⟩ := h
    have hd := hd.belowStmt hs ⟨b, "body"⟩ (by simp [Stmt.children])
    have hround := Command.BodyAt.round_emits ⟨hb, hbody, hbody.emits hlang none (hd.items hb)⟩ hlang
      .none
    simp only [Command.lower, Step.linesAll_singleton, Step.lines]
    exact .stmt hs (.render hcond
      (.inLoop .none (.suite (.loop (.holds cond)) rfl hround)))
  | .doWhile body cond, id, depth, tail, h, hd => by
    simp only [Command.At] at h
    obtain ⟨c, b, items, hs, hcond, hb, hbody⟩ := h
    have hd := hd.belowStmt hs ⟨b, "body"⟩ (by simp [Stmt.children])
    have htail : Option.Rel (Tail.At view) (some (.check cond)) (some (.check c)) := .some hcond
    have hround := Command.BodyAt.round_emits ⟨hb, hbody, hbody.emits hlang _ (hd.items hb)⟩ hlang htail
    simp only [Command.lower, Step.linesAll_singleton, Step.lines]
    exact .stmt hs (.inLoop htail (.suite (.loop .always) rfl hround))
  | .infinite body, id, depth, tail, h, hd => by
    simp only [Command.At] at h
    obtain ⟨b, items, hs, hb, hbody⟩ := h
    have hd := hd.belowStmt hs ⟨b, "body"⟩ (by simp [Stmt.children])
    have hround := Command.BodyAt.round_emits ⟨hb, hbody, hbody.emits hlang none (hd.items hb)⟩ hlang
      .none
    simp only [Command.lower, Step.linesAll_singleton, Step.lines]
    exact .stmt hs (.inLoop .none (.suite (.loop .always) rfl hround))
  | .forLoop init cond update body, id, depth, tail, h, hd => by
    simp only [Command.At] at h
    obtain ⟨i, c, u, b, items, hs, hinit, hcond, hupdate, hb, hbody⟩ := h
    have hdb := hd.belowStmt hs ⟨b, "body"⟩ (by simp [Stmt.children])
    have hdi : ∀ id ∈ i, view.arena.GroundedTo depth id := fun id hid =>
      hd.belowStmt hs ⟨id, "init"⟩ (by simp_all [Stmt.children, heldIf, held])
    have hround := Command.BodyAt.round_emits ⟨hb, hbody, hbody.emits hlang _ (hdb.items hb)⟩ hlang
      (Tail.update_rel hupdate)
    simp only [Command.lower, Step.linesAll_append, Step.linesAll_singleton, Step.lines]
    exact .stmt hs (.forLoop hinit hcond hupdate hdi hround)
  | .leave, id, depth, tail, h, _ => by
    simp only [Command.At] at h
    simp only [Command.lower, Step.linesAll_singleton, Step.lines]
    exact .stmt h (.line .leave rfl)
  | .next, id, depth, tail, h, _ => by
    simp only [Command.At] at h
    rw [Command.lower]
    exact .stmt h (.continueTo hlang)
  | .ret value, id, depth, tail, h, _ => by
    simp only [Command.At] at h
    obtain ⟨v, hs, hvalue⟩ := h
    simp only [Command.lower, Step.linesAll_singleton, Step.lines]
    cases hvalue with
    | none => exact .stmt hs (.line (.ret none) rfl)
    | @some value v hvalue => exact .stmt hs (.render hvalue (.line (.ret (some value)) rfl))

/-- What follows the first branch of a choice. -/
theorem Alternative.At.emits {view : View} (hlang : view.lang = .python) :
    ∀ {rest : Alternative} {others : List Branch} {otherwise : Option NodeId} {depth : Nat}
      (tail : Option Tail), rest.At view others otherwise →
    (∀ child ∈ (others.flatMap fun branch =>
      [(⟨branch.cond, "cond"⟩ : Child), ⟨branch.body, "then"⟩]) ++ heldIf "otherwise" otherwise,
      view.arena.GroundedTo depth child.id) →
    Emits view tail
      (do Python.arms view (Python.nodeTo view depth) "elif" others
          otherwise.forM fun body =>
            Python.suite "else" (Python.statements view (Python.nodeTo view depth) body))
      fun width column => (rest.lower tail).lines width column
  | .nothing, _, _, _, _, h, _ => by
    simp only [Alternative.At] at h
    obtain ⟨rfl, rfl⟩ := h
    simp only [Alternative.lower, Rest.lines]
    exact .nothing
  | .otherwise body, _, _, depth, tail, h, hd => by
    simp only [Alternative.At] at h
    obtain ⟨b, items, rfl, rfl, hb, hbody⟩ := h
    have hd := hd ⟨b, "otherwise"⟩ (by simp [heldIf, held])
    have hlast : Command.BodyAt view tail (Python.nodeTo view depth) body b items :=
      ⟨hb, hbody, hbody.emits hlang tail (hd.items hb)⟩
    simp only [Alternative.lower, Rest.lines]
    exact .suite .otherwise rfl hlast.statements_emits
  | .choose cond body rest, _, otherwise, depth, tail, h, hd => by
    simp only [Alternative.At] at h
    obtain ⟨first, more, items, rfl, hcond, hb, hbody, hrest⟩ := h
    simp only [List.flatMap_cons, List.cons_append, List.nil_append, List.forall_mem_cons] at hd
    have hfirst : Command.BodyAt view tail (Python.nodeTo view depth) body first.body items :=
      ⟨hb, hbody, hbody.emits hlang tail (hd.2.1.items hb)⟩
    have hothers := hrest.emits hlang tail hd.2.2
    simp only [Alternative.lower, Rest.lines]
    exact .arm (.alternative (.holds cond)) (by simp [Head.text, Guard.text]) hcond
      hfirst.statements_emits hothers

/-- Commands are printed as the lines of their scripts, one after another. -/
theorem Command.AllAt.emits {view : View} (hlang : view.lang = .python) :
    ∀ {commands : List Command} {items : List NodeId} {depth : Nat} (tail : Option Tail),
    Command.AllAt view commands items → (∀ item ∈ items, view.arena.GroundedTo depth item) →
    Emits view tail (items.forM (Python.nodeTo view depth))
      fun width column => Step.linesAll width column (Command.lowerAll tail commands)
  | [], _, _, _, h, _ => by
    simp only [Command.AllAt] at h
    subst h
    simp only [Command.lowerAll, Step.linesAll]
    exact .nothing
  | command :: commands, _, depth, tail, h, hd => by
    simp only [Command.AllAt] at h
    obtain ⟨item, more, rfl, hitem, hmore⟩ := h
    obtain ⟨hfirst, hothers⟩ := List.forall_mem_cons.1 hd
    obtain ⟨less, rfl⟩ := hfirst.pos
    simp only [Command.lowerAll, Step.linesAll_append]
    exact (hitem.emits hlang tail hfirst).andThen (hmore.emits hlang tail hothers)
end

end Interlingua
