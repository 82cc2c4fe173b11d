import Interlingua.Pipeline
import Interlingua.Proofs.Arena.History
import Interlingua.Proofs.Arena.Unfolding
import Interlingua.Proofs.Loop.Behavior
import Interlingua.Proofs.Text.Slice

/-!
# Assignments read what they print

The assignment language is a part of Python, up to blanks, signs and leading zeros.  What is read
has lost these, so a text that was printed is printed again as it is.

* `AssignmentLine.Proper` — what holds of every line that was read: the name has neither a blank at
  an end nor a character that would divide it, and the number fits.
* `AssignmentLine.ofChars?_text` — a proper line is read back as it is written.
* `Assignments.emit_toTree` — the tree of some lines is printed line by line.
* `Pipeline.run_retracts` — **translating into Python, and then again, is translating once.**
-/

namespace Interlingua

namespace Text

/-- A number that was read fits into 64 bits. -/
theorem range_of_readSigned? {s : List Char} {n : Int} (h : readSigned? s = some n) :
    -(Nat.pow 2 63 : Nat) ≤ n ∧ n < (Nat.pow 2 63 : Nat) := by
  have hpos : 0 < Nat.pow 2 63 := Nat.two_pow_pos 63
  unfold readSigned? at h
  split at h <;>
  · obtain ⟨m, hm, rfl⟩ := Option.map_eq_some_iff.1 h
    have hrange := (Option.filter_eq_some_iff.1 hm).2
    simp only [decide_eq_true_eq] at hrange
    omega

end Text

/-! ## Lines of the assignment language -/

namespace AssignmentLine

/-- What holds of every line that was read. -/
structure Proper (line : AssignmentLine) : Prop where
  newline : '\n' ∉ line.name.toList
  sign : '=' ∉ line.name.toList
  trimmed : Text.trim line.name.toList = line.name.toList
  low : -(Nat.pow 2 63 : Nat) ≤ line.value
  high : line.value < (Nat.pow 2 63 : Nat)

/-- How a line is printed. -/
def text (line : AssignmentLine) : String := line.name ++ " = " ++ Text.numeral line.value

theorem proper_of_ofChars? {chars : List Char} {line : AssignmentLine} (hline : '\n' ∉ chars)
    (h : ofChars? chars = some line) : line.Proper := by
  unfold ofChars? at h
  split at h
  · cases h
  · obtain ⟨value, hvalue, rfl⟩ := Option.map_eq_some_iff.1 h
    obtain ⟨low, high⟩ := Text.range_of_readSigned? hvalue
    refine ⟨fun hmem => ?_, fun hmem => ?_, ?_, low, high⟩
    · rw [String.toList_ofList] at hmem
      exact hline (( List.takeWhile_prefix _).subset (Text.mem_of_mem_trim hmem))
    · rw [String.toList_ofList] at hmem
      have hne := List.mem_takeWhile_imp (Text.mem_of_mem_trim hmem)
      exact absurd hne (by decide)
    · rw [String.toList_ofList, Text.trim_trim]

variable {line : AssignmentLine}

theorem toList_text (line : AssignmentLine) :
    line.text.toList = line.name.toList ++ ' ' :: '=' :: ' ' :: Text.numeralChars line.value := by
  simp [text, Text.numeral]

theorem numeralChars_ne_newline {n : Int} {c : Char} (h : c ∈ Text.numeralChars n) :
    c ≠ '\n' ∧ Text.isBlank c = false := by
  have hdigit : ∀ {m : Nat}, c ∈ Nat.toDigits 10 m → c ≠ '\n' ∧ Text.isBlank c = false := by
    intro m hc
    have hblank := Text.not_blank_of_isDigit (Text.isDigit_of_mem_digits hc)
    refine ⟨?_, hblank⟩
    rintro rfl
    exact absurd hblank (by decide)
  cases n with
  | ofNat m => exact hdigit h
  | negSucc m =>
    rcases List.mem_cons.1 h with rfl | h
    · decide
    · exact hdigit h

/-- **A proper line is read back as it is written.** -/
theorem Proper.ofChars?_text (h : line.Proper) : ofChars? line.text.toList = some line := by
  have hname : ∀ c ∈ line.name.toList ++ [' '], decide (c ≠ '=') = true := by
    intro c hc
    rcases List.mem_append.1 hc with hc | hc
    · exact decide_eq_true fun heq => h.sign (heq ▸ hc)
    · rw [List.mem_singleton.1 hc]
      decide
  have hright : Text.trim (' ' :: Text.numeralChars line.value) = Text.numeralChars line.value := by
    rw [Text.trim_cons_of_blank (by decide)]
    exact Text.trim_of_forall fun c hc => (numeralChars_ne_newline hc).2
  rw [toList_text, ofChars?, show line.name.toList ++ ' ' :: '=' :: ' ' ::
    Text.numeralChars line.value = (line.name.toList ++ [' ']) ++ '=' :: ' ' ::
    Text.numeralChars line.value by simp, List.dropWhile_append_of_pos hname,
    List.takeWhile_append_of_pos hname, List.dropWhile_cons_of_neg (by simp),
    List.takeWhile_cons_of_neg (by simp), List.append_nil]
  simp [hright, Text.readSigned?_numeralChars _ h.low h.high, Text.trim_concat_of_blank (c := ' ')
    (by decide), h.trimmed]

/-- A printed line is one line. -/
theorem Proper.single (h : line.Proper) :
    '\n' ∉ line.text.toList ∧ line.text.toList.getLast? ≠ some '\r' := by
  have hnumeral : ∀ c ∈ Text.numeralChars line.value, c ≠ '\n' ∧ Text.isBlank c = false :=
    fun c hc => numeralChars_ne_newline hc
  have hne : Text.numeralChars line.value ≠ [] := by
    cases line.value with
    | ofNat m => exact Nat.toDigits_ne_nil
    | negSucc m => simp [Text.numeralChars]
  rw [toList_text]
  refine ⟨?_, fun hlast => ?_⟩
  · simp only [List.mem_append, List.mem_cons, not_or]
    exact ⟨h.newline, by decide, by decide, by decide, fun hmem => (hnumeral _ hmem).1 rfl⟩
  · rw [show line.name.toList ++ ' ' :: '=' :: ' ' :: Text.numeralChars line.value =
      (line.name.toList ++ [' ', '=', ' ']) ++ Text.numeralChars line.value by simp,
      List.getLast?_append_of_ne_nil _ hne] at hlast
    exact absurd (hnumeral _ (List.mem_of_getLast? hlast)).2 (by decide)

end AssignmentLine

namespace Assignments

/-- How some lines are printed. -/
def text (lines : List AssignmentLine) : String :=
  String.join (lines.map fun line => line.text ++ "\n")

theorem proper_of_readLines {texts : List (List Char)} (htexts : ∀ t ∈ texts, '\n' ∉ t)
    {number : Nat} {lines : List AssignmentLine} (h : readLines number texts = .ok lines) :
    ∀ line ∈ lines, line.Proper := by
  induction texts generalizing number lines with
  | nil =>
    cases h
    simp
  | cons first rest ih =>
    obtain ⟨hfirst, hrest⟩ := List.forall_mem_cons.1 htexts
    rw [readLines] at h
    split at h
    · cases h
    · rename_i line hline
      split at h
      · cases h
      · rename_i more hmore
        cases h
        exact List.forall_mem_cons.2
          ⟨AssignmentLine.proper_of_ofChars? hfirst hline, ih hrest hmore⟩

theorem lines_text {lines : List AssignmentLine} (h : ∀ line ∈ lines, line.Proper) :
    Text.lines (text lines).toList = lines.map fun line => line.text.toList := by
  induction lines with
  | nil => rfl
  | cons line rest ih =>
    obtain ⟨hline, hrest⟩ := List.forall_mem_cons.1 h
    have htext : (text (line :: rest)).toList = line.text.toList ++ '\n' :: (text rest).toList := by
      simp [text, String.join_cons]
    rw [htext, Text.lines_append hline.single.1 hline.single.2, ih hrest, List.map_cons]

theorem readLines_texts {lines : List AssignmentLine} (h : ∀ line ∈ lines, line.Proper)
    (number : Nat) : readLines number (lines.map fun line => line.text.toList) = .ok lines := by
  induction lines generalizing number with
  | nil => rfl
  | cons line rest ih =>
    obtain ⟨hline, hrest⟩ := List.forall_mem_cons.1 h
    simp only [List.map_cons, readLines, hline.ofChars?_text, ih hrest]

/-- **Proper lines are read back as they are printed.** -/
theorem parse_text {lines : List AssignmentLine} (h : ∀ line ∈ lines, line.Proper) :
    parse (text lines) = .ok (toTree lines) := by
  rw [parse, lines_text h, readLines_texts h]

theorem exists_of_parse {source : String} {tree : Tree} (h : parse source = .ok tree) :
    ∃ lines, (∀ line ∈ lines, line.Proper) ∧ tree = toTree lines := by
  unfold parse at h
  split at h
  · cases h
  · rename_i lines hlines
    cases h
    exact ⟨lines, proper_of_readLines (fun _ => Text.newline_not_mem_of_mem_lines) hlines, rfl⟩

/-! ## The tree of some lines -/

/-- What one arena names, another one names too. -/
def Within (arena larger : Arena) : Prop :=
  ∀ id node, arena.node id = .ok node → larger.node id = .ok node

theorem within_alloc (arena : Arena) (node : Node) : Within arena (arena.alloc node).2 := by
  intro id found h
  rw [Arena.node_alloc, if_neg, h]
  rintro rfl
  have hlt := Arena.index_lt_of_node h
  exact absurd hlt (Nat.lt_irrefl _)

theorem node_nextId (arena : Arena) (node : Node) :
    (arena.alloc node).2.node (arena.alloc node).1 = .ok node := by
  rw [Arena.node_alloc]
  exact if_pos rfl

/-- An identity names the statement of a line. -/
structure Stated (arena : Arena) (line : AssignmentLine) (id : NodeId) : Prop where
  named : ∃ target value, arena.node id = .ok (.stmt (.assign .plain target value)) ∧
    arena.node target = .ok (.expr (.ident line.name)) ∧
    arena.node value = .ok (.expr (.int line.value))

theorem Stated.within {arena larger : Arena} (hwithin : Within arena larger)
    {line : AssignmentLine} {id : NodeId} (h : Stated arena line id) : Stated larger line id := by
  obtain ⟨target, value, hid, htarget, hvalue⟩ := h
  exact ⟨target, value, hwithin _ _ hid, hwithin _ _ htarget, hwithin _ _ hvalue⟩

theorem stated_addLine (arena : Arena) (line : AssignmentLine) :
    Within arena (addLine arena line).2 ∧
      Stated (addLine arena line).2 line (addLine arena line).1 := by
  have hnamed := within_alloc arena (.expr (.ident line.name))
  have hvalued := within_alloc (arena.addExpr (.ident line.name)).2 (.expr (.int line.value))
  have hstated := within_alloc ((arena.addExpr (.ident line.name)).2.addExpr (.int line.value)).2
    (.stmt (.assign .plain (arena.addExpr (.ident line.name)).1
      ((arena.addExpr (.ident line.name)).2.addExpr (.int line.value)).1))
  refine ⟨fun id node h => hstated _ _ (hvalued _ _ (hnamed _ _ h)), _, _, node_nextId _ _, ?_, ?_⟩
  · exact hstated _ _ (hvalued _ _ (node_nextId _ _))
  · exact hstated _ _ (node_nextId _ _)

theorem stated_addLines (arena : Arena) (lines : List AssignmentLine) :
    Within arena (addLines arena lines).2 ∧
      List.Forall₂ (Stated (addLines arena lines).2) lines (addLines arena lines).1 := by
  induction lines generalizing arena with
  | nil => exact ⟨fun _ _ h => h, .nil⟩
  | cons line rest ih =>
    obtain ⟨hline, hstated⟩ := stated_addLine arena line
    obtain ⟨hrest, hothers⟩ := ih (addLine arena line).2
    exact ⟨fun id node h => hrest _ _ (hline _ _ h), .cons (hstated.within hrest) hothers⟩

/-- The root of the tree of some lines is a program of their statements. -/
theorem exists_program (lines : List AssignmentLine) : ∃ ids,
    (toTree lines).arena.node (toTree lines).root = .ok (.defn (.program ids none none)) ∧
      List.Forall₂ (Stated (toTree lines).arena) lines ids := by
  refine ⟨(addLines {} lines).1, node_nextId _ _, ?_⟩
  exact (stated_addLines {} lines).2.imp fun _ _ h => h.within (within_alloc _ _)

theorem exists_stated {arena : Arena} {lines : List AssignmentLine} {ids : List NodeId}
    (h : List.Forall₂ (Stated arena) lines ids) : ∀ id ∈ ids, ∃ line, Stated arena line id := by
  induction h with
  | nil => simp
  | cons hline _ ih => exact List.forall_mem_cons.2 ⟨⟨_, hline⟩, ih⟩

theorem Stated.grounded {arena : Arena} {line : AssignmentLine} {id : NodeId}
    (h : Stated arena line id) : arena.Grounded id := by
  obtain ⟨target, value, hid, htarget, hvalue⟩ := h
  refine .intro hid fun child hc => ?_
  simp only [Node.children, Stmt.children, List.mem_cons, List.not_mem_nil, or_false] at hc
  rcases hc with rfl | rfl
  · exact .intro htarget fun _ hc => by cases hc
  · exact .intro hvalue fun _ hc => by cases hc

theorem grounded_toTree (lines : List AssignmentLine) :
    (toTree lines).arena.Grounded (toTree lines).root := by
  obtain ⟨ids, hroot, hids⟩ := exists_program lines
  refine .intro hroot fun child hc => ?_
  simp only [Node.children, Def.children, held, List.mem_map] at hc
  obtain ⟨id, hid, rfl⟩ := hc
  obtain ⟨line, hstated⟩ := exists_stated hids id hid
  exact hstated.grounded

/-! ## Printing the tree -/

section Printing

variable {view : View} {line : AssignmentLine} {id : NodeId}

/-- A statement of a line is printed as the line, and what it registers makes no difference to
others. -/
theorem Stated.prints (h : Stated view.arena line id) (hlang : view.lang = .python)
    (hauto : view.isOn .autoDeclaration = false) (depth : Nat) (printer : Printer) :
    ∃ scope, Python.nodeTo view (depth + 1) id printer =
      .ok () { printer with page := printer.page.writeLine line.text, scope := scope } := by
  obtain ⟨target, value, hid, htarget, hvalue⟩ := h
  have hname : view.arena.expr target = .ok (.ident line.name) := Arena.expr_of_node htarget
  have hint : view.arena.expr value = .ok (.int line.value) := Arena.expr_of_node hvalue
  have htargetText : ∀ scope, view.expr target scope = .ok line.name scope := fun scope => by
    rw [View.expr, Arena.depthBound, View.exprTo_succ hname, hlang]
    rfl
  have hvalueText : ∀ scope, view.expr value scope = .ok (Text.numeral line.value) scope :=
    fun scope => by
      rw [View.expr, Arena.depthBound, View.exprTo_succ hint, hlang]
      rfl
  have hassigned : ∀ scope, Python.assignedValue view.site value scope =
      .ok (Text.numeral line.value) scope := fun scope => by
    unfold Python.assignedValue
    show ((liftM (view.arena.expr value) : Render Expr) >>= _) scope = _
    rw [hint]
    exact bind_of_ok (hvalueText scope)
  have hdeclared : ∀ scope, view.declaredName? .plain target scope = .ok none scope :=
    fun scope => by
      unfold View.declaredName?
      rw [hname]
      show EStateM.Result.ok _ _ = _
      rw [hauto]
      rfl
  have hinfer : ∀ scope, (liftM (Infer.assignment view.arena .plain target value) : Render Ty)
      scope = .ok .int (scope.register line.name .int) := fun scope => by
    have htype : Infer.expr view.arena value scope = .ok .int scope := by
      rw [Infer.expr, Arena.depthBound, Infer.exprTo, hint]
      rfl
    have hassignment : Infer.assignment view.arena .plain target value scope =
        .ok .int (scope.register line.name .int) := by
      rw [Infer.assignment, Infer.assignmentWith, bind_of_ok htype, hname]
      rfl
    simp only [liftM, monadLift, MonadLift.monadLift, hassignment]
  have htext : ∀ scope, Python.assignment view.site .plain target value scope =
      .ok line.text (scope.register line.name .int) := fun scope => by
    refine (bind_of_ok (hassigned scope)).trans ((bind_of_ok (hdeclared scope)).trans ?_)
    refine (bind_of_ok (htargetText scope)).trans ((bind_of_ok (hinfer scope)).trans ?_)
    refine congrArg (EStateM.Result.ok · _) ?_
    rw [AssignmentLine.text, show " = " = " " ++ AssignOp.plain.symbol ++ " " from rfl]
    simp only [String.append_assoc]
  refine ⟨printer.scope.register line.name .int, ?_⟩
  rw [Python.nodeTo, hid]
  exact bind_of_ok (Emit.lift_of_ok (htext printer.scope))

/-- At the margin, lines are printed one after another. -/
theorem forM_prints {lines : List AssignmentLine} {ids : List NodeId}
    (h : List.Forall₂ (Stated view.arena) lines ids) (hlang : view.lang = .python)
    (hauto : view.isOn .autoDeclaration = false) (depth : Nat) (printer : Printer)
    (hlevel : printer.page.level = 0) :
    ∃ scope, ids.forM (Python.nodeTo view (depth + 1)) printer =
      .ok () { printer with page := printer.page.write (text lines), scope := scope } := by
  induction h generalizing printer with
  | nil =>
    refine ⟨printer.scope, ?_⟩
    simp [text, Page.write]
    rfl
  | @cons line id lines ids hline _ ih =>
    obtain ⟨scope, hfirst⟩ := hline.prints hlang hauto depth printer
    obtain ⟨after, hrest⟩ := ih
      { printer with page := printer.page.writeLine line.text, scope := scope } hlevel
    refine ⟨after, (bind_of_ok hfirst).trans (hrest.trans ?_)⟩
    simp [text, Page.writeLine, Page.write, Page.margin, hlevel, String.join_cons,
      String.append_assoc]

end Printing

/-- **The tree of some lines is printed line by line.** -/
theorem emit_toTree (lines : List AssignmentLine) :
    (toTree lines).emit .python { unitMode := some false } = .ok (text lines) := by
  obtain ⟨ids, hroot, hids⟩ := exists_program lines
  let view := View.make (toTree lines) .python { unitMode := some false }
  have hunit : view.isOn .unitMode = false := rfl
  have hstmts : ∀ item ∈ ids, ∃ s, view.arena.node item = .ok (.stmt s) := by
    intro item hitem
    obtain ⟨line, target, value, hid, -⟩ := exists_stated hids item hitem
    exact ⟨_, hid⟩
  have hplain : ∀ item ∈ ids, view.arena.isDefinition item = .ok false := by
    intro item hitem
    obtain ⟨s, hs⟩ := hstmts item hitem
    rw [Arena.isDefinition, hs]
    rfl
  obtain ⟨size, hsize⟩ : ∃ size, view.arena.size = size + 1 := by
    have hlt : (toTree lines).root.index < view.arena.size := Arena.index_lt_of_node hroot
    exact ⟨view.arena.size - 1, by omega⟩
  have hids : List.Forall₂ (Stated view.arena) lines ids := hids
  obtain ⟨scope, hrun⟩ := forM_prints hids rfl rfl size view.start rfl
  have hfunctions : Infer.programFunctions view.arena view.tree.root view.start.scope =
      .ok () view.start.scope :=
    Infer.programFunctions_of_items hroot (fun item hitem => .inr (hstmts item hitem)) _
  have hinfer : Emit.infer (Infer.programFunctions view.arena view.tree.root) view.start =
      .ok () view.start := by
    refine Emit.lift_of_ok ?_
    simp only [liftM, monadLift, MonadLift.monadLift, hfunctions]
    rfl
  have hprogram : view.program view.start =
      .ok () { view.start with page := view.start.page.write (text lines), scope := scope } := by
    refine (bind_of_ok hinfer).trans ?_
    show Python.node view view.tree.root view.start = _
    rw [Python.node, Arena.depthBound, hsize, Python.nodeTo]
    show (Emit.follow (view.arena.node view.tree.root) >>= _) view.start = _
    rw [show view.arena.node view.tree.root = _ from hroot]
    show Python.program view (Python.nodeTo view (size + 1)) ids none view.start = _
    rw [Python.program, if_neg (by simp [hunit]), Emit.spaced_eq_forM hplain none (by simp)]
    exact hrun
  have hbare : view.bare? = .ok none := rfl
  rw [Tree.emit, View.emit, show View.make _ _ _ = view from rfl, hbare]
  simp only [hprogram]
  simp [Page.write, View.start, Page.blank]

end Assignments

/-- **Translating into Python is a retraction.**  Every text that the assignment language accepts is
translated, the translation is accepted again and gives the same tree, and it is its own
translation. -/
theorem Pipeline.run_retracts (source : String) (tree : Tree)
    (hread : Assignments.parse source = .ok tree) :
    let pipeline := Pipeline.ofAssignments .python { unitMode := some false }
    ∃ text again, pipeline.run source = .ok text ∧ Assignments.parse text = .ok again ∧
      tree.arena.same tree.root again.arena again.root = .ok true ∧
      pipeline.run text = .ok text := by
  intro pipeline
  obtain ⟨lines, hproper, rfl⟩ := Assignments.exists_of_parse hread
  have hrun : ∀ given, Assignments.parse given = .ok (Assignments.toTree lines) →
      pipeline.run given = .ok (Assignments.text lines) := by
    intro given hgiven
    have hrender : pipeline.render (Assignments.toTree lines) = .ok (Assignments.text lines) :=
      Assignments.emit_toTree lines
    rw [run, show pipeline.read given = _ from hgiven]
    simp only [hrender]
  have hagain := Assignments.parse_text hproper
  let whole : Subtree := ⟨_, _, Assignments.grounded_toTree lines⟩
  exact ⟨Assignments.text lines, Assignments.toTree lines, hrun source hread, hagain,
    (Subtree.same_eq_true_iff whole whole).2 rfl, hrun _ hagain⟩

/-- A name with blanks around and a carriage return inside, a line of no name, signs, leading zeros
and a line end of two characters. -/
theorem Pipeline.run_retracts_blanks :
    let source := "\u00a0a\rb \t=+007\r\n=-0"
    let pipeline := Pipeline.ofAssignments .python { unitMode := some false }
    Assignments.parse source = .ok (Assignments.toTree [⟨"a\rb", 7⟩, ⟨"", 0⟩]) ∧
      ∃ text again, pipeline.run source = .ok text ∧ Assignments.parse text = .ok again ∧
        (Assignments.toTree [⟨"a\rb", 7⟩, ⟨"", 0⟩]).arena.same
          (Assignments.toTree [⟨"a\rb", 7⟩, ⟨"", 0⟩]).root again.arena again.root = .ok true ∧
        pipeline.run text = .ok text := by
  intro source pipeline
  have hread : Assignments.parse source =
      .ok (Assignments.toTree [⟨"a\rb", 7⟩, ⟨"", 0⟩]) := by decide +revert
  exact ⟨hread, Pipeline.run_retracts source _ hread⟩

end Interlingua
