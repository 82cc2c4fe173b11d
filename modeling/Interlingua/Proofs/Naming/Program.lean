import Interlingua.Proofs.Loop.Behavior
import Interlingua.Proofs.Naming.Printing

/-!
# Programs of assignments

A program is printed as it is, or its statements become the body of an entry point.

* `View.Wraps` — rows of some assignments, with what an entry point puts around them.
* `View.runs_program` — the assignments of a program are printed in a brace scope of their own.
* `View.wraps_of_emit` — so the text of a program is made of such rows.
-/

namespace Interlingua

namespace View

variable {view : View} {ids : List NodeId} {good : List Row → Prop} {rows front back : List Row}
  {scopes mid left last : List (List String)} {level : Nat} {scope : Scope}

/-- Rows of some assignments in a brace scope where nothing is declared before, and what is around
them. -/
def Wraps (view : View) (ids : List NodeId) (good : List Row → Prop)
    (scopes last : List (List String)) (rows : List Row) : Prop :=
  ∃ front inner back rest names, rows = front ++ inner ++ back ∧
    view.Prints [] scopes ([] :: rest) front ∧ good inner ∧
    view.Prints ids ([] :: rest) (names :: rest) inner ∧ view.Prints [] (names :: rest) last back

theorem Wraps.around (hfront : view.Prints [] scopes mid front)
    (h : view.Wraps ids good mid left rows) (hback : view.Prints [] left last back) :
    view.Wraps ids good scopes last (front ++ rows ++ back) := by
  obtain ⟨first, inner, second, rest, names, rfl, hfirst, hgood, hinner, hsecond⟩ := h
  exact ⟨front ++ first, inner, second ++ back, rest, names, by simp, hfront.append hfirst, hgood,
    hinner, hsecond.append hback⟩

theorem Wraps.prints (h : view.Wraps ids good scopes last rows) :
    view.Prints ids scopes last rows := by
  obtain ⟨front, inner, back, rest, names, rfl, hfront, -, hinner, hback⟩ := h
  have hall := (hfront.append hinner).append hback
  rwa [List.nil_append, List.append_nil] at hall

/-- The items of a program are tracked from wherever they are printed, with rows of their own. -/
def TracksItems (view : View) (ids : List NodeId) (good : List Row → Prop)
    (items : Emit Unit) : Prop :=
  ∀ level scope names rest, scope.Sees (names :: rest) →
    Emit.Runs level (· = scope) items fun _ rows after =>
      after.around = scope.around ∧ good rows ∧
        ∃ more, view.Prints ids (names :: rest) (more :: rest) rows ∧ after.Sees (more :: rest)

end View

namespace Braced

variable {view : View} {ids : List NodeId} {good : List Row → Prop} {level : Nat} {scope : Scope}
  {scopes : List (List String)} {below : NodeId → Emit Unit} {items : List NodeId}

theorem runs_openBlock (scopes : List (List String)) {header : String}
    (hheader : IsHeader header) :
    Emit.Runs level (· = scope) (openBlock view header) fun _ rows after =>
      after = scope ∧ view.Prints [] scopes ([] :: scopes) rows := by
  unfold openBlock
  split
  · refine (Emit.Runs.line _).mono ?_
    rintro _ rows after ⟨rfl, rfl⟩
    exact ⟨rfl, .opening hheader.start_brace (getLast?_append_brace header)⟩
  · refine .lineThen ((Emit.Runs.line _).mono ?_)
    rintro _ rows after ⟨rfl, rfl⟩
    exact ⟨rfl, .after (.flat hheader.start hheader.stop) (.opening (by decide) (by decide))⟩

theorem runs_closeBlock (view : View) (names : List String) (scopes : List (List String))
    {pre : Scope → Prop} :
    Emit.Runs level pre closeBlock fun _ rows after =>
      pre after ∧ view.Prints [] (names :: scopes) scopes rows := by
  refine (Emit.Runs.line _).mono ?_
  rintro _ rows after ⟨rfl, hpre⟩
  exact ⟨hpre, .closing (by decide) (by decide)⟩

theorem prints_tail (view : View) (scopes : List (List String)) (level : Nat) {tail : Option String}
    (htail : ∀ text ∈ tail, IsHeader text) :
    view.Prints [] scopes scopes (tail.toList.map (.line level)) := by
  cases tail with
  | none => exact .nil
  | some text => exact .flat (htail text rfl).start (htail text rfl).stop

/-- The entry point of a program. -/
theorem runs_entryPoint (level : Nat) {header : String} {tail : Option String}
    (hheader : IsHeader header) (htail : ∀ text ∈ tail, IsHeader text)
    (h : view.TracksItems ids good (items.forM below)) (hsees : scope.Sees scopes) :
    Emit.Runs level (· = scope) (entryPoint view below header items tail) fun _ rows after =>
      after = scope ∧ view.Wraps ids good scopes scopes rows := by
  -- the statements and the last line, in the frame of the entry point
  have hinside : Emit.Runs (level + 1) (· = scope.enter)
      (do items.forM below; tail.forM Emit.line) fun _ rows after =>
        after.around = scope.enter.around ∧ ∃ inner last names, rows = inner ++ last ∧ good inner ∧
          view.Prints ids ([] :: scopes) (names :: scopes) inner ∧
          view.Prints [] (names :: scopes) (names :: scopes) last := by
    refine (h _ _ [] scopes hsees.enter).bind fun _ inner => .of_scope ?_
    rintro filled ⟨haround, hgood, names, hinner, -⟩
    refine (Emit.Runs.lineIfAny tail).mono ?_
    rintro _ last after ⟨rfl, rfl⟩
    exact ⟨haround, inner, _, names, rfl, hgood, hinner, prints_tail view _ (level + 1) htail⟩
  have hparts : entryPoint view below header items tail = (do
      openBlock view header
      (do Emit.indent; (do Emit.enter; (do items.forM below; tail.forM Emit.line); Emit.leave)
          Emit.dedent)
      closeBlock) := by
    simp only [entryPoint, bind_assoc]
  rw [hparts]
  refine (runs_openBlock scopes hheader).bind fun _ front => .of_scope ?_
  rintro scope ⟨rfl, hfront⟩
  refine (Emit.Runs.deeper hinside.framed).bind fun _ rows => .of_scope ?_
  rintro scope ⟨rfl, -, inner, last, names, rfl, hgood, hinner, hlast⟩
  refine (runs_closeBlock view names scopes).mono ?_
  rintro _ close after ⟨rfl, hclose⟩
  refine ⟨rfl, front, inner, last ++ close, scopes, names, by simp, hfront, hgood, hinner, ?_⟩
  exact hlast.append hclose

end Braced

/-! ## Programs -/

theorem Sections.ofItems_of_stmts {arena : Arena} {items : List NodeId}
    (hitems : ∀ item ∈ items, ∃ s, arena.stmt item = .ok s) :
    Sections.ofItems arena items = .ok ⟨[], [], items⟩ := by
  induction items with
  | nil => rfl
  | cons item rest ih =>
    obtain ⟨⟨s, hs⟩, hrest⟩ := List.forall_mem_cons.1 hitems
    rw [ofItems, Arena.node_of_stmt hs, ih hrest]
    rfl

section Programs

variable {view : View} {ids : List NodeId} {good : List Row → Prop} {level : Nat}
  {below : NodeId → Emit Unit} {items : List NodeId}
  (hitems : ∀ item ∈ items, ∃ s, view.arena.stmt item = .ok s)
  (h : view.TracksItems ids good (items.forM below))
include hitems h

theorem View.runs_spaced :
    Emit.Runs level (· = {}) (Emit.spaced view.arena below none items) fun _ rows _ =>
      ∃ last, view.Wraps ids good [[]] last rows := by
  have hplain : ∀ item ∈ items, view.arena.isDefinition item = .ok false := by
    intro item hitem
    obtain ⟨s, hs⟩ := hitems item hitem
    rw [Arena.isDefinition, Arena.node_of_stmt hs]
    rfl
  rw [Emit.spaced_eq_forM hplain none (by simp)]
  refine (h level {} [] [] Scope.sees_empty).mono ?_
  rintro _ rows after ⟨-, hgood, names, hprints, -⟩
  exact ⟨_, [], rows, [], [], names, by simp, .nil, hgood, hprints, .nil⟩

theorem Java.runs_program (mainClass entryPoint : Option NodeId) :
    Emit.Runs level (· = {}) (defn view below (.program items mainClass entryPoint))
      fun _ rows _ => ∃ last, view.Wraps ids good [[]] last rows := by
  change Emit.Runs level _ (if _ then _ else _) _
  split
  · exact View.runs_spaced hitems h
  · have hparts : wrapped view below items = (do
        Braced.openBlock view "public class Main"
        (do Emit.indent
            Braced.entryPoint view below "public static void main(String[] args)" items none
            Emit.dedent)
        Braced.closeBlock) := by
      unfold wrapped
      rw [Sections.ofItems_of_stmts hitems]
      simp only [bind_assoc]
      rfl
    rw [hparts]
    refine (Braced.runs_openBlock [[]] ⟨by decide, by decide⟩).bind fun _ front => .of_scope ?_
    rintro scope ⟨rfl, hfront⟩
    refine (Emit.Runs.deeper (Braced.runs_entryPoint (level + 1) ⟨by decide, by decide⟩ (by simp) h
      Scope.sees_empty.opened)).bind fun _ rows => .of_scope ?_
    rintro scope ⟨-, hwraps⟩
    refine (Braced.runs_closeBlock view [] [[]]).mono ?_
    rintro _ close after ⟨-, hclose⟩
    rw [← List.append_assoc]
    exact ⟨_, hwraps.around hfront hclose⟩

theorem Cpp.runs_program (mainClass entryPoint : Option NodeId) :
    Emit.Runs level (· = {}) (defn view below (.program items mainClass entryPoint))
      fun _ rows _ => ∃ last, view.Wraps ids good [[]] last rows := by
  change Emit.Runs level _ (if _ then _ else _) _
  split
  · exact View.runs_spaced hitems h
  · unfold wrapped
    rw [Sections.ofItems_of_stmts hitems]
    have hzero : ∀ text ∈ some "return 0;", Braced.IsHeader text := by
      rintro _ ⟨⟩
      exact ⟨by decide, by decide⟩
    refine (Braced.runs_entryPoint level ⟨by decide, by decide⟩ hzero h Scope.sees_empty).mono ?_
    rintro _ rows after ⟨-, hwraps⟩
    exact ⟨_, hwraps⟩

end Programs

namespace View

variable {view : View} {items : List NodeId} {mainClass entryPoint : Option NodeId}

/-- A program of statements that are no expressions is not written bare. -/
theorem bare?_eq_none {text : String}
    (hroot : view.arena.node view.tree.root = .ok (.defn (.program items mainClass entryPoint)))
    (hitems : ∀ item ∈ items, ∃ s, view.arena.stmt item = .ok s ∧ ∀ value, s ≠ .expr value)
    (hemit : view.emit = .ok text) : view.bare? = .ok none := by
  have hnone : ∀ id, view.bare? ≠ .ok (some id) := by
    intro id hbare
    unfold bare? at hbare
    split at hbare
    · rw [Arena.soleExpression?, Arena.depthBound, Arena.soleExpressionTo?, hroot] at hbare
      rcases items with _ | ⟨item, _ | ⟨second, rest⟩⟩
      · cases hbare
      · -- a program of one statement
        obtain ⟨s, hs, hne⟩ := hitems item (by simp)
        change view.arena.soleExpressionTo? _ item = _ at hbare
        cases hsize : view.arena.size with
        | zero =>
          rw [hsize] at hbare
          cases hbare
        | succ size =>
          rw [hsize, Arena.soleExpressionTo?, Arena.node_of_stmt hs] at hbare
          cases s with
          | expr value => exact hne value rfl
          | _ => cases hbare
      · cases hbare
    · cases hbare
  cases hbare : view.bare? with
  | error fault =>
    rw [emit, hbare] at hemit
    cases hemit
  | ok found =>
    cases found with
    | none => rfl
    | some id => exact absurd hbare (hnone id)

/-- **The text of a program is made of the rows of its statements and what is around them.** -/
theorem wraps_of_emit {ids : List NodeId} {good : List Row → Prop} {text : String}
    (hlang : view.lang ≠ .python)
    (hroot : view.arena.node view.tree.root = .ok (.defn (.program items mainClass entryPoint)))
    (hitems : ∀ item ∈ items, ∃ s, view.arena.stmt item = .ok s ∧ ∀ value, s ≠ .expr value)
    (h : ∀ idiom depth, view.TracksItems ids good (items.forM (Braced.nodeTo idiom view depth)))
    (hemit : view.emit = .ok text) :
    ∃ rows last, text = Row.textAll view.start.page.width rows ∧
      view.Wraps ids good [[]] last rows := by
  have hstmts : ∀ item ∈ items, ∃ s, view.arena.stmt item = .ok s := fun item hitem =>
    (hitems item hitem).imp fun _ => And.left
  have hbare := bare?_eq_none hroot hitems hemit
  have hruns : Emit.Runs 0 (· = {}) (view.node view.tree.root) fun _ rows _ =>
      ∃ last, view.Wraps ids good [[]] last rows := by
    obtain ⟨lang, hview⟩ : ∃ lang, view.lang = lang := ⟨_, rfl⟩
    unfold node
    rw [hview] at hlang ⊢
    cases lang with
    | java =>
      refine .follow fun node found => ?_
      cases hroot.symm.trans found
      exact Java.runs_program hstmts (h Java.idiom view.arena.size) mainClass entryPoint
    | cpp =>
      refine .follow fun node found => ?_
      cases hroot.symm.trans found
      exact Cpp.runs_program hstmts (h Cpp.idiom view.arena.size) mainClass entryPoint
    | python => exact absurd rfl hlang
  have hinfer : Emit.infer (Infer.programFunctions view.arena view.tree.root) view.start =
      .ok () view.start := by
    refine Emit.lift_of_ok ?_
    simp only [liftM, monadLift, MonadLift.monadLift, Infer.programFunctions_of_items hroot
      fun item hitem => .inr ((hstmts item hitem).imp fun _ => Arena.node_of_stmt)]
    rfl
  rw [emit, hbare] at hemit
  cases hrun : view.program view.start with
  | error error printer => simp [hrun] at hemit
  | ok _ printer =>
    simp only [hrun, Except.ok.injEq] at hemit
    rw [program, bind_of_ok hinfer] at hrun
    obtain ⟨rows, ⟨last, hwraps⟩, hpage⟩ := hruns view.start () printer rfl rfl hrun
    refine ⟨rows, last, ?_, hwraps⟩
    rw [← hemit, hpage]
    simp [Page.write, start, Page.blank]

end View

end Interlingua
