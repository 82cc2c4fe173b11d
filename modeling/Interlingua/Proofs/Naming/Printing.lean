import Interlingua.Proofs.Naming.Growth
import Interlingua.Proofs.Naming.Lines
import Interlingua.Proofs.Naming.Runs

/-!
# Brace scopes while statements are printed

What is printed in Java and C++ keeps the scope in step with the names that the lines declare.

* `Scope.Sees` — the names in sight are those that are declared in the open brace scopes.
* `View.Tracks` — a printing that starts in step ends in step, in the same brace scope.
* `View.Encloses` — the inside of braces; what it declares is out of sight afterwards.
* `View.Braces` — the parts of a statement, between which a brace may be open.
* `Braced.tracks_assign` — an assignment declares its name exactly if this is not in sight.
-/

namespace Interlingua

/-- The names in sight are those that are declared in the open brace scopes. -/
def Scope.Sees (scope : Scope) (scopes : List (List String)) : Prop :=
  ∀ name, scope.hasVariable name = true ↔ name ∈ scopes.flatten

namespace Scope

variable {scope after : Scope} {scopes : List (List String)}

theorem sees_empty : Scope.Sees {} [[]] := by
  intro name
  have hempty : ({} : Frame).vars.find? name = none := rfl
  simp [hasVariable, varType?, frames, hempty]

theorem Sees.opened (h : scope.Sees scopes) : scope.Sees ([] :: scopes) := h

theorem Sees.enter (h : scope.Sees scopes) : scope.enter.Sees ([] :: scopes) := by
  intro name
  rw [hasVariable_enter, h name]
  rfl

/-- Nothing comes into sight unless it is registered. -/
theorem Sees.of_grows (h : scope.Sees scopes) (hgrows : scope.Grows ∅ after) :
    after.Sees scopes := by
  intro name
  rw [← h name]
  exact ⟨fun hname => (hgrows.adds name hname).resolve_right id, hgrows.keeps name⟩

end Scope

namespace View

variable {view : View} {level : Nat} {ids others : List NodeId} {o m o' : Nat}
  {action first second inside : Emit Unit}

/-- A printing of some assignments that starts in step ends in step, in the same brace scope. -/
def Tracks (view : View) (level : Nat) (ids : List NodeId) (action : Emit Unit) : Prop :=
  ∀ scope names rest, scope.Sees (names :: rest) →
    Emit.Runs level (· = scope) action fun _ rows after =>
      after.around = scope.around ∧ ∃ more, view.Prints ids (names :: rest) (more :: rest) rows ∧
        after.Sees (more :: rest)

/-- The inside of braces, in a frame of its own: nothing stays in sight that is declared there. -/
def Encloses (view : View) (level : Nat) (ids : List NodeId) (action : Emit Unit) : Prop :=
  ∀ scope scopes, scope.Sees scopes →
    Emit.Runs level (· = scope) action fun _ rows after =>
      after = scope ∧ ∃ names, view.Prints ids ([] :: scopes) (names :: scopes) rows

/-- A part of a statement, with some braces of the statement open before and after it whose frames
are left.  It declares nothing outside of braces. -/
def Braces (view : View) (level o o' : Nat) (ids : List NodeId) (action : Emit Unit) : Prop :=
  ∀ scope scopes inner, scope.Sees scopes → inner.length = o →
    Emit.Runs level (· = scope) action fun _ rows after =>
      after.around = scope.around ∧ after.Sees scopes ∧ ∃ left, left.length = o' ∧
        view.Prints ids (inner ++ scopes) (left ++ scopes) rows

namespace Tracks

protected theorem nil : view.Tracks level [] (pure ()) := fun _ names _ hsees => .pure (by
  rintro _ rfl
  exact ⟨rfl, names, .nil, hsees⟩)

theorem andThen (h : view.Tracks level ids first) (h' : view.Tracks level others second) :
    view.Tracks level (ids ++ others) (do first; second) := by
  intro scope names rest hsees
  refine (h scope names rest hsees).bind fun _ rows => .of_scope ?_
  rintro between ⟨haround, more, hprints, hbetween⟩
  refine (h' between more rest hbetween).mono ?_
  rintro _ rows' after ⟨haround', last, hprints', hafter⟩
  exact ⟨haround'.trans haround, last, hprints.append hprints', hafter⟩

/-- Items one after another, each with its own assignments. -/
theorem forM {α : Type} {f : α → Emit Unit} {items : List α} {groups : List (List NodeId)}
    (h : List.Forall₂ (fun item ids => view.Tracks level ids (f item)) items groups) :
    view.Tracks level groups.flatten (items.forM f) := by
  induction h with
  | nil => exact .nil
  | cons hitem _ ih => exact hitem.andThen ih

/-- Statements in a frame of their own, one level deeper. -/
theorem enclosed (h : view.Tracks (level + 1) ids inside) :
    view.Encloses level ids (do
      Emit.indent
      Emit.enter
      inside
      Emit.leave
      Emit.dedent) := by
  intro scope scopes hsees
  have hframed : Emit.Runs (level + 1) (· = scope) (do Emit.enter; inside; Emit.leave)
      fun _ rows after => after = scope ∧ ∃ inner : Scope, ∃ names,
        view.Prints ids ([] :: scopes) (names :: scopes) rows ∧ inner.Sees (names :: scopes) :=
    Emit.Runs.framed (h scope.enter [] scopes hsees.enter)
  have hall := hframed.deeper
  simp only [bind_assoc] at hall
  refine hall.mono ?_
  rintro _ rows after ⟨rfl, -, names, hprints, -⟩
  exact ⟨rfl, names, hprints⟩

end Tracks

namespace Braces

theorem tracks (h : view.Braces level 0 0 ids action) : view.Tracks level ids action := by
  intro scope names rest hsees
  refine (h scope (names :: rest) [] hsees rfl).mono ?_
  rintro _ rows after ⟨haround, hafter, left, hleft, hprints⟩
  rw [List.length_eq_zero_iff.1 hleft] at hprints
  exact ⟨haround, names, hprints, hafter⟩

theorem andThen (h : view.Braces level o m ids first) (h' : view.Braces level m o' others second) :
    view.Braces level o o' (ids ++ others) (do first; second) := by
  intro scope scopes inner hsees hinner
  refine (h scope scopes inner hsees hinner).bind fun _ rows => .of_scope ?_
  rintro between ⟨haround, hbetween, left, hleft, hprints⟩
  refine (h' between scopes left hbetween hleft).mono ?_
  rintro _ rows' after ⟨haround', hafter, last, hlast, hprints'⟩
  exact ⟨haround'.trans haround, hafter, last, hlast, hprints.append hprints'⟩

protected theorem nil : view.Braces level o o [] (pure ()) := fun _ _ inner hsees hinner =>
  .pure (by
    rintro _ rfl
    exact ⟨rfl, hsees, inner, hinner, .nil⟩)

/-- Rendering an expression brings nothing into sight unless a collection in it assigns. -/
theorem rendered (hlang : view.lang ≠ .python) {id : NodeId}
    (hid : view.arena.assignedInside id = ∅) {next : String → Emit Unit}
    (hnext : ∀ text, view.Braces level o o' ids (next text)) :
    view.Braces level o o' ids (do next (← view.expr id)) := by
  intro scope scopes inner hsees hinner
  refine .rendered (fun _ after => scope.Grows ∅ after) ?_ fun text => .of_scope ?_
  · rintro _ text after rfl hrun
    exact (yields_grows hlang _ hid.subset _ text after .refl hrun).1
  · rintro between hgrows
    refine (hnext text between scopes inner (hsees.of_grows hgrows) hinner).mono ?_
    rintro _ rows after ⟨haround, hafter, left, hleft, hprints⟩
    exact ⟨haround.trans hgrows.around, hafter, left, hleft, hprints⟩

theorem flat (level : Nat) {text : String} (hclose : text.toList.head? ≠ some '\x7d')
    (hopen : text.toList.getLast? ≠ some '\x7b') : view.Braces level o o [] (Emit.line text) := by
  intro scope scopes inner hsees hinner
  refine (Emit.Runs.line text).mono ?_
  rintro _ rows after ⟨rfl, rfl⟩
  exact ⟨rfl, hsees, inner, hinner, .flat hclose hopen⟩

/-- A line that opens a brace, and what stands in the brace. -/
theorem opened {text : String} (hclose : text.toList.head? ≠ some '\x7d')
    (hopen : text.toList.getLast? = some '\x7b') (h : view.Encloses level ids inside) :
    view.Braces level 0 1 ids (do Emit.line text; inside) := by
  intro scope scopes inner hsees hinner
  rw [List.length_eq_zero_iff.1 hinner, List.nil_append]
  refine .lineThen ((h scope scopes hsees).mono ?_)
  rintro _ rows after ⟨rfl, names, hprints⟩
  exact ⟨rfl, hsees, [names], rfl, .after (.opening hclose hopen) hprints⟩

/-- A line that closes a brace and opens the next one, and what stands in this. -/
theorem reopened {text : String} (hclose : text.toList.head? = some '\x7d')
    (hopen : text.toList.getLast? = some '\x7b') (h : view.Encloses level ids inside) :
    view.Braces level 1 1 ids (do Emit.line text; inside) := by
  intro scope scopes inner hsees hinner
  obtain ⟨names, rfl⟩ := List.length_eq_one_iff.1 hinner
  refine .lineThen ((h scope scopes hsees).mono ?_)
  rintro _ rows after ⟨rfl, more, hprints⟩
  exact ⟨rfl, hsees, [more], rfl, .after (.turning hclose hopen) hprints⟩

/-- A line that closes a brace. -/
theorem closing (level : Nat) {text : String} (hclose : text.toList.head? = some '\x7d')
    (hopen : text.toList.getLast? ≠ some '\x7b') :
    view.Braces level 1 0 [] (Emit.line text) := by
  intro scope scopes inner hsees hinner
  obtain ⟨names, rfl⟩ := List.length_eq_one_iff.1 hinner
  refine (Emit.Runs.line text).mono ?_
  rintro _ rows after ⟨rfl, rfl⟩
  exact ⟨rfl, hsees, [], rfl, .closing hclose hopen⟩

end Braces

end View

/-- The line of an assignment without a type. -/
theorem View.isWritten_bare {view : View} {level : Nat} {id target value : NodeId} {op : AssignOp}
    {text : String} (found : view.arena.stmt id = .ok (.assign op target value))
    (htext : ∀ name, op = .plain → view.arena.expr target = .ok (.ident name) →
      ∃ valueText, view.Renders value valueText ∧
        (text = name ++ " = " ++ valueText ∨ text = name ++ " = " ++ parenthesized valueText)) :
    view.IsWritten ⟨level, text ++ ";", .bare id⟩ := by
  refine ⟨op, target, value, found, fun name hop htarget => ?_⟩
  obtain ⟨valueText, hvalue, htext⟩ := htext name hop htarget
  exact ⟨valueText, hvalue, htext.imp (congrArg (· ++ ";")) (congrArg (· ++ ";"))⟩

namespace Braced

variable {view : View} {level : Nat} {ids : List NodeId} {inside : Emit Unit}

/-- What stands before an opening brace holds no brace at its ends. -/
structure IsHeader (header : String) : Prop where
  start : header.toList.head? ≠ some '\x7d'
  stop : header.toList.getLast? ≠ some '\x7b'

theorem isHeader_around {start stop : String} (text : String)
    (hstart : start.toList ≠ [] ∧ start.toList.head? ≠ some '\x7d')
    (hstop : stop.toList ≠ [] ∧ stop.toList.getLast? ≠ some '\x7b') :
    IsHeader (start ++ text ++ stop) where
  start := by
    obtain ⟨first, rest, hfirst⟩ := List.exists_cons_of_ne_nil hstart.1
    simpa [hfirst] using hstart.2
  stop := by
    rw [String.toList_append, List.getLast?_append_of_ne_nil _ hstop.1]
    exact hstop.2

theorem IsHeader.start_brace {header : String} (h : IsHeader header) :
    (header ++ " \x7b").toList.head? ≠ some '\x7d' := by
  have hstart := h.start
  rw [String.toList_append, List.head?_append]
  cases hhead : header.toList.head? with
  | none => decide
  | some c => simpa [hhead] using hstart

theorem getLast?_append_brace (header : String) :
    (header ++ " \x7b").toList.getLast? = some '\x7b' := by
  rw [String.toList_append, List.getLast?_append_of_ne_nil _ (by decide)]
  rfl

/-- A brace that stands alone, and what stands in it. -/
theorem braces_line (h : view.Encloses level ids inside) :
    view.Braces level 0 1 ids (do Emit.line "\x7b"; inside) :=
  .opened (by decide) (by decide) h

theorem braces_closeBlock (level : Nat) : view.Braces level 1 0 [] closeBlock :=
  .closing level (by decide) (by decide)

/-- A header with its brace, and what stands in the brace. -/
theorem braces_opened {header : String} (hheader : IsHeader header)
    (h : view.Encloses level ids inside) :
    view.Braces level 0 1 ids (do openBlock view header; inside) := by
  unfold openBlock
  split
  · exact .opened hheader.start_brace (getLast?_append_brace header) h
  · have hall := (View.Braces.flat level hheader.start hheader.stop).andThen (braces_line h)
    simpa only [bind_assoc, List.nil_append] using hall

/-- The end of a brace and the next one. -/
theorem braces_reopened {header : String} (hheader : IsHeader header)
    (h : view.Encloses level ids inside) :
    view.Braces level 1 1 ids (do reopenBlock view header; inside) := by
  unfold reopenBlock
  split
  · exact .reopened (by simp [String.toList_append]) (getLast?_append_brace _) h
  · have hopened := (View.Braces.flat level hheader.start hheader.stop).andThen (braces_line h)
    have hall := (braces_closeBlock level).andThen hopened
    simpa only [closeBlock, bind_assoc, List.nil_append] using hall

/-- A header, and a block in its braces. -/
theorem braces_block {header : String} (hheader : IsHeader header)
    (h : view.Encloses level ids inside) :
    view.Braces level 0 0 ids (do openBlock view header; inside; closeBlock) := by
  have hall := (braces_opened hheader h).andThen (braces_closeBlock level)
  simpa only [bind_assoc, List.append_nil] using hall

/-! ## Assignments -/

/-- **An assignment is one line, which declares the name exactly if this is not in sight.**  What
else is assigned in it has to be in sight already. -/
theorem tracks_assign (hlang : view.lang ≠ .python) (hauto : view.isOn .autoDeclaration = true)
    {style : Style} {id target value : NodeId} {op : AssignOp} {scope : Scope}
    {names : List String} {rest : List (List String)}
    (found : view.arena.stmt id = .ok (.assign op target value))
    (hnames : ∀ name ∈ view.arena.assignedBy target value,
      view.AssignsTo id name ∨ scope.hasVariable name = true)
    (hsees : scope.Sees (names :: rest)) :
    Emit.Runs level (· = scope) (do
      let text ← assignment style view op target value
      Emit.line (text ++ ";")) fun _ rows after =>
        after.around = scope.around ∧ rows.length = 1 ∧
        (∀ name, after.hasVariable name = true ↔
          scope.hasVariable name = true ∨ view.AssignsTo id name) ∧
        ∃ more, view.Prints [id] (names :: rest) (more :: rest) rows ∧ after.Sees (more :: rest) := by
  refine .rendered (fun text after => view.Assigned op target value scope text after) ?_
    fun text => (Emit.Runs.line _).mono ?_
  · rintro _ text after rfl hrun
    exact View.assigned_of_run hlang hrun
  rintro _ rows after ⟨rfl, hassigned⟩
  cases hassigned with
  | @typed name typeText valueText hop htarget hauto hnew hvalue htext hvisible hgrows =>
    subst hop
    have honly : ∀ other, view.AssignsTo id other ↔ other = name := by
      intro other
      constructor
      · rintro ⟨target', value', found', htarget'⟩
        cases found.symm.trans found'
        cases htarget.symm.trans htarget'
        rfl
      · rintro rfl
        exact ⟨target, value, found, htarget⟩
    have hafter : ∀ other, after.hasVariable other = true ↔
        scope.hasVariable other = true ∨ other = name := by
      intro other
      constructor
      · intro hother
        refine (hgrows.adds other hother).elim .inl fun hmem => ?_
        exact (hnames other hmem).symm.imp_right (honly other).1
      · rintro (hother | rfl)
        · exact hgrows.keeps other hother
        · exact hvisible
    refine ⟨hgrows.around, rfl, fun other => by rw [hafter, honly], name :: names, ?_, ?_⟩
    · refine ⟨[⟨level, text ++ ";", .typed id name⟩], rfl, rfl, .single ?_ ?_⟩
      · exact ⟨target, value, typeText, valueText, found, htarget, hvalue, by rw [htext]⟩
      · intro id' other hid hother
        cases hid
        obtain rfl := (honly other).1 hother
        have hout : other ∉ (names :: rest).flatten := by
          rw [← hsees other, hnew]
          exact Bool.false_ne_true
        exact iff_of_true rfl hout
    · intro other
      rw [hafter, hsees other]
      simp [or_comm]
  | bare hold htext hgrows =>
    have hvisible : ∀ name, view.AssignsTo id name → scope.hasVariable name = true := by
      rintro name ⟨target', value', found', htarget'⟩
      cases found.symm.trans found'
      exact hold name rfl htarget' hauto
    have hafter : ∀ name, after.hasVariable name = true ↔ scope.hasVariable name = true :=
      fun name => ⟨fun hname => (hgrows.adds name hname).elim (fun hold => hold) fun hmem =>
        (hnames name hmem).elim (hvisible name) fun hold => hold, hgrows.keeps name⟩
    refine ⟨hgrows.around, rfl, fun name => ?_, names, ?_, fun name => by rw [hafter, hsees name]⟩
    · rw [hafter]
      exact ⟨.inl, fun h => h.elim (fun hold => hold) (hvisible name)⟩
    · refine ⟨[⟨level, text ++ ";", .bare id⟩], rfl, rfl, .single ?_ ?_⟩
      · exact View.isWritten_bare found htext
      · intro id' name hid hname
        cases hid
        exact iff_of_false Bool.false_ne_true (not_not_intro ((hsees name).1 (hvisible name hname)))

end Braced

end Interlingua
