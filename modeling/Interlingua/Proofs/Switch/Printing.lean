import Interlingua.Emit.Basic
import Interlingua.Proofs.Emit.Rows
import Interlingua.Proofs.Lockstep.Braced
import Interlingua.Proofs.Loop.Tree
import Interlingua.Proofs.Switch.Reading

/-!
# Printing switches

* `Arm.At` — a case of a tree is an arm: its value is a whole number, and the calls in its body are
  rendered as the arm says.
* `Braced.adds_switch`, `Python.adds_switch` — what is printed for a switch, line by line.
* `View.switch_executes` — the text of a switch does what the tree means, for every value of its
  subject, if the default is the last of the cases.  A default before other cases runs on into the
  next of them.
-/

namespace Interlingua

open Emit (Adds)

/-! ## Switches of calls in a tree -/

namespace Switch

/-- An identity names a call, or the statement that makes it. -/
def Makes (arena : Arena) (item call : NodeId) : Prop :=
  (item = call ∨ arena.stmt item = .ok (.expr call)) ∧
    ∃ e, arena.expr call = .ok e ∧ e.isCall = true

/-- A text is what the call is rendered as that an identity makes. -/
def Made (view : View) (text : String) (item : NodeId) : Prop :=
  ∃ call, Makes view.arena item call ∧ view.Renders call text

/-- A case is selected by a whole number, if it is not the default, and its body is a block of
calls. -/
structure IsPlain (arena : Arena) (case : Case) : Prop where
  value : ∀ value ∈ case.label.value?, ∃ n, arena.expr value = .ok (.int n)
  body : ∃ items, arena.stmt case.body = .ok (.block items) ∧
    ∀ item ∈ items, ∃ call, Makes arena item call

/-- A label of a tree. -/
inductive Label.At (arena : Arena) : Label → CaseLabel → Prop
  | leaves {n : Int} {value : NodeId} (h : arena.expr value = .ok (.int n)) :
      At arena (.leaves n) (.leaves value)
  | falls {n : Int} {value : NodeId} (h : arena.expr value = .ok (.int n)) :
      At arena (.falls n) (.falls value)
  | default : At arena .default .default

/-- A case of a tree. -/
structure Arm.At (view : View) (arm : Arm) (case : Case) : Prop where
  label : arm.label.At view.arena case.label
  body : ∃ items, view.arena.stmt case.body = .ok (.block items) ∧
    List.Forall₂ (Made view) arm.body items

theorem exists_at_of_mem {α β : Type} {related : α → β → Prop} {as : List α} {bs : List β}
    (h : List.Forall₂ related as bs) {a : α} (ha : a ∈ as) : ∃ b ∈ bs, related a b := by
  induction h with
  | nil => cases ha
  | cons hfirst _ ih =>
    rcases List.mem_cons.1 ha with rfl | ha
    · exact ⟨_, by simp, hfirst⟩
    · obtain ⟨b, hb, hab⟩ := ih ha
      exact ⟨b, by simp [hb], hab⟩

theorem getLast?_parenthesized (before text : String) :
    (before ++ parenthesized text).toList.getLast? = some ')' := by
  have hsplit : before ++ parenthesized text = before ++ "(" ++ text ++ ")" := by
    simp [parenthesized, String.append_assoc]
  rw [hsplit, String.toList_append]
  exact List.getLast?_concat

/-- A call ends with its arguments. -/
theorem getLast?_of_made {view : View} {text : String} {item : NodeId} (h : Made view text item) :
    text.toList.getLast? = some ')' := by
  obtain ⟨call, ⟨-, e, found, hcall⟩, before, after, hrender⟩ := h
  rw [View.expr, Arena.depthBound, View.exprTo_succ found] at hrender
  cases e with
  | call callee args =>
    obtain ⟨target, between, -, hrender⟩ := exists_of_bind hrender
    obtain ⟨list, between, -, hrender⟩ := exists_of_bind hrender
    cases hrender
    exact getLast?_parenthesized target list
  | method receiver name args =>
    obtain ⟨target, between, -, hrender⟩ := exists_of_bind hrender
    obtain ⟨list, between, -, hrender⟩ := exists_of_bind hrender
    cases hrender
    exact getLast?_parenthesized (target ++ "." ++ name) list
  | _ => cases hcall

theorem Arm.At.getLast? {view : View} {arm : Arm} {case : Case} (h : arm.At view case)
    {call : String} (hcall : call ∈ arm.body) : call.toList.getLast? = some ')' := by
  obtain ⟨items, -, hitems⟩ := h.body
  obtain ⟨item, -, hmade⟩ := exists_at_of_mem hitems hcall
  exact getLast?_of_made hmade

theorem Label.At.unique {arena : Arena} {label other : Label} {given : CaseLabel}
    (h : label.At arena given) (h' : other.At arena given) : label = other := by
  cases h with
  | leaves found =>
    cases h' with
    | leaves found' =>
      cases found.symm.trans found'
      rfl
  | falls found =>
    cases h' with
    | falls found' =>
      cases found.symm.trans found'
      rfl
  | default =>
    cases h'
    rfl

/-- A case of one call is one arm, if the call is rendered in one way. -/
theorem Arm.At.eq_mk {view : View} {arm : Arm} {case : Case} {item : NodeId} {label : Label}
    {text : String} (h : arm.At view case)
    (found : view.arena.stmt case.body = .ok (.block [item]))
    (hlabel : label.At view.arena case.label)
    (htext : ∀ given, Made view given item → given = text) : arm = ⟨label, [text]⟩ := by
  obtain ⟨items, hitems, hbody⟩ := h.body
  cases hitems.symm.trans found
  have hgiven := h.label.unique hlabel
  obtain ⟨given, body⟩ := arm
  cases hbody with
  | cons hmade hnil =>
    cases hnil
    rw [htext _ hmade, ← hgiven]

/-- A whole number is written out. -/
theorem eq_numeral_of_renders {view : View} {value : NodeId} {n : Int} {text : String}
    (found : view.arena.expr value = .ok (.int n)) (h : view.Renders value text) :
    text = Text.numeral n := by
  obtain ⟨before, after, hrender⟩ := h
  rw [View.expr, Arena.depthBound, View.exprTo_succ found] at hrender
  cases hrender
  rfl

theorem defaultLast_of_at {view : View} {arms : List Arm} {cases : List Case}
    (h : List.Forall₂ (Arm.At view) arms cases)
    (hlast : ∀ case ∈ cases.dropLast, case.label ≠ .default) : Arm.DefaultLast arms := by
  induction h with
  | nil => simp [Arm.DefaultLast]
  | @cons arm case arms cases harm harms ih =>
    cases harms with
    | nil => simp [Arm.DefaultLast]
    | @cons next case' arms cases hnext hrest =>
      rw [List.dropLast_cons_cons] at hlast
      have hrest := ih fun case hcase => hlast case (List.mem_cons_of_mem _ hcase)
      intro other hother
      rw [List.dropLast_cons_cons] at hother
      rcases List.mem_cons.1 hother with rfl | hother
      · intro hdefault
        have hlabel := harm.label
        rw [hdefault] at hlabel
        have hgiven := hlast case (by simp)
        generalize case.label = given at hlabel hgiven
        cases hlabel
        exact hgiven rfl
      · exact hrest other hother

/-- Rows with the marks that stand on them. -/
def Laid (lang : Language) (marks : List Mark) (rows : List Row) : Prop :=
  List.Forall₂ (fun mark row => ∃ level text, row = .line level text ∧ mark.Spelled lang text)
    marks rows

variable {view : View} {lang : Language} {marks more : List Mark} {rows others : List Row}

theorem Laid.append (h : Laid lang marks rows) (h' : Laid lang more others) :
    Laid lang (marks ++ more) (rows ++ others) := List.rel_append h h'

theorem Laid.cons {mark : Mark} {text : String} (hmark : mark.Spelled lang text) (level : Nat)
    (h : Laid lang marks rows) : Laid lang (mark :: marks) (.line level text :: rows) :=
  List.Forall₂.cons ⟨level, text, rfl, hmark⟩ h

/-- Calls, a line for each. -/
theorem laid_calls (texts : List String) (level : Nat) :
    Laid lang (texts.map .call) (texts.map fun text => .line level (callText lang text)) := by
  induction texts with
  | nil => exact .nil
  | cons text texts ih => exact .cons (.call text) level ih

/-- The calls of a body, if each of them is a line. -/
theorem adds_calls {level : Nat} {below : NodeId → Emit Unit} {items : List NodeId}
    (h : ∀ item ∈ items, Adds level (below item) fun _ rows =>
      ∃ text, Made view text item ∧ rows = [.line level (callText view.lang text)]) :
    Adds level (items.forM below) fun _ rows => ∃ texts, List.Forall₂ (Made view) texts items ∧
      rows = texts.map fun text => .line level (callText view.lang text) := by
  refine (Adds.forM h).mono ?_
  rintro _ _ ⟨groups, rfl, hgroups⟩
  clear h
  induction hgroups with
  | nil => exact ⟨[], .nil, rfl⟩
  | cons hitem _ ih =>
    obtain ⟨text, hmade, rfl⟩ := hitem
    obtain ⟨texts, htexts, hrows⟩ := ih
    exact ⟨text :: texts, .cons hmade htexts, by simp [hrows]⟩

/-- The lines of rows. -/
theorem Laid.exists_lines (h : Laid lang marks rows) (width : Nat) :
    ∃ lines, Row.textAll width rows = String.join (lines.map (· ++ "\n")) ∧
      List.Forall₂ (Mark.StandsOn lang) marks lines := by
  induction h with
  | nil => exact ⟨[], rfl, .nil⟩
  | cons hmark _ ih =>
    obtain ⟨level, text, rfl, hspelled⟩ := hmark
    obtain ⟨lines, htext, hlines⟩ := ih
    refine ⟨(blanks (level * width) ++ text) :: lines, ?_, .cons ⟨_, text, rfl, hspelled⟩ hlines⟩
    rw [List.map_cons, String.join_cons, ← htext]
    simp [Row.textAll, Row.text, Fragment.indented, blanks]

/-- A header, what its line ends with, and rows with marks make a switch. -/
theorem Laid.written {ending : String} {first : Mark} (h : Laid lang marks rows)
    (subject : String) (hfirst : first.StandsOn lang ending) (width level : Nat) :
    Written lang subject (first :: marks)
      (Row.textAll width (.line level (leadText lang subject ++ ending) :: rows)) := by
  obtain ⟨lines, htext, hlines⟩ := h.exists_lines width
  refine ⟨level * width, ending :: lines, ?_, .cons hfirst hlines⟩
  rw [List.map_cons, String.join_cons, ← htext]
  simp [Row.textAll, Row.text, Fragment.indented, blanks, String.append_assoc]

/-- The same for a header that is alone on its line. -/
theorem Laid.written_alone (h : Laid lang marks rows) (subject : String) (width level : Nat) :
    Written lang subject (.idle :: marks)
      (Row.textAll width (.line level (leadText lang subject) :: rows)) := by
  have hnothing : Mark.StandsOn lang .idle "" := ⟨0, "", rfl, .nothing⟩
  have hwritten := h.written subject hnothing width level
  rwa [String.append_empty] at hwritten

/-- Printed rows are the text of a switch, which does what the tree means. -/
structure IsShown (view : View) (subject : String) (arms : List Arm) (marks : List Mark)
    (rows : List Row) : Prop where
  written : ∀ width, Written view.lang subject marks (Row.textAll width rows)
  calls : ∀ call, .call call ∈ marks → ∃ arm ∈ arms, call ∈ arm.body
  run : ∀ value, Switch.run view.lang marks value = Arm.run arms value

/-- Some cases and their subject are shown by rows. -/
def AreShown (view : View) (subject : NodeId) (cases : List Case) (rows : List Row) : Prop :=
  ∃ arms text marks, List.Forall₂ (Arm.At view) arms cases ∧ view.Renders subject text ∧
    IsShown view text arms marks rows

end Switch

open Switch

/-! ## Java and C++ -/

namespace Braced

variable {idiom : Idiom} {view : View} {level depth : Nat}

/-- A call is a line. -/
theorem adds_call (hlang : view.lang ≠ .python) {item : NodeId}
    (hitem : ∃ call, Makes view.arena item call) :
    Adds level (nodeTo idiom view depth item) fun _ rows =>
      ∃ text, Made view text item ∧ rows = [.line level (callText view.lang text)] := by
  obtain ⟨call, hmakes⟩ := hitem
  cases depth with
  | zero => exact .throw _
  | succ depth =>
    have hline : Adds level (do
        let text ← view.expr call
        Emit.line (text ++ ";") : Emit Unit) fun _ rows =>
          ∃ text, Made view text item ∧ rows = [.line level (callText view.lang text)] := by
      refine .rendered fun text htext => (Adds.line _).mono fun _ rows hrows => ?_
      exact ⟨text, ⟨call, hmakes, htext⟩, by rw [hrows, callText, if_neg hlang]⟩
    obtain ⟨rfl | found, e, hexpr, -⟩ := hmakes
    · refine .follow fun node hnode => ?_
      rw [Arena.node_of_expr hexpr] at hnode
      cases hnode
      exact hline
    · refine .follow fun node hnode => ?_
      rw [Arena.node_of_stmt found] at hnode
      cases hnode
      exact hline

/-- The calls of a body, a level deeper, and a last line. -/
theorem adds_body (hlang : view.lang ≠ .python) {id : NodeId} {items : List NodeId}
    (found : view.arena.stmt id = .ok (.block items))
    (hitems : ∀ item ∈ items, ∃ call, Makes view.arena item call) (tail : Option String) :
    Adds level (body view (nodeTo idiom view depth) id tail) fun _ rows =>
      ∃ texts, List.Forall₂ (Made view) texts items ∧
        rows = (texts.map fun text => .line (level + 1) (callText view.lang text)) ++
          (tail.map (Row.line (level + 1))).toList := by
  have hinside : Adds (level + 1) (inside view (nodeTo idiom view depth) id) fun _ rows =>
      ∃ texts, List.Forall₂ (Made view) texts items ∧
        rows = texts.map fun text => Row.line (level + 1) (callText view.lang text) := by
    refine .follow fun s hs => ?_
    rw [found] at hs
    cases hs
    exact adds_calls fun item hitem => adds_call hlang (hitems item hitem)
  have htail : Adds (level + 1) (tail.forM Emit.line) fun _ rows =>
      rows = (tail.map (Row.line (level + 1))).toList := by
    cases tail with
    | none => exact .pure rfl
    | some text => exact Adds.line text
  have hboth : Adds (level + 1) (do
      inside view (nodeTo idiom view depth) id
      tail.forM Emit.line) fun _ rows => ∃ texts, List.Forall₂ (Made view) texts items ∧
        rows = (texts.map fun text => Row.line (level + 1) (callText view.lang text)) ++
          (tail.map (Row.line (level + 1))).toList := by
    refine hinside.andThen htail ?_
    rintro _ _ ⟨texts, htexts, rfl⟩ rfl
    exact ⟨texts, htexts, rfl⟩
  have hall := hboth.framed.deeper
  simp only [bind_assoc] at hall
  rw [body_eq]
  exact hall

/-- No call leaves a body on its own. -/
theorem grants_leavesAtEnd {arena : Arena} {id : NodeId} {items : List NodeId}
    (found : arena.stmt id = .ok (.block items))
    (hitems : ∀ item ∈ items, ∃ call, Makes arena item call) :
    Grants (arena.leavesAtEnd id) fun leaves => leaves = false := by
  rw [Arena.leavesAtEnd, Arena.depthBound, Arena.leavesAtEndTo, Arena.node_of_stmt found]
  dsimp only [bind, Except.bind]
  cases hlast : items.getLast? with
  | none => exact .ok rfl
  | some last =>
    obtain ⟨call, hplace, e, hexpr, -⟩ := hitems last (List.mem_of_getLast? hlast)
    cases arena.size with
    | zero =>
      intro leaves hleaves
      cases hleaves
    | succ size =>
      rcases hplace with rfl | hstmt
      · show Grants (arena.leavesAtEndTo (size + 1) last) _
        rw [Arena.leavesAtEndTo, Arena.node_of_expr hexpr]
        exact .ok rfl
      · show Grants (arena.leavesAtEndTo (size + 1) last) _
        rw [Arena.leavesAtEndTo, Arena.node_of_stmt hstmt]
        exact .ok rfl

/-- A case is left exactly if it is meant to be: the default never is. -/
theorem caseTail_eq {case : Case} {items : List NodeId} {tail : Option String}
    (found : view.arena.stmt case.body = .ok (.block items))
    (hitems : ∀ item ∈ items, ∃ call, Makes view.arena item call)
    (h : caseTail view case = .ok tail) :
    tail = match case.label with
      | .leaves _ => some "break;"
      | .falls _ | .default => none := by
  have hgrants : Grants (caseTail view case) fun tail => tail = match case.label with
      | .leaves _ => some "break;"
      | .falls _ | .default => none := by
    unfold caseTail
    cases case.label with
    | leaves value =>
      refine (grants_leavesAtEnd found hitems).bind fun leaves hleaves => ?_
      rw [hleaves]
      exact .ok rfl
    | falls value | default => exact .ok rfl
  exact hgrants tail h

/-- The label of a case is written as it reads. -/
theorem exists_label {case : Case} {text : String} (hcase : IsPlain view.arena case)
    (hlang : view.lang ≠ .python)
    (h : ∃ before after, caseLabel view case.label before = .ok text after) :
    ∃ label : Label, label.At view.arena case.label ∧
      text = labelText view.lang (label.value?.map fun value => [value]) := by
  have hvalue : ∀ value ∈ case.label.value?, ∃ n, view.arena.expr value = .ok (.int n) ∧
      text = "case " ++ Text.numeral n ++ ":" := by
    intro value hmem
    obtain ⟨n, found⟩ := hcase.value value hmem
    obtain ⟨before, after, h⟩ := h
    rw [caseLabel, Option.mem_def.1 hmem] at h
    obtain ⟨rendered, between, hrender, h⟩ := exists_of_bind h
    cases h
    rw [eq_numeral_of_renders found ⟨before, _, hrender⟩]
    exact ⟨n, found, rfl⟩
  cases hlabel : case.label with
  | leaves value =>
    obtain ⟨n, found, rfl⟩ := hvalue value (by rw [hlabel]; rfl)
    exact ⟨.leaves n, .leaves found, by simp [labelText]⟩
  | falls value =>
    obtain ⟨n, found, rfl⟩ := hvalue value (by rw [hlabel]; rfl)
    exact ⟨.falls n, .falls found, by simp [labelText]⟩
  | default =>
    obtain ⟨before, after, h⟩ := h
    rw [hlabel] at h
    cases h
    exact ⟨.default, .default, by simp [labelText, hlang]⟩

/-- A case, its label and its body. -/
theorem adds_switchCase (hlang : view.lang ≠ .python) {case : Case}
    (hcase : IsPlain view.arena case) :
    Adds level (switchCase view (nodeTo idiom view depth) case) fun _ rows =>
      ∃ arm : Arm, arm.At view case ∧ ∃ group, arm.Grouped group ∧
        Laid view.lang group rows := by
  obtain ⟨items, found, hitems⟩ := hcase.body
  refine .rendered fun text htext => .follow fun braced _ => .follow fun tail htail => ?_
  obtain ⟨label, hlabel, rfl⟩ := exists_label hcase hlang htext
  have htail := caseTail_eq found hitems htail
  have hbody : Adds level (body view (nodeTo idiom view depth) case.body tail) _ :=
    adds_body hlang found hitems tail
  have hvalues : label.value?.map (fun value => [value]) ≠ some [] := by
    cases label <;> simp
  -- the lines after the label, up to those that only close braces
  have hinner : ∀ (texts : List String) (rows : List Row),
      rows = (texts.map fun text => Row.line (level + 1) (callText view.lang text)) ++
        (tail.map (Row.line (level + 1))).toList →
      Laid view.lang (texts.map .call ++ label.exit) rows := by
    rintro texts _ rfl
    refine (laid_calls texts (level + 1)).append ?_
    rw [htail]
    generalize case.label = given at hlabel
    cases hlabel with
    | leaves => exact .cons (.leave hlang) (level + 1) .nil
    | falls | default => exact .nil
  split
  · refine .lineThen (hbody.andThen (Adds.line "\x7d") ?_)
    rintro rows _ ⟨texts, htexts, hrows⟩ rfl
    refine ⟨⟨label, texts⟩, ⟨hlabel, items, found, htexts⟩, _, ⟨1, rfl⟩, ?_⟩
    refine .cons (.openLabel hvalues hlang) level ?_
    exact (hinner texts rows hrows).append (.cons (.closing hlang) level .nil)
  · refine .lineThen (hbody.mono ?_)
    rintro _ rows ⟨texts, htexts, hrows⟩
    refine ⟨⟨label, texts⟩, ⟨hlabel, items, found, htexts⟩, _, ⟨0, rfl⟩, ?_⟩
    refine .cons (.label hvalues) level ?_
    simpa using hinner texts rows hrows

/-- The cases of a switch. -/
theorem adds_cases (hlang : view.lang ≠ .python) {cases : List Case}
    (hcases : ∀ case ∈ cases, IsPlain view.arena case) :
    Adds level (cases.forM (switchCase view (nodeTo idiom view depth))) fun _ rows =>
      ∃ arms groups, List.Forall₂ (Arm.At view) arms cases ∧ List.Forall₂ Arm.Grouped arms groups ∧
        Laid view.lang groups.flatten rows := by
  refine (Adds.forM fun case hcase => adds_switchCase hlang (hcases case hcase)).mono ?_
  rintro _ _ ⟨parts, rfl, hparts⟩
  clear hcases
  induction hparts with
  | nil => exact ⟨[], [], .nil, .nil, .nil⟩
  | cons hcase _ ih =>
    obtain ⟨arm, harm, group, hgroup, hlaid⟩ := hcase
    obtain ⟨arms, groups, harms, hgroups, hrest⟩ := ih
    exact ⟨arm :: arms, group :: groups, .cons harm harms, .cons hgroup hgroups,
      hlaid.append hrest⟩

/-- **A switch, line by line.** -/
theorem adds_switch (hlang : view.lang ≠ .python) {id subject : NodeId} {cases : List Case}
    (found : view.arena.stmt id = .ok (.switch subject cases))
    (hcases : ∀ case ∈ cases, IsPlain view.arena case)
    (hlast : ∀ case ∈ cases.dropLast, case.label ≠ .default) :
    Adds level (nodeTo idiom view depth id) fun _ rows => AreShown view subject cases rows := by
  cases depth with
  | zero => exact .throw _
  | succ depth =>
    refine .follow fun node hnode => ?_
    rw [Arena.node_of_stmt found] at hnode
    cases hnode
    refine .rendered fun text htext => ?_
    have hdeep : Adds level (do
        Emit.indent
        cases.forM (switchCase view (nodeTo idiom view depth))
        Emit.dedent) _ := (adds_cases hlang hcases).deeper
    have hinner : Adds level (do
        Emit.indent
        cases.forM (switchCase view (nodeTo idiom view depth))
        Emit.dedent
        closeBlock) fun _ rows => ∃ arms groups, List.Forall₂ (Arm.At view) arms cases ∧
          List.Forall₂ Arm.Grouped arms groups ∧
          Laid view.lang (groups.flatten ++ [Mark.idle]) rows := by
      simp only [← bind_assoc]
      simp only [← bind_assoc] at hdeep
      refine hdeep.andThen (Adds.line "\x7d") ?_
      rintro rows _ ⟨arms, groups, harms, hgroups, hlaid⟩ rfl
      exact ⟨arms, groups, harms, hgroups, hlaid.append (.cons (.closing hlang) level .nil)⟩
    have hshown : ∀ {arms : List Arm} {groups : List (List Mark)} {rows : List Row} (opening : Nat),
        List.Forall₂ (Arm.At view) arms cases → List.Forall₂ Arm.Grouped arms groups →
        (∀ width, Written view.lang text
          (List.replicate opening Mark.idle ++ (groups.flatten ++ [Mark.idle]))
            (Row.textAll width rows)) →
        AreShown view subject cases rows := by
      intro arms groups rows opening harms hgroups hwritten
      refine ⟨arms, text, _, harms, htext, hwritten, fun call hcall => ?_, fun value => ?_⟩
      · have hmem : .call call ∈ groups.flatten := by simpa using hcall
        exact exists_arm_of_call_mem_groups hgroups hmem
      · have h := Mark.jumped_groups hgroups (defaultLast_of_at harms hlast) opening 1 value
        rw [run, if_neg hlang, ← h, List.append_assoc]
        rfl
    have hlead : "switch (" ++ text ++ ")" = leadText view.lang text := by
      rw [leadText, if_neg hlang]
    unfold openBlock
    rw [hlead]
    split
    · refine .lineThen (hinner.mono ?_)
      rintro _ rows ⟨arms, groups, harms, hgroups, hlaid⟩
      exact hshown 1 harms hgroups fun width =>
        hlaid.written text ⟨1, "\x7b", rfl, .opening hlang⟩ width level
    · simp only [bind_assoc]
      refine .lineThen (.lineThen (hinner.mono ?_))
      rintro _ rows ⟨arms, groups, harms, hgroups, hlaid⟩
      exact hshown 2 harms hgroups fun width =>
        (hlaid.cons (.opening hlang) level).written_alone text width level

end Braced

/-! ## Python -/

namespace Python

variable {view : View} {level depth : Nat} (hlang : view.lang = .python)
include hlang

theorem adds_call {item : NodeId} (hitem : ∃ call, Makes view.arena item call) :
    Adds level (nodeTo view depth item) fun _ rows =>
      ∃ text, Made view text item ∧ rows = [.line level (callText view.lang text)] := by
  obtain ⟨call, hmakes⟩ := hitem
  cases depth with
  | zero => exact .throw _
  | succ depth =>
    have hline : Adds level (exprLine view call) fun _ rows =>
        ∃ text, Made view text item ∧ rows = [.line level (callText view.lang text)] := by
      refine .rendered fun text htext => (Adds.line _).mono fun _ rows hrows => ?_
      exact ⟨text, ⟨call, hmakes, htext⟩, by rw [hrows, callText, if_pos hlang]⟩
    obtain ⟨rfl | found, e, hexpr, -⟩ := hmakes
    · refine .follow fun node hnode => ?_
      rw [Arena.node_of_expr hexpr] at hnode
      cases hnode
      exact hline
    · refine .follow fun node hnode => ?_
      rw [Arena.node_of_stmt found] at hnode
      cases hnode
      exact hline

omit hlang in
/-- No call is a `break`. -/
theorem grants_withoutBreak_calls {arena : Arena} {items : List NodeId}
    (hitems : ∀ item ∈ items, ∃ call, Makes arena item call) :
    Grants (withoutBreak arena items) fun kept => kept = items := by
  unfold withoutBreak
  cases hlast : items.getLast? with
  | none => exact .ok rfl
  | some last =>
    obtain ⟨call, hplace, e, hexpr, -⟩ := hitems last (List.mem_of_getLast? hlast)
    have hplain : isPlainBreak arena last = .ok false := by
      unfold isPlainBreak
      rcases hplace with rfl | hstmt
      · rw [Arena.node_of_expr hexpr]
        rfl
      · rw [Arena.node_of_stmt hstmt]
        rfl
    refine Grants.bind (fun isBreak h => ?_) fun isBreak (h : isBreak = false) =>
      .ok (by rw [h]; rfl)
    rw [hplain] at h
    cases h
    rfl

/-- The suite of a case. -/
theorem adds_caseStatements {body : NodeId} {items : List NodeId}
    (found : view.arena.stmt body = .ok (.block items))
    (hitems : ∀ item ∈ items, ∃ call, Makes view.arena item call) :
    Adds level (caseStatements view (nodeTo view depth) body) fun _ rows =>
      ∃ texts, List.Forall₂ (Made view) texts items ∧ Laid view.lang (suiteOf texts) rows := by
  refine .follow fun s hs => ?_
  rw [found] at hs
  cases hs
  refine .follow fun kept hkept => ?_
  obtain rfl := grants_withoutBreak_calls hitems kept hkept
  cases kept with
  | nil =>
    refine (Adds.line "pass").mono fun _ rows hrows => ?_
    subst hrows
    exact ⟨[], .nil, .cons (.pass hlang) level .nil⟩
  | cons item rest =>
    refine (adds_calls fun item hitem => adds_call hlang (hitems item hitem)).mono ?_
    rintro _ _ ⟨texts, htexts, rfl⟩
    refine ⟨texts, htexts, ?_⟩
    have hne : texts ≠ [] := by
      rintro rfl
      cases htexts
    rw [suiteOf, if_neg (by simpa using hne)]
    exact laid_calls texts level

omit hlang in
/-- A pattern is a number, or takes everything. -/
theorem exists_pattern {case : Case} {text : String} (hcase : IsPlain view.arena case)
    (h : ∃ before after, casePattern view case.label before = .ok text after) :
    ∃ label : Label, label.At view.arena case.label ∧
      text = (label.value?.map Text.numeral).getD "_" := by
  have hvalue : ∀ value ∈ case.label.value?, ∃ n, view.arena.expr value = .ok (.int n) ∧
      text = Text.numeral n := by
    intro value hmem
    obtain ⟨n, found⟩ := hcase.value value hmem
    obtain ⟨before, after, h⟩ := h
    rw [casePattern, Option.mem_def.1 hmem] at h
    exact ⟨n, found, eq_numeral_of_renders found ⟨before, after, h⟩⟩
  cases hlabel : case.label with
  | leaves value =>
    obtain ⟨n, found, rfl⟩ := hvalue value (by rw [hlabel]; rfl)
    exact ⟨.leaves n, .leaves found, rfl⟩
  | falls value =>
    obtain ⟨n, found, rfl⟩ := hvalue value (by rw [hlabel]; rfl)
    exact ⟨.falls n, .falls found, rfl⟩
  | default =>
    obtain ⟨before, after, h⟩ := h
    rw [hlabel] at h
    cases h
    exact ⟨.default, .default, rfl⟩

omit hlang in
/-- Numbers are joined by bars. -/
theorem patternLabel_numerals (values : List Int) :
    patternLabel (values.map Text.numeral) = " | ".intercalate (values.map Text.numeral) := by
  have hnone : (values.map Text.numeral).contains "_" = false := by
    rw [List.contains_eq_mem, decide_eq_false_iff_not]
    intro hmem
    obtain ⟨n, -, hn⟩ := List.mem_map.1 hmem
    have hchars : Text.numeralChars n = ['_'] := by
      have := congrArg String.toList hn
      simpa [Text.numeral] using this
    exact not_mem_numeralChars (by decide) (by decide) n (hchars ▸ List.mem_singleton_self '_')
  rw [patternLabel, hnone]
  rfl

omit hlang in
/-- A pattern that takes everything is left alone. -/
theorem patternLabel_wildcard (patterns : List String) :
    patternLabel (patterns ++ ["_"]) = "_" := by
  rw [patternLabel, if_pos (by simp)]

omit hlang in
theorem eq_nil_of_isEmptyBlock {arena : Arena} {body : NodeId} {items : List NodeId}
    (found : arena.stmt body = .ok (.block items)) (h : arena.isEmptyBlock body = .ok true) :
    items = [] := by
  rw [Arena.isEmptyBlock, found] at h
  cases items with
  | nil => rfl
  | cons item rest => cases h

/-- What is shown for cases, given the values that fall into the first of them. -/
def AreMarked (view : View) (pending : List Int) (items : List Case) (rows : List Row) : Prop :=
  ∃ arms, List.Forall₂ (Arm.At view) arms items ∧
    (∀ arm ∈ arms, ∀ value, arm.label = .falls value → arm.body = []) ∧
    Laid view.lang (marksOf pending arms) rows

/-- A case with a suite, and the cases after it. -/
theorem adds_suiteThen (label : Label) (values : Option (List Int)) {case : Case}
    {rest : List Case} {pending : List Int} {header : String} (hcase : IsPlain view.arena case)
    (hlabel : label.At view.arena case.label) (hfalls : ∀ value, label ≠ .falls value)
    (hvalues : values ≠ some []) (hheader : header ++ ":" = labelText view.lang values)
    (hmarks : ∀ texts arms, marksOf pending (⟨label, texts⟩ :: arms) =
      .label values :: (suiteOf texts ++ marksOf [] arms))
    (hrest : Adds level (cases view (nodeTo view depth) [] rest) fun _ =>
      AreMarked view [] rest) :
    Adds level (do
      suite header (caseStatements view (nodeTo view depth) case.body)
      cases view (nodeTo view depth) [] rest) fun _ => AreMarked view pending (case :: rest) := by
  obtain ⟨body, found, hbody⟩ := hcase.body
  have hfirst : Adds level (suite header (caseStatements view (nodeTo view depth) case.body))
      fun _ rows => ∃ texts, List.Forall₂ (Made view) texts body ∧
        Laid view.lang (.label values :: suiteOf texts) rows := by
    refine adds_suite ((adds_caseStatements hlang found hbody).mono fun _ rows hrows => ?_)
    obtain ⟨texts, htexts, hlaid⟩ := hrows
    rw [hheader]
    exact ⟨texts, htexts, .cons (.label hvalues) level hlaid⟩
  refine hfirst.andThen hrest ?_
  rintro rows more ⟨texts, htexts, hlaid⟩ ⟨arms, harms, hempty, hmore⟩
  refine ⟨⟨label, texts⟩ :: arms, .cons ⟨hlabel, body, found, htexts⟩ harms, ?_, ?_⟩
  · intro arm harm value hvalue
    rcases List.mem_cons.1 harm with rfl | harm
    · exact absurd hvalue (hfalls value)
    · exact hempty arm harm value hvalue
  · rw [hmarks]
    exact hlaid.append hmore

/-- The cases of a switch, given the values that fall into the first of them. -/
theorem adds_cases {items : List Case} (hitems : ∀ case ∈ items, IsPlain view.arena case)
    (pending : List Int) :
    Adds level (cases view (nodeTo view depth) (pending.map Text.numeral) items) fun _ =>
      AreMarked view pending items := by
  induction items generalizing pending with
  | nil =>
    rw [cases]
    cases pending with
    | nil => exact .pure ⟨[], .nil, by simp, .nil⟩
    | cons value pending =>
      refine .lineThen ((Adds.line "pass").deeper.mono fun _ rows hrows => ?_)
      subst hrows
      exact ⟨[], .nil, by simp,
        .cons (.label (by simp)) level (.cons (.pass hlang) (level + 1) .nil)⟩
  | cons case rest ih =>
    have hcase := hitems case (by simp)
    have hrest := ih fun case hmem => hitems case (by simp [hmem])
    obtain ⟨body, found, hbody⟩ := hcase.body
    rw [cases]
    refine .rendered fun pattern hpattern => ?_
    obtain ⟨label, hlabel, rfl⟩ := exists_pattern hcase hpattern
    cases hgiven : case.label with
    | falls value =>
      rw [hgiven] at hlabel
      cases hlabel with
      | @falls n _ hvalue =>
        refine .follow fun empty hempty => ?_
        cases empty with
        | false => exact .throw _
        | true =>
          obtain rfl := eq_nil_of_isEmptyBlock found hempty
          have hjoined := hrest (pending ++ [n])
          rw [List.map_append] at hjoined
          refine hjoined.mono ?_
          rintro _ rows ⟨arms, harms, hempty, hlaid⟩
          refine ⟨⟨.falls n, []⟩ :: arms, .cons ⟨hgiven ▸ .falls hvalue, [], found, .nil⟩ harms, ?_,
            hlaid⟩
          intro arm harm value hvalue
          rcases List.mem_cons.1 harm with rfl | harm
          · rfl
          · exact hempty arm harm value hvalue
    | leaves value =>
      rw [hgiven] at hlabel
      cases hlabel with
      | @leaves n _ hvalue =>
        refine adds_suiteThen hlang (.leaves n) (some (pending ++ [n])) hcase
          (hgiven ▸ .leaves hvalue) (by simp) (by simp) ?_ (fun _ _ => rfl) (hrest [])
        have hpatterns := patternLabel_numerals (pending ++ [n])
        rw [List.map_append] at hpatterns
        simpa [labelText] using hpatterns
    | default =>
      rw [hgiven] at hlabel
      cases hlabel
      refine adds_suiteThen hlang .default none hcase
        (hgiven ▸ .default) (by simp) (by simp) ?_ (fun _ _ => rfl) (hrest [])
      have hwildcard := patternLabel_wildcard (pending.map Text.numeral)
      simp [labelText, hlang, hwildcard]

/-- **A switch, line by line.** -/
theorem adds_switch {id subject : NodeId} {items : List Case}
    (found : view.arena.stmt id = .ok (.switch subject items))
    (hitems : ∀ case ∈ items, IsPlain view.arena case)
    (hlast : ∀ case ∈ items.dropLast, case.label ≠ .default) :
    Adds level (nodeTo view depth id) fun _ rows => AreShown view subject items rows := by
  cases depth with
  | zero => exact .throw _
  | succ depth =>
    refine .follow fun node hnode => ?_
    rw [Arena.node_of_stmt found] at hnode
    cases hnode
    refine .rendered fun text htext => ?_
    have hlead : "match " ++ text ++ ":" = leadText view.lang text := by
      rw [leadText, if_pos hlang]
    have hcases : Adds (level + 1) (cases view (nodeTo view depth) [] items) _ :=
      adds_cases hlang hitems []
    rw [hlead]
    refine .lineThen (hcases.deeper.mono ?_)
    rintro _ rows ⟨arms, harms, hfalls, hlaid⟩
    refine ⟨arms, text, _, harms, htext, fun width => hlaid.written_alone text width level,
      fun call hcall => ?_, fun value => ?_⟩
    · have hmem : .call call ∈ marksOf [] arms := by simpa using hcall
      exact Mark.exists_arm_of_call_mem_marksOf hmem
    · have h := Mark.matched_marksOf [] (defaultLast_of_at harms hlast) hfalls value
      rw [run, if_pos hlang, Mark.matched, h]
      simp

end Python

/-! ## All languages -/

namespace View

/-- Prints a node of at most the given depth in the language of a view. -/
def nodeTo (view : View) (depth : Nat) : NodeId → Emit Unit :=
  match view.lang with
  | .java => Braced.nodeTo Java.idiom view depth
  | .python => Python.nodeTo view depth
  | .cpp => Braced.nodeTo Cpp.idiom view depth

theorem node_eq_nodeTo (view : View) : view.node = view.nodeTo view.arena.depthBound := by
  unfold node nodeTo
  cases view.lang <;> rfl

/-- **A printed switch selects and leaves as in the tree.**  Take a switch whose values are whole
numbers, whose bodies are blocks of calls, and whose default, if it has one, is the last of its
cases.  Wherever and at whatever depth it is printed, its text is a sequence of labels, calls and
`break`s that for every value of the subject makes the calls that the cases mean; and if each call
stands on one line, so does the text itself, as it is read. -/
theorem switch_executes (view : View) {depth : Nat} {id subject : NodeId} {cases : List Case}
    (found : view.arena.stmt id = .ok (.switch subject cases))
    (hcases : ∀ case ∈ cases, IsPlain view.arena case)
    (hlast : ∀ case ∈ cases.dropLast, case.label ≠ .default) {before after : Printer}
    (hrun : view.nodeTo depth id before = .ok () after) :
    ∃ arms subjectText text marks, List.Forall₂ (Arm.At view) arms cases ∧
      view.Renders subject subjectText ∧ after.page = before.page.write text ∧
      Written view.lang subjectText marks text ∧
      (∀ value, run view.lang marks value = Arm.run arms value) ∧
      ((∀ arm ∈ arms, ∀ call ∈ arm.body, OneLine call) →
        ∀ value, execute? view.lang subjectText text value = some (Arm.run arms value)) := by
  have hadds : Adds before.page.level (view.nodeTo depth id) fun _ rows =>
      AreShown view subject cases rows := by
    unfold nodeTo
    cases hlang : view.lang with
    | java => exact Braced.adds_switch (by simp [hlang]) found hcases hlast
    | python => exact Python.adds_switch hlang found hcases hlast
    | cpp => exact Braced.adds_switch (by simp [hlang]) found hcases hlast
  obtain ⟨rows, ⟨arms, subjectText, marks, harms, hsubject, hshown⟩, hpage⟩ :=
    hadds before () after rfl hrun
  refine ⟨arms, subjectText, _, marks, harms, hsubject, hpage, hshown.written _, hshown.run, ?_⟩
  intro hlines value
  have hread := read?_of_written (hshown.written before.page.width) fun call hcall => by
    obtain ⟨arm, harm, hmem⟩ := hshown.calls call hcall
    obtain ⟨case, -, hcase⟩ := exists_at_of_mem harms harm
    exact ⟨hlines arm harm call hmem, hcase.getLast? hmem⟩
  rw [execute?, hread, Option.map_some, hshown.run]

/-- A case with a body falls through into one that leaves, and a default follows. -/
theorem switch_executes_falling :
    let arena : Arena := ⟨#[.expr (.ident "x"), .expr (.ident "a"), .expr (.call ⟨1⟩ []),
      .stmt (.block [⟨2⟩]), .expr (.int 1), .expr (.ident "b"), .expr (.call ⟨5⟩ []),
      .stmt (.expr ⟨6⟩), .stmt (.block [⟨7⟩]), .expr (.int (-2)), .expr (.ident "c"),
      .expr (.call ⟨10⟩ []), .stmt (.block [⟨11⟩]),
      .stmt (.switch ⟨0⟩ [⟨.falls ⟨4⟩, ⟨3⟩⟩, ⟨.leaves ⟨9⟩, ⟨8⟩⟩, ⟨.default, ⟨12⟩⟩])]⟩
    let view : View := View.make ⟨arena, ⟨13⟩⟩ .java {}
    let text := "switch (x) \x7b\n    case 1:\n        a();\n    case -2:\n        b();\n" ++
      "        break;\n    default:\n        c();\n\x7d\n"
    view.emit = .ok text ∧ ∀ value, execute? .java "x" text value =
      some (if value = 1 then ["a()", "b()"] else if value = -2 then ["b()"] else ["c()"]) := by
  intro arena view text
  have hemit : view.emit = .ok text := by decide +kernel +revert
  have hplain : ∀ case ∈ [Case.mk (.falls ⟨4⟩) ⟨3⟩, ⟨.leaves ⟨9⟩, ⟨8⟩⟩, ⟨.default, ⟨12⟩⟩],
      IsPlain view.arena case := by
    have ha : Makes view.arena ⟨2⟩ ⟨2⟩ := ⟨.inl rfl, _, rfl, rfl⟩
    have hb : Makes view.arena ⟨7⟩ ⟨6⟩ := ⟨.inr rfl, _, rfl, rfl⟩
    have hc : Makes view.arena ⟨11⟩ ⟨11⟩ := ⟨.inl rfl, _, rfl, rfl⟩
    simp only [List.forall_mem_cons, List.not_mem_nil, false_imp_iff, implies_true, and_true]
    refine ⟨⟨?_, [⟨2⟩], rfl, by simpa using ⟨_, ha⟩⟩, ⟨?_, [⟨7⟩], rfl, by simpa using ⟨_, hb⟩⟩,
      ⟨?_, [⟨11⟩], rfl, by simpa using ⟨_, hc⟩⟩⟩
    · rintro _ ⟨⟩
      exact ⟨1, rfl⟩
    · rintro _ ⟨⟩
      exact ⟨-2, rfl⟩
    · rintro _ ⟨⟩
  obtain ⟨before, after, hbefore, hrun, hafter⟩ := exists_run_of_emit rfl hemit
  rw [node_eq_nodeTo] at hrun
  have hfound : view.arena.stmt ⟨13⟩ = .ok (.switch ⟨0⟩ _) := rfl
  obtain ⟨arms, subject, written, marks, harms, hsubject, hpage, -, -, hexecute⟩ :=
    view.switch_executes hfound hplain (by decide) hrun
  have hwritten : written = text := by
    rw [← hafter, hpage, hbefore]
    simp [Page.write, start, Page.blank]
  have hx : subject = "x" := by
    obtain ⟨_, _, hrender⟩ := hsubject
    cases hrender
    rfl
  have ha : ∀ text, Made view text ⟨2⟩ → text = "a()" := by
    rintro text ⟨call, ⟨rfl | hstmt, -⟩, _, _, hrender⟩
    · cases hrender
      rfl
    · cases hstmt
  have hb : ∀ text, Made view text ⟨7⟩ → text = "b()" := by
    rintro text ⟨call, ⟨rfl | hstmt, _, hexpr, -⟩, _, _, hrender⟩
    · cases hexpr
    · cases hstmt
      cases hrender
      rfl
  have hc : ∀ text, Made view text ⟨11⟩ → text = "c()" := by
    rintro text ⟨call, ⟨rfl | hstmt, -⟩, _, _, hrender⟩
    · cases hrender
      rfl
    · cases hstmt
  have harms : arms = [⟨.falls 1, ["a()"]⟩, ⟨.leaves (-2), ["b()"]⟩, ⟨.default, ["c()"]⟩] := by
    cases harms with
    | cons hfirst harms =>
    cases harms with
    | cons hsecond harms =>
    cases harms with
    | cons hthird harms =>
    cases harms
    rw [hfirst.eq_mk rfl (.falls rfl) ha, hsecond.eq_mk rfl (.leaves rfl) hb,
      hthird.eq_mk rfl .default hc]
  have hlines : ∀ arm ∈ arms, ∀ call ∈ arm.body, OneLine call := by
    rw [harms]
    simp only [List.forall_mem_cons, List.not_mem_nil, false_imp_iff, implies_true, and_true]
    exact ⟨⟨by decide, by decide⟩, ⟨by decide, by decide⟩, ⟨by decide, by decide⟩⟩
  have hexecute := hexecute hlines
  rw [hx, hwritten, harms] at hexecute
  refine ⟨hemit, fun value => (hexecute value).trans ?_⟩
  by_cases hone : value = 1
  · subst hone
    rfl
  · by_cases htwo : value = -2
    · subst htwo
      rfl
    · simp [Arm.run, Arm.startingAt?, Arm.onward, hone, htwo, Ne.symm hone, Ne.symm htwo]

/-- A default before another case runs on into it. -/
theorem switch_default_runs_on :
    let arena : Arena := ⟨#[.expr (.ident "x"), .expr (.ident "a"), .expr (.call ⟨1⟩ []),
      .stmt (.block [⟨2⟩]), .expr (.ident "b"), .expr (.call ⟨4⟩ []), .stmt (.block [⟨5⟩]),
      .expr (.int 1), .stmt (.switch ⟨0⟩ [⟨.default, ⟨3⟩⟩, ⟨.leaves ⟨7⟩, ⟨6⟩⟩])]⟩
    let view : View := View.make ⟨arena, ⟨8⟩⟩ .java {}
    let text := "switch (x) \x7b\n    default:\n        a();\n    case 1:\n        b();\n" ++
      "        break;\n\x7d\n"
    let arms : List Arm := [⟨.default, ["a()"]⟩, ⟨.leaves 1, ["b()"]⟩]
    view.emit = .ok text ∧
      List.Forall₂ (Arm.At view) arms [⟨.default, ⟨3⟩⟩, ⟨.leaves ⟨7⟩, ⟨6⟩⟩] ∧
      Arm.run arms 2 = ["a()"] ∧ execute? .java "x" text 2 = some ["a()", "b()"] := by
  intro arena view text arms
  have hemit : view.emit = .ok text := by decide +kernel +revert
  have hexecute : execute? .java "x" text 2 = some ["a()", "b()"] := by decide +kernel
  have ha : Made view "a()" ⟨2⟩ := ⟨⟨2⟩, ⟨.inl rfl, _, rfl, rfl⟩, {}, _, rfl⟩
  have hb : Made view "b()" ⟨5⟩ := ⟨⟨5⟩, ⟨.inl rfl, _, rfl, rfl⟩, {}, _, rfl⟩
  refine ⟨hemit, .cons ?_ (.cons ?_ .nil), rfl, hexecute⟩
  · exact ⟨.default, _, rfl, .cons ha .nil⟩
  · exact ⟨.leaves rfl, _, rfl, .cons hb .nil⟩

end View

end Interlingua
