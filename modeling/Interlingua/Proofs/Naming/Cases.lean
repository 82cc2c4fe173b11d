import Interlingua.Proofs.Naming.Groups

/-!
# Declarations in the cases of a switch

The cases of a switch share the braces of the switch, unless a case has braces of its own.

* `CaseText`, `View.ShowsCase` — the text of a case, in the groups of its body.
* `Braced.runs_switch` — a switch is printed as the texts of its cases.
* `View.DeclaresOpenly` — the declarations that a body has are items of it.
* `View.declaring_cases_braced` — then a case that declares has braces of its own.
-/

namespace Interlingua

/-- The text of a case: its label, whether it has braces, what its body is printed as, and how it
leaves the switch. -/
structure CaseText where
  label : String
  isBraced : Bool
  groups : List Group
  tail : Option String

namespace CaseText

/-- What is under the label. -/
def inner (level : Nat) (text : CaseText) : List Row :=
  text.groups.flatMap Group.rows ++ text.tail.toList.map (.line level)

def rows (level : Nat) (text : CaseText) : List Row :=
  if text.isBraced then
    .line level (text.label ++ " \x7b") :: text.inner (level + 1) ++ [.line level "\x7d"]
  else .line level text.label :: text.inner (level + 1)

/-- Whether something is declared in the brace scope of the body. -/
def declares (text : CaseText) : Bool := text.groups.any Group.declares

end CaseText

namespace View

/-- The text of a case where some variables are in sight: every group of its body is that of a node
which is direct in an item, and it only declares what is not in sight. -/
structure ShowsCase (view : View) (level : Nat) (known : Scope) (case : Case) (text : CaseText) :
    Prop where
  label : ∃ before after, Braced.caseLabel view case.label before = .ok text.label after
  braced : Braced.isBracedCase view case = .ok text.isBraced
  tail : Braced.caseTail view case = .ok text.tail
  direct : ∀ group ∈ text.groups, ∃ item ∈ view.bodyItems case.body, view.Direct item group.id
  shows : ∀ group ∈ text.groups, view.Shows (level + 1) group
  declares : ∀ group ∈ text.groups, group.declares = true → view.Declares known group.id

/-- The rows of a switch. -/
def switchRows (view : View) (level : Nat) (subject : String) (texts : List CaseText) : List Row :=
  (Braced.opening view ("switch (" ++ subject ++ ")")).map (.line level) ++
    texts.flatMap (CaseText.rows (level + 1)) ++ [.line level "\x7d"]

end View

/-! ## Printing the cases -/

/-- Everything that is in sight stays in sight. -/
def Scope.Keeps (scope after : Scope) : Prop :=
  ∀ name, scope.hasVariable name = true → after.hasVariable name = true

theorem View.Declares.of_keeps {view : View} {scope after : Scope} {id : NodeId}
    (h : view.Declares after id) (hkeeps : scope.Keeps after) : view.Declares scope id := by
  refine h.imp_right ?_
  rintro ⟨hauto, name, hassigns, hname⟩
  refine ⟨hauto, name, hassigns, ?_⟩
  rw [Bool.eq_false_iff] at hname ⊢
  exact fun hscope => hname (hkeeps name hscope)

theorem Scope.Keeps.trans {scope after last : Scope} (h : scope.Keeps after)
    (h' : after.Keeps last) : scope.Keeps last := fun name hname => h' name (h name hname)

/-- Nothing gets out of sight while something is rendered. -/
theorem View.keeps_of_render {view : View} (hlang : view.lang ≠ .python) {id : NodeId}
    {text : String} {scope after : Scope} (hrun : view.expr id scope = .ok text after) :
    scope.Keeps after :=
  (View.yields_grows hlang _ (Set.subset_univ _) scope text after .refl hrun).1.keeps

namespace Braced

open Emit

variable {view : View} {level : Nat} {known : Scope}

theorem keeps_of_caseLabel (hlang : view.lang ≠ .python) {label : CaseLabel} {text : String}
    {scope after : Scope} (hrun : caseLabel view label scope = .ok text after) :
    scope.Keeps after := by
  unfold caseLabel at hrun
  cases hvalue : label.value? with
  | none =>
    rw [hvalue] at hrun
    cases hrun
    exact fun _ hname => hname
  | some value =>
    rw [hvalue] at hrun
    obtain ⟨valueText, between, hexpr, hrest⟩ := exists_of_bind hrun
    cases hrest
    exact View.keeps_of_render hlang hexpr

variable {below : NodeId → Emit Unit}
  (hlists : ∀ level known id, view.Lists level known [id] (below id))
include hlists

theorem lists_inside (id : NodeId) :
    view.Lists level known (view.bodyItems id) (inside view below id) := by
  refine Runs.follow fun s hs => ?_
  cases s with
  | block items =>
    rw [View.bodyItems_block hs]
    exact lists_items (hlists level known) items
  | _ =>
    have hself : view.bodyItems id = [id] := by simp [View.bodyItems, hs]
    rw [hself]
    exact hlists level known id

/-- A body is printed in groups, and its frame is left. -/
theorem runs_body (id : NodeId) (tail : Option String) :
    Runs level (· = known) (body view below id tail) fun _ rows after =>
      after = known ∧ ∃ items, rows = items ++ tail.toList.map (.line (level + 1)) ∧
        view.IsListed (level + 1) known (view.bodyItems id) items := by
  have hinside : Runs (level + 1) (· = known.enter) (do
      inside view below id
      tail.forM Emit.line) fun _ rows after => after.around = known.enter.around ∧
        ∃ items, rows = items ++ tail.toList.map (.line (level + 1)) ∧
          view.IsListed (level + 1) known (view.bodyItems id) items := by
    have hitems : Runs (level + 1) (· = known.enter) (inside view below id) _ :=
      Runs.of_pre (lists_inside hlists id) (by
        rintro scope rfl
        rfl)
    refine hitems.bind fun _ items => .of_scope ?_
    rintro scope ⟨haround, hlisted⟩
    refine (Runs.lineIfAny tail).mono ?_
    rintro _ _ after ⟨rfl, rfl⟩
    exact ⟨haround, items, rfl, hlisted⟩
  have hall := (Runs.framed hinside).deeper
  simp only [bind_assoc] at hall
  rw [body_eq]
  refine hall.mono ?_
  rintro _ rows after ⟨hafter, _, hitems⟩
  exact ⟨hafter, hitems⟩

/-- A case is printed in groups, under its label and perhaps in braces. -/
theorem runs_switchCase (hlang : view.lang ≠ .python) (case : Case) :
    Runs level known.Keeps (switchCase view below case) fun _ rows after =>
      known.Keeps after ∧ ∃ text : CaseText, rows = text.rows level ∧
        view.ShowsCase level known case text := by
  refine .rendered (fun label after => known.Keeps after ∧
    ∃ before after, caseLabel view case.label before = .ok label after) ?_ fun label => ?_
  · exact fun scope label after hscope hrun =>
      ⟨hscope.trans (keeps_of_caseLabel hlang hrun), scope, after, hrun⟩
  refine .of_scope fun scope ⟨hkeeps, hlabel⟩ => ?_
  refine .follow fun braced hbraced => .follow fun tail htail => ?_
  have hshows : ∀ items, view.IsListed (level + 1) scope (view.bodyItems case.body) items →
      ∃ text : CaseText, text.label = label ∧ text.isBraced = braced ∧
        text.inner (level + 1) = items ++ tail.toList.map (.line (level + 1)) ∧
        view.ShowsCase level known case text := by
    rintro _ ⟨groups, rfl, hgroups⟩
    refine ⟨⟨label, braced, groups, tail⟩, rfl, rfl, rfl, hlabel, hbraced, htail, ?_, ?_, ?_⟩
    · exact fun group hgroup => (hgroups group hgroup).1
    · exact fun group hgroup => (hgroups group hgroup).2.1
    · exact fun group hgroup hdeclares => ((hgroups group hgroup).2.2 hdeclares).of_keeps hkeeps
  have hbody : Runs level (· = scope) (body view below case.body tail) _ :=
    runs_body hlists case.body tail
  split
  · rename_i hopen
    refine .lineThen ((hbody.thenLine "\x7d").mono ?_)
    rintro _ _ _ ⟨_, rfl, rfl, items, rfl, hitems⟩
    obtain ⟨text, rfl, rfl, hinner, htext⟩ := hshows items hitems
    exact ⟨hkeeps, text, by simp [CaseText.rows, hopen, hinner], htext⟩
  · rename_i hopen
    refine .lineThen (hbody.mono ?_)
    rintro _ _ _ ⟨rfl, items, rfl, hitems⟩
    obtain ⟨text, rfl, rfl, hinner, htext⟩ := hshows items hitems
    exact ⟨hkeeps, text, by simp [CaseText.rows, hopen, hinner], htext⟩

theorem runs_cases (hlang : view.lang ≠ .python) (cases : List Case) :
    Runs level known.Keeps (cases.forM (switchCase view below)) fun _ rows after =>
      known.Keeps after ∧ ∃ texts : List CaseText, rows = texts.flatMap (CaseText.rows level) ∧
        List.Forall₂ (view.ShowsCase level known) cases texts := by
  induction cases with
  | nil => exact .pure fun _ hkeeps => ⟨hkeeps, [], rfl, .nil⟩
  | cons case rest ih =>
    refine (runs_switchCase hlists hlang case).bind fun _ rows => .of_scope ?_
    rintro scope ⟨hkeeps, text, rfl, htext⟩
    have hrest : Runs level (· = scope) _ _ := ih.of_pre (by
      rintro _ rfl
      exact hkeeps)
    refine hrest.mono ?_
    rintro _ _ after ⟨hafter, texts, rfl, htexts⟩
    exact ⟨hafter, text :: texts, rfl, .cons htext htexts⟩

/-- A switch is printed as its cases. -/
theorem runs_switch (hlang : view.lang ≠ .python) (subject : NodeId) (cases : List Case) :
    Runs level (· = known) (do
      let subjectText ← view.expr subject
      openBlock view ("switch (" ++ subjectText ++ ")")
      Emit.indent
      cases.forM (switchCase view below)
      Emit.dedent
      closeBlock) fun _ rows _ => ∃ subjectText texts, view.Renders subject subjectText ∧
        rows = view.switchRows level subjectText texts ∧
        List.Forall₂ (view.ShowsCase (level + 1) known) cases texts := by
  refine .rendered (fun text after => known.Keeps after ∧ view.Renders subject text) ?_
    fun subjectText => .of_scope fun scope ⟨hkeeps, hsubject⟩ => ?_
  · rintro _ text after rfl hrun
    exact ⟨View.keeps_of_render hlang hrun, _, after, hrun⟩
  refine (Runs.spelled (spells_openBlock view _)).bind fun _ header => .of_scope ?_
  rintro scope ⟨rfl, rfl⟩
  have hcases : Runs (level + 1) (· = scope) (cases.forM (switchCase view below)) _ :=
    (runs_cases hlists hlang cases).of_pre (by
      rintro _ rfl
      exact hkeeps)
  have hclosed := hcases.deeper.thenLine "\x7d"
  simp only [bind_assoc] at hclosed
  refine hclosed.mono ?_
  rintro _ _ after ⟨_, rfl, -, texts, rfl, htexts⟩
  exact ⟨subjectText, texts, hsubject, by simp [View.switchRows], htexts⟩

end Braced

/-! ## Which cases have braces -/

/-- The idiom of a language. -/
def Braced.Idiom.IsOf (idiom : Braced.Idiom) : Language → Prop
  | .java => idiom = Java.idiom
  | .cpp => idiom = Cpp.idiom
  | .python => False

theorem Braced.Idiom.IsOf.ne_python {idiom : Idiom} {lang : Language} (h : idiom.IsOf lang) :
    lang ≠ .python := by
  rintro rfl
  exact h

theorem Braced.Idiom.IsOf.lists {idiom : Idiom} {view : View} (h : idiom.IsOf view.lang) :
    idiom.Lists view := by
  obtain ⟨lang, hlang⟩ : ∃ lang, view.lang = lang := ⟨_, rfl⟩
  rw [hlang] at h
  cases lang with
  | java =>
    cases h
    exact Java.lists hlang
  | cpp =>
    cases h
    exact Cpp.lists hlang
  | python => exact h.elim

theorem Arena.not_isVars_of_anyDeclares {arena : Arena} {items : List NodeId}
    (h : arena.anyDeclares items = .ok false) : ∀ id ∈ items, ¬ arena.IsVars id := by
  induction items with
  | nil => simp
  | cons item rest ih =>
    rw [anyDeclares] at h
    cases hnode : arena.node item with
    | error fault =>
      rw [hnode] at h
      cases h
    | ok node =>
      rw [hnode] at h
      have hitem : ¬ arena.IsVars item := by
        rintro ⟨ty, declarators, modifiers, hvars⟩
        cases hnode.symm.trans (node_of_decl hvars)
        cases h
      refine List.forall_mem_cons.2 ⟨hitem, ih ?_⟩
      cases node with
      | decl d =>
        cases d with
        | vars ty declarators modifiers => cases h
        | _ => exact h
      | _ => exact h

/-- What is on the page after a run that succeeds. -/
def Emit.output? : EStateM.Result EmitError Printer Unit → Option String
  | .ok _ after => some after.page.output
  | .error _ _ => none

namespace View

variable {view : View} {known : Scope} {case : Case}

/-- The declarations that a body has in its brace scope are items of it: no assignment there
declares, and no declaration is part of an item. -/
def DeclaresOpenly (view : View) (known : Scope) (body : NodeId) : Prop :=
  ∀ item ∈ view.bodyItems body, ∀ id, view.Direct item id → view.Declares known id →
    view.arena.IsVars id ∧ id ∈ view.bodyItems body

/-- A body that stands in no braces has no item that is a declaration. -/
theorem not_isVars_of_isBracedCase (h : Braced.isBracedCase view case = .ok false) :
    ∀ id ∈ view.bodyItems case.body, ¬ view.arena.IsVars id := by
  unfold Braced.isBracedCase at h
  split at h
  · cases h
  unfold Arena.declaresDirectly at h
  unfold bodyItems
  split
  · rename_i items found
    rw [Arena.node_of_stmt found] at h
    exact Arena.not_isVars_of_anyDeclares h
  · rw [List.forall_mem_singleton]
    rintro ⟨ty, declarators, modifiers, hvars⟩
    rw [Arena.node_of_decl hvars] at h
    cases h

theorem ShowsCase.isBraced {level : Nat} {text : CaseText}
    (h : view.ShowsCase level known case text)
    (hopenly : Braced.isBracedCase view case = .ok false → view.DeclaresOpenly known case.body)
    (hdeclares : text.declares = true) : text.isBraced = true := by
  obtain ⟨group, hgroup, hgroupDeclares⟩ := List.any_eq_true.1 hdeclares
  cases hbraced : text.isBraced with
  | true => rfl
  | false =>
    have hplain : Braced.isBracedCase view case = .ok false := hbraced ▸ h.braced
    obtain ⟨item, hitem, hdirect⟩ := h.direct group hgroup
    obtain ⟨hvars, hmem⟩ := hopenly hplain item hitem group.id hdirect
      (h.declares group hgroup hgroupDeclares)
    exact absurd hvars (not_isVars_of_isBracedCase hplain group.id hmem)

/-- Without a type, an assignment starts with its name. -/
theorem Shows.of_assignsTo {level : Nat} {group : Group} {name : String}
    (h : view.Shows level group) (hquiet : group.declares = false)
    (hassigns : view.AssignsTo group.id name) :
    group.rows = [.blank] ∨ ∃ rest, group.rows = [.line level (name ++ " = " ++ rest)] := by
  obtain ⟨target, value, hstmt, htarget⟩ := hassigns
  cases h with
  | blank => exact .inl rfl
  | plain found hnode | braced found hnode =>
    cases found.symm.trans (Arena.node_of_stmt hstmt)
    cases hnode
  | vars => cases hquiet
  | @assign id text origin hid hwritten =>
    cases origin with
    | typed => cases hquiet
    | around => cases hid
    | bare id =>
      cases hid
      obtain ⟨op, target, value, found, htext⟩ := hwritten
      cases found.symm.trans hstmt
      obtain ⟨valueText, -, rfl | rfl⟩ := htext name rfl htarget
      · exact .inr ⟨valueText ++ ";", by simp [String.append_assoc]⟩
      · exact .inr ⟨parenthesized valueText ++ ";", by simp [String.append_assoc]⟩

end View

end Interlingua
