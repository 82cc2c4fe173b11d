import Interlingua.Proofs.Emit.Layout
import Interlingua.Proofs.Naming.Brackets

/-!
# What is printed in a brace scope

* `View.Direct` — a node is printed in the brace scope that another one stands in.
* `Group`, `View.Shows` — the rows that one such node has there, and whether they declare.
* `View.Declares` — a node declares, where some variables are in sight.
* `View.Groups`, `View.Lists` — a printing adds groups of direct nodes.
* `Braced.lists_nodeTo` — a node is printed in groups.
-/

namespace Interlingua

/-! ## What is printed in the brace scope of a node -/

namespace Node

/-- A node that is printed without braces and declares no variable. -/
def isPlain : Node → Bool
  | .expr _ | .type _ => true
  | .decl (.vars ..) => false
  | .decl _ => true
  | .stmt (.expr _) | .stmt (.breakTo _) | .stmt (.continueTo _) | .stmt (.ret _)
  | .stmt (.delete ..) | .stmt (.comment ..) => true
  | _ => false

/-- A node with braces of its own. -/
def isBraced : Node → Bool
  | .stmt (.block _) | .stmt (.conditional ..) | .stmt (.switch ..) | .stmt (.whileLoop ..)
  | .stmt (.doWhile ..) | .stmt (.forLoop ..) | .stmt (.rangeFor ..) | .stmt (.forEach ..)
  | .stmt (.infinite _) | .defn _ => true
  | _ => false

end Node

/-- Some nodes' rows: those of one node, and whether they declare a variable. -/
structure Group where
  id : NodeId
  declares : Bool
  rows : List Row

/-- A node declares variables. -/
def Arena.IsVars (arena : Arena) (id : NodeId) : Prop :=
  ∃ ty declarators modifiers, arena.decl id = .ok (.vars ty declarators modifiers)

namespace View

variable (view : View)

/-- Whether an item of a program stands before its entry point. -/
def standsOutside (id : NodeId) : Bool :=
  match view.arena.node id with
  | .ok node => node.isPreamble || node.isDefinition
  | .error _ => false

/-- The nodes that are printed where a node stands. -/
def spliced (id : NodeId) : List NodeId :=
  match view.arena.node id with
  | .ok (.stmt (.multiAssign items)) => items
  | .ok (.defn (.program items mainClass entryPoint)) =>
    if view.isWrapped mainClass entryPoint then items.filter view.standsOutside else items
  | _ => []

/-- A node is printed in the brace scope that another one stands in. -/
inductive Direct : NodeId → NodeId → Prop
  | self {id : NodeId} : Direct id id
  | item {id item target : NodeId} (hitem : item ∈ view.spliced id) (h : Direct item target) :
      Direct id target

/-- A group has the rows of its node in the brace scope that this stands in.  Only declarations and
assignments with a type declare there. -/
inductive Shows (level : Nat) : Group → Prop
  | blank {id : NodeId} : Shows level ⟨id, false, [.blank]⟩
  | plain {id : NodeId} {node : Node} {texts : List String} (found : view.arena.node id = .ok node)
      (hnode : node.isPlain = true) : Shows level ⟨id, false, texts.map (.line level)⟩
  | braced {id : NodeId} {node : Node} {rows : List Row} (found : view.arena.node id = .ok node)
      (hnode : node.isBraced = true) (h : Row.Bracketed level rows) : Shows level ⟨id, false, rows⟩
  | assign {id : NodeId} {text : String} {origin : Origin}
      (hid : TracedLine.assignment? ⟨level, text, origin⟩ = some id)
      (h : view.IsWritten ⟨level, text, origin⟩) :
      Shows level ⟨id, TracedLine.isTyped ⟨level, text, origin⟩, [.line level text]⟩
  | vars {id : NodeId} {style : Braced.Style} {text : String} (hvars : view.arena.IsVars id)
      (h : ∃ before after, Braced.varsText style view id before = .ok text after) :
      Shows level ⟨id, true, [.line level (text ++ ";")]⟩

/-- A node declares where some variables are in sight: it is a declaration, or it assigns to a name
that is not among them. -/
def Declares (known : Scope) (id : NodeId) : Prop :=
  view.arena.IsVars id ∨ view.isOn .autoDeclaration = true ∧
    ∃ name, view.AssignsTo id name ∧ known.hasVariable name = false

/-- Rows are groups of nodes that are direct in some. -/
def IsListed (level : Nat) (known : Scope) (ids : List NodeId) (rows : List Row) : Prop :=
  ∃ groups : List Group, rows = groups.flatMap Group.rows ∧ ∀ group ∈ groups,
    (∃ id ∈ ids, view.Direct id group.id) ∧ view.Shows level group ∧
      (group.declares = true → view.Declares known group.id)

/-- In a frame inside a scope, a printing adds groups of nodes that are direct in one. -/
def Groups (level : Nat) (known : Scope) (id : NodeId) (action : Emit Unit) : Prop :=
  Emit.Runs level (fun scope => scope.around = known.enter.around) action fun _ rows _ =>
    view.IsListed level known [id] rows

/-- The same for some nodes, where the printing comes back to the frame. -/
def Lists (level : Nat) (known : Scope) (ids : List NodeId) (action : Emit Unit) : Prop :=
  Emit.Runs level (fun scope => scope.around = known.enter.around) action fun _ rows after =>
    after.around = known.enter.around ∧ view.IsListed level known ids rows

end View

theorem Scope.hasVariable_of_around {scope known : Scope} (h : scope.around = known.enter.around)
    {name : String} (hname : known.hasVariable name = true) : scope.hasVariable name = true := by
  have hfound : (known.frames.findSome? (·.vars.find? name)).isSome = true := hname
  have houter : scope.outer = known.frames := congrArg Prod.fst h
  simp only [hasVariable, varType?, frames, houter, List.findSome?_cons]
  cases scope.inner.vars.find? name with
  | some ty => rfl
  | none => exact hfound

namespace View

variable {view : View} {level : Nat} {known : Scope} {ids others : List NodeId} {id : NodeId}
  {rows more : List Row} {first second action : Emit Unit}

theorem Direct.eq_of_spliced {target : NodeId} (h : view.Direct id target)
    (hnil : view.spliced id = []) : target = id := by
  cases h with
  | self => rfl
  | item hitem _ => simp [hnil] at hitem

theorem spliced_multiAssign {items : List NodeId}
    (found : view.arena.node id = .ok (.stmt (.multiAssign items))) : view.spliced id = items := by
  simp [spliced, found]

namespace IsListed

protected theorem nil : view.IsListed level known ids [] := ⟨[], rfl, by simp⟩

theorem append (h : view.IsListed level known ids rows) (h' : view.IsListed level known ids more) :
    view.IsListed level known ids (rows ++ more) := by
  obtain ⟨groups, rfl, hgroups⟩ := h
  obtain ⟨others, rfl, hothers⟩ := h'
  exact ⟨groups ++ others, by simp, List.forall_mem_append.2 ⟨hgroups, hothers⟩⟩

theorem mono (h : view.IsListed level known ids rows) (hsub : ids ⊆ others) :
    view.IsListed level known others rows := by
  obtain ⟨groups, rfl, hgroups⟩ := h
  refine ⟨groups, rfl, fun group hgroup => ?_⟩
  obtain ⟨⟨id, hid, hdirect⟩, hrest⟩ := hgroups group hgroup
  exact ⟨⟨id, hsub hid, hdirect⟩, hrest⟩

/-- What is printed where a node stands is printed for this. -/
theorem splice (h : view.IsListed level known ids rows) (hsub : ids ⊆ view.spliced id) :
    view.IsListed level known [id] rows := by
  obtain ⟨groups, rfl, hgroups⟩ := h
  refine ⟨groups, rfl, fun group hgroup => ?_⟩
  obtain ⟨⟨item, hitem, hdirect⟩, hrest⟩ := hgroups group hgroup
  exact ⟨⟨id, List.mem_singleton_self id, .item (hsub hitem) hdirect⟩, hrest⟩

theorem single {group : Group} (h : view.Shows level group) (hid : group.id ∈ ids)
    (hdeclares : group.declares = true → view.Declares known group.id) :
    view.IsListed level known ids group.rows :=
  ⟨[group], by simp, by simpa using ⟨⟨group.id, hid, .self⟩, h, hdeclares⟩⟩

/-- Rows that do not declare. -/
theorem quiet (h : view.Shows level ⟨id, false, rows⟩) (hid : id ∈ ids) :
    view.IsListed level known ids rows :=
  single h hid nofun

end IsListed

namespace Lists

protected theorem nil : view.Lists level known ids (pure ()) :=
  .pure fun _ hscope => ⟨hscope, .nil⟩

theorem andThen (h : view.Lists level known ids first) (h' : view.Lists level known ids second) :
    view.Lists level known ids (do first; second) := by
  refine Emit.Runs.bind h fun _ rows => .of_scope fun between ⟨hbetween, hrows⟩ => ?_
  have hsecond : Emit.Runs level (· = between) second _ := Emit.Runs.of_pre h' (by
    rintro scope rfl
    exact hbetween)
  exact hsecond.mono fun _ more after ⟨hafter, hmore⟩ => ⟨hafter, hrows.append hmore⟩

theorem mono (h : view.Lists level known ids action) (hsub : ids ⊆ others) :
    view.Lists level known others action :=
  Emit.Runs.mono h fun _ _ _ ⟨haround, hrows⟩ => ⟨haround, hrows.mono hsub⟩

theorem forM {f : NodeId → Emit Unit}
    (h : ∀ item ∈ ids, view.Lists level known ids (f item)) :
    view.Lists level known ids (ids.forM f) := by
  have hall : ∀ items ⊆ ids, view.Lists level known ids (items.forM f) := by
    intro items hitems
    induction items with
    | nil => exact .nil
    | cons item rest ih =>
      rw [List.cons_subset] at hitems
      exact (h item hitems.1).andThen (ih hitems.2)
  exact hall ids (List.Subset.refl ids)

/-- What is printed where a node stands, and after it something for the node. -/
theorem thenGroups (h : view.Lists level known ids first) (hsub : ids ⊆ view.spliced id)
    (h' : view.Groups level known id second) :
    view.Groups level known id (do first; second) := by
  refine Emit.Runs.bind h fun _ rows => .of_scope fun between ⟨hbetween, hrows⟩ => ?_
  have hsecond : Emit.Runs level (· = between) second _ := Emit.Runs.of_pre h' (by
    rintro scope rfl
    exact hbetween)
  exact hsecond.mono fun _ more _ hmore => (hrows.splice hsub).append hmore

theorem blankLine (hid : id ∈ ids) : view.Lists level known ids Emit.blankLine := by
  intro before value after _ hscope hrun
  cases hrun
  exact ⟨[.blank], ⟨hscope, .quiet .blank hid⟩, by simp [Row.textAll, Row.text, Page.newline]⟩

end Lists

end View

/-! ## Lines without braces -/

namespace Emit

variable {level : Nat}

/-- At a level, a printing adds lines. -/
def AddsLines (level : Nat) (action : Emit Unit) : Prop :=
  Adds level action fun _ rows => ∃ texts : List String, rows = texts.map (.line level)

namespace AddsLines

variable {first second : Emit Unit}

theorem line (text : String) : AddsLines level (Emit.line text) :=
  (Adds.line text).mono fun _ _ hrows => ⟨[text], hrows⟩

theorem andThen (h : AddsLines level first) (h' : AddsLines level second) :
    AddsLines level (do first; second) := by
  refine Adds.andThen h h' ?_
  rintro _ _ ⟨texts, rfl⟩ ⟨more, rfl⟩
  exact ⟨texts ++ more, (List.map_append ..).symm⟩

theorem each {γ : Type} {f : γ → Emit Unit} (items : List γ) (h : ∀ item, AddsLines level (f item)) :
    AddsLines level (items.forM f) := by
  induction items with
  | nil => exact .pure ⟨[], rfl⟩
  | cons item rest ih => exact (h item).andThen ih

end AddsLines

/-- Nothing has to be known of the scope. -/
theorem Adds.runs {α : Type} {action : Emit α} {pre : Scope → Prop} {post : α → List Row → Prop}
    (h : Adds level action post) : Runs level pre action fun a rows _ => post a rows :=
  fun before value after hlevel _ hrun => h before value after hlevel hrun

end Emit

namespace View

variable {view : View} {level : Nat} {known : Scope} {id : NodeId} {node : Node}
  {action : Emit Unit}

theorem adds_plain (found : view.arena.node id = .ok node) (hnode : node.isPlain = true)
    (h : Emit.AddsLines level action) :
    Emit.Adds level action fun _ => view.IsListed level known [id] := by
  refine Emit.Adds.mono h ?_
  rintro _ _ ⟨texts, rfl⟩
  exact .quiet (.plain found hnode) (List.mem_singleton_self id)

theorem groups_plain (found : view.arena.node id = .ok node) (hnode : node.isPlain = true)
    (h : Emit.AddsLines level action) : view.Groups level known id action :=
  (adds_plain found hnode h).runs

theorem groups_braced (found : view.arena.node id = .ok node) (hnode : node.isBraced = true)
    (h : Emit.Brackets level action) : view.Groups level known id action := by
  refine (Emit.Adds.runs h).mono fun _ rows _ hrows => ?_
  exact .quiet (.braced found hnode hrows) (List.mem_singleton_self id)

end View

/-! ## Nodes -/

namespace Braced

open Emit

variable {view : View} {level : Nat} {known : Scope}

theorem addsLines_comment (text : String) (multiline : Bool) :
    AddsLines level (comment text multiline) := by
  have hlines : ∀ mark : String, AddsLines level ((Text.lines text.toList).forM
      fun line => Emit.line (String.ofList (Text.trimEnd (mark.toList ++ line)))) :=
    fun mark => .each _ fun line => .line _
  unfold comment
  dsimp only
  split
  · exact (AddsLines.line _).andThen ((hlines " * ").andThen (.line _))
  · exact hlines "// "

/-- An assignment is one line, with a type only if its name is not in sight. -/
theorem groups_assign (hlang : view.lang ≠ .python) {style : Style} {id target value : NodeId}
    {op : AssignOp} (found : view.arena.stmt id = .ok (.assign op target value)) :
    view.Groups level known id (do
      let text ← assignment style view op target value
      Emit.line (text ++ ";")) := by
  refine .of_scope fun scope hscope => ?_
  refine .rendered (fun text after => view.Assigned op target value scope text after) ?_
    fun text => (Runs.line _).mono ?_
  · rintro _ text after rfl hrun
    exact View.assigned_of_run hlang hrun
  rintro _ rows after ⟨rfl, hassigned⟩
  cases hassigned with
  | @typed name typeText valueText hop htarget hauto hnew hvalue htext hvisible hgrows =>
    subst hop
    have hout : known.hasVariable name = false := by
      rw [Bool.eq_false_iff] at hnew ⊢
      exact fun hname => hnew (Scope.hasVariable_of_around hscope hname)
    have hwritten : view.IsWritten ⟨level, text ++ ";", .typed id name⟩ :=
      ⟨target, value, typeText, valueText, found, htarget, hvalue, by rw [htext]⟩
    exact .single (.assign rfl hwritten) (List.mem_singleton_self id) fun _ =>
      .inr ⟨hauto, name, ⟨target, value, found, htarget⟩, hout⟩
  | bare hold htext hgrows =>
    have hwritten : view.IsWritten ⟨level, text ++ ";", .bare id⟩ := View.isWritten_bare found htext
    exact .single (.assign rfl hwritten) (List.mem_singleton_self id) nofun

/-- What a language says for itself is printed in groups. -/
structure Idiom.Lists (idiom : Idiom) (view : View) : Prop where
  balanced : view.tie.Idiomatic idiom
  nests : ∀ loops, idiom.Nests view loops
  decl : ∀ level known id, Adds level (idiom.decl view id) fun _ => view.IsListed level known [id]
  delete : ∀ level target array, AddsLines level (idiom.delete view target array)
  defn : ∀ {below : NodeId → Emit Unit} {level known},
    (∀ loops around id, Writes view loops around 0 (below id) (view.jumps around id)) →
      (∀ id, view.Lists level known [id] (below id)) →
        ∀ {id d}, view.arena.node id = .ok (.defn d) →
          view.Groups level known id (idiom.defn view below d)

section Statements

variable {below : NodeId → Emit Unit}
  (hwrites : ∀ loops around id, Writes view loops around 0 (below id) (view.jumps around id))
  (hlists : ∀ id, view.Lists level known [id] (below id))
include hwrites hlists

theorem groups_stmt (hlang : view.lang ≠ .python) {idiom : Idiom} (hidiom : idiom.Lists view)
    {id : NodeId} {s : Stmt} (found : view.arena.node id = .ok (.stmt s)) :
    view.Groups level known id (stmt idiom view below id s) := by
  have hloop : ∀ header loopBody, Brackets level (bodyUnder view below header loopBody) :=
    fun header loopBody => brackets_bodyUnder hwrites header loopBody
  cases s with
  | assign op target value => exact groups_assign hlang (Arena.stmt_of_node found)
  | multiAssign items =>
    have hitems : view.Lists level known items (items.forM below) :=
      .forM fun item hitem => (hlists item).mono (by simpa using hitem)
    refine Runs.mono hitems fun _ rows _ ⟨_, hrows⟩ => hrows.splice ?_
    rw [View.spliced_multiAssign found]
    exact List.Subset.refl items
  | expr value =>
    refine View.groups_plain found rfl ?_
    exact .after (.render _) fun text => AddsLines.line _
  | block items =>
    have hhead : Spells (Emit.line "\x7b") ["\x7b"] := fun _ => rfl
    have hopened : Brackets level _ := .opened hhead ⟨"\x7b", by simp, by decide⟩
      (deepens_body hwrites level id)
    have hall := hopened.andThen brackets_closeBlock
    simp only [bind_assoc] at hall
    exact View.groups_braced found rfl hall
  | conditional branches otherwise =>
    exact View.groups_braced found rfl (brackets_conditional hwrites branches otherwise)
  | switch subject cases =>
    refine View.groups_braced found rfl ?_
    exact .after (.render _) fun text => brackets_switch hwrites hlang text cases
  | whileLoop cond loopBody =>
    refine View.groups_braced found rfl ?_
    exact .after (.render _) fun text => hloop _ loopBody
  | doWhile loopBody cond =>
    exact View.groups_braced found rfl (brackets_doWhile hwrites loopBody cond)
  | forLoop init cond update loopBody =>
    exact View.groups_braced found rfl (brackets_forLoop hwrites _ init cond update loopBody)
  | rangeFor var range loopBody =>
    refine View.groups_braced found rfl ?_
    refine .after .enter fun _ => .after (.render _) fun header => .after (.setVariable _ _) fun _ => ?_
    exact .before (hloop _ loopBody) (fun _ => .leave) fun _ _ _ hrows => hrows
  | forEach var ty iterable loopBody =>
    refine View.groups_braced found rfl ?_
    refine .after .enter fun _ => .after (.render _) fun header => .after (.setVariable _ _) fun _ => ?_
    exact .before (hloop _ loopBody) (fun _ => .leave) fun _ _ _ hrows => hrows
  | infinite loopBody => exact View.groups_braced found rfl (hloop _ loopBody)
  | breakTo target | continueTo target => exact View.groups_plain found rfl (.line _)
  | ret value =>
    refine View.groups_plain found rfl ?_
    cases value with
    | none => exact .line _
    | some value => exact .after (.render _) fun text => AddsLines.line _
  | delete target array => exact View.groups_plain found rfl (hidiom.delete level target array)
  | comment text multiline => exact View.groups_plain found rfl (addsLines_comment text multiline)

omit hwrites hlists in
/-- **A node is printed in groups.** -/
theorem lists_nodeTo (hlang : view.lang ≠ .python) {idiom : Idiom} (hidiom : idiom.Lists view)
    (depth : Nat) (id : NodeId) : view.Lists level known [id] (nodeTo idiom view depth id) := by
  induction depth generalizing id with
  | zero => exact .throw _
  | succ depth ih =>
    have hwrites : ∀ loops around id,
        Writes view loops around 0 (nodeTo idiom view depth id) (view.jumps around id) :=
      fun loops around id => writes_nodeTo hlang (hidiom.nests loops) depth around id
    have hgroups : view.Groups level known id (nodeTo idiom view (depth + 1) id) := by
      refine Runs.follow fun node found => ?_
      cases node with
      | expr e =>
        refine View.groups_plain found rfl ?_
        exact .after (.render _) fun text => AddsLines.line _
      | stmt s => exact groups_stmt hwrites ih hlang hidiom found
      | decl d => exact (hidiom.decl level known id).runs
      | defn d => exact hidiom.defn hwrites ih found
      | type ty =>
        refine View.groups_plain found rfl ?_
        exact .after (.render _) fun text => AddsLines.line _
    -- whatever it prints, a node comes back to the frame that it starts in
    intro before value after hlevel hscope hrun
    obtain ⟨rows, hlisted, hpage⟩ := hgroups before value after hlevel hscope hrun
    have hpair : view.tie.pair (depth + 1) (depth + 1) none id id := ⟨rfl, rfl⟩
    have hbalanced := (Tie.braced_nodeTo hidiom.balanced hpair).balanced hrun
    exact ⟨rows, ⟨hbalanced.around.trans hscope, hlisted⟩, hpage⟩

end Statements

/-! ## Programs -/

section Programs

variable {below : NodeId → Emit Unit} (hlists : ∀ id, view.Lists level known [id] (below id))
include hlists

theorem lists_items (items : List NodeId) : view.Lists level known items (items.forM below) :=
  .forM fun item hitem => (hlists item).mono (by simpa using hitem)

theorem lists_spaced {ids : List NodeId} (previous : Option NodeId) {items : List NodeId}
    (hitems : items ⊆ ids) :
    view.Lists level known ids (Emit.spaced view.arena below previous items) := by
  induction items generalizing previous with
  | nil => exact .nil
  | cons item rest ih =>
    rw [List.cons_subset] at hitems
    have hitem : view.Lists level known ids (do
        below item
        Emit.spaced view.arena below (some item) rest) :=
      ((hlists item).mono (by simpa using hitems.1)).andThen (ih (some item) hitems.2)
    cases previous with
    | none => exact hitem
    | some previous =>
      refine Runs.follow fun apart _ => ?_
      dsimp only
      split
      · exact (View.Lists.blankLine hitems.1).andThen hitem
      · exact hitem

theorem lists_preamble (items : List NodeId) :
    view.Lists level known items (Emit.preamble below items) := by
  refine (lists_items hlists items).andThen ?_
  cases items with
  | nil => exact .nil
  | cons item rest => exact .blankLine List.mem_cons_self

theorem lists_definitions (items : List NodeId) :
    view.Lists level known items (Emit.definitions below items) :=
  .forM fun item hitem => ((hlists item).mono (by simpa using hitem)).andThen (.blankLine hitem)

/-- A program is printed as it is, or its statements are put into a function. -/
theorem groups_program {id : NodeId} {items : List NodeId} {mainClass entryPoint : Option NodeId}
    {isOwn : Bool} {wrapped : Emit Unit}
    (found : view.arena.node id = .ok (.defn (.program items mainClass entryPoint)))
    (hown : view.isWrapped mainClass entryPoint = !isOwn)
    (h : view.spliced id = items.filter view.standsOutside → view.Groups level known id wrapped) :
    view.Groups level known id
      (if isOwn then Emit.spaced view.arena below none items else wrapped) := by
  cases isOwn with
  | true =>
    have hsub : items ⊆ view.spliced id := by
      simp [View.spliced, found, hown]
    exact Runs.mono (lists_spaced hlists none (List.Subset.refl items))
      fun _ rows _ ⟨_, hrows⟩ => hrows.splice hsub
  | false => exact h (by simp [View.spliced, found, hown])

end Programs

theorem adds_variablesLine {style : Style} {id : NodeId} (hvars : view.arena.IsVars id) :
    Adds level (variablesLine style view id) fun _ => view.IsListed level known [id] := by
  refine .rendered fun text htext => (Adds.line _).mono ?_
  rintro _ rows rfl
  exact .single (.vars hvars htext) (List.mem_singleton_self id) fun _ => .inl hvars

end Braced

/-- The preamble and the definitions of a program stand before its entry point. -/
structure Sections.StandOutside (sections : Sections) (view : View) (items : List NodeId) :
    Prop where
  preamble : sections.preamble ⊆ items.filter view.standsOutside
  definitions : sections.definitions ⊆ items.filter view.standsOutside

theorem Sections.grants_standOutside (view : View) (items : List NodeId) :
    Grants (Sections.ofItems view.arena items) fun sections =>
      sections.StandOutside view items := by
  induction items with
  | nil => exact .ok ⟨by simp, by simp⟩
  | cons item rest ih =>
    refine Grants.bind (fun node found => found) fun node found => ih.bind fun sections hrest => ?_
    have hsub : rest.filter view.standsOutside ⊆ (item :: rest).filter view.standsOutside :=
      List.filter_subset _ (List.subset_cons_self item rest)
    have hpreamble := List.Subset.trans hrest.preamble hsub
    have hdefinitions := List.Subset.trans hrest.definitions hsub
    split
    · rename_i hitem
      refine .ok ⟨List.cons_subset.2 ⟨?_, hpreamble⟩, hdefinitions⟩
      simp [View.standsOutside, found, hitem]
    · split
      · rename_i hitem
        refine .ok ⟨hpreamble, List.cons_subset.2 ⟨?_, hdefinitions⟩⟩
        simp [View.standsOutside, found, hitem]
      · exact .ok ⟨hpreamble, hdefinitions⟩

namespace Java

open Emit Braced

variable {view : View} {level : Nat} {known : Scope}

theorem addsLines_imports (path : List String) (items : ImportItems) (static : Bool) :
    AddsLines level (imports path items static) := by
  cases items with
  | wholeModule | all => exact .line _
  | members names => exact .each names fun name => .line _

theorem adds_decl (level : Nat) (known : Scope) (id : NodeId) :
    Adds level (decl view id) fun _ => view.IsListed level known [id] := by
  refine .follow fun d found => ?_
  cases d with
  | vars ty declarators modifiers => exact adds_variablesLine ⟨ty, declarators, modifiers, found⟩
  | function name params ret modifiers owner =>
    refine View.adds_plain (Arena.node_of_decl found) rfl ?_
    exact .after (.render _) fun _ => .after (.render _) fun header => AddsLines.line _
  | classHead name parents modifiers =>
    refine View.adds_plain (Arena.node_of_decl found) rfl ?_
    exact .after (.render _) fun header => AddsLines.line _
  | imports path items static =>
    exact View.adds_plain (Arena.node_of_decl found) rfl (addsLines_imports path items static)
  | package path => exact View.adds_plain (Arena.node_of_decl found) rfl (.line _)
  | includes path system => exact .throw _

theorem lists (hlang : view.lang = .java) : idiom.Lists view where
  balanced := Tie.java_idiomatic
  nests loops := nests hlang
  decl := adds_decl
  delete _ _ _ := .throw _
  defn {below level known} hwrites hlists id d found := by
    cases d with
    | function decl body =>
      exact View.groups_braced found rfl (brackets_function hwrites .own decl body)
    | classBody decl members =>
      exact View.groups_braced found rfl (brackets_classBody hwrites .own decl members)
    | program items mainClass entryPoint =>
      refine groups_program hlists found ?_ fun hspliced => Runs.follow fun sections hsections => ?_
      · simp [View.isWrapped, hlang, Bool.and_comm]
      have houtside := Sections.grants_standOutside view items sections hsections
      have hfront := lists_preamble hlists sections.preamble
      refine hfront.thenGroups (hspliced ▸ houtside.preamble) ?_
      exact View.groups_braced found rfl (brackets_mainClass hwrites hlang sections.definitions
        sections.statements)

end Java

namespace Cpp

open Emit Braced

variable {view : View} {level : Nat} {known : Scope}

theorem addsLines_imports (path : List String) (items : ImportItems) :
    AddsLines level (imports path items) := by
  cases items with
  | wholeModule | all => exact .line _
  | members names => exact .each names fun name => .line _

theorem adds_decl (level : Nat) (known : Scope) (id : NodeId) :
    Adds level (decl view id) fun _ => view.IsListed level known [id] := by
  refine .follow fun d found => ?_
  cases d with
  | vars ty declarators modifiers => exact adds_variablesLine ⟨ty, declarators, modifiers, found⟩
  | function name params ret modifiers owner =>
    refine View.adds_plain (Arena.node_of_decl found) rfl ?_
    exact .after (.render _) fun _ => .after (.render _) fun header => AddsLines.line _
  | classHead name parents modifiers =>
    refine View.adds_plain (Arena.node_of_decl found) rfl ?_
    exact .after (.render _) fun header => AddsLines.line _
  | imports path items static =>
    exact View.adds_plain (Arena.node_of_decl found) rfl (addsLines_imports path items)
  | package path => exact .throw _
  | includes path system =>
    refine View.adds_plain (Arena.node_of_decl found) rfl ?_
    cases system <;> exact .line _

theorem lists (hlang : view.lang = .cpp) : idiom.Lists view where
  balanced := Tie.cpp_idiomatic
  nests loops := nests hlang
  decl := adds_decl
  delete _ _ _ := .after (.render _) fun text => AddsLines.line _
  defn {below level known} hwrites hlists id d found := by
    cases d with
    | function decl body =>
      refine View.groups_braced found rfl ?_
      refine .follow fun d _ => .after (.render _) fun header => ?_
      exact Braced.brackets_function hwrites header decl body
    | classBody decl members =>
      exact View.groups_braced found rfl (brackets_classBody hwrites decl members)
    | program items mainClass entryPoint =>
      refine groups_program hlists found ?_ fun hspliced => Runs.follow fun sections hsections => ?_
      · simp [View.isWrapped, hlang, Bool.and_comm]
      have houtside := Sections.grants_standOutside view items sections hsections
      have hfront := lists_preamble hlists sections.preamble
      have hdefinitions := lists_definitions hlists sections.definitions
      refine hfront.thenGroups (hspliced ▸ houtside.preamble) ?_
      refine hdefinitions.thenGroups (hspliced ▸ houtside.definitions) ?_
      exact View.groups_braced found rfl (brackets_entryPoint hwrites _ sections.statements _)

end Cpp

end Interlingua
