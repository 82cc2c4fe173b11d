import Interlingua.Proofs.Jump.Fragments
import Interlingua.Proofs.Lockstep.Braced

/-!
# Jumps in Java and C++

Both languages nest the printed text like the tree, and write a jump as its keyword.
-/

namespace Interlingua

namespace Braced

variable {view : View} {loops : List NodeId} {around : List Construct} {nesting : Nesting}
  {inside : Emit Unit} {found : Set Occurrence}

/-! ## Blocks -/

/-- The lines of a header and its opening brace. -/
def opening (view : View) (header : String) : List String :=
  if view.isOn .bracesOnSameLine then [header ++ " \x7b"] else [header, "\x7b"]

theorem spells_openBlock (view : View) (header : String) :
    Emit.Spells (openBlock view header) (opening view header) := by
  intro printer
  unfold openBlock opening
  split <;> rfl

variable (nesting) {start : String} (rest : String)

/-- What stands under a header and its opening brace. -/
theorem writes_opened (hstart : start ∈ nesting.openings view.lang)
    (h : Writes view loops (nesting.inside around) 1 inside found) :
    Writes view loops around 0 (do openBlock view (start ++ rest); inside) found := by
  refine h.nest (spells_openBlock view (start ++ rest)) ?_
  unfold opening
  split
  · have hall := Nesting.isOpenedBy_append hstart (rest ++ " \x7b")
    simpa [String.append_assoc] using hall
  · simpa using Nesting.isOpenedBy_append hstart rest

/-- The same up to the closing brace. -/
theorem writes_block (hstart : start ∈ nesting.openings view.lang)
    (h : Writes view loops (nesting.inside around) 1 inside found) :
    Writes view loops around 0 (do openBlock view (start ++ rest); inside; closeBlock) found := by
  have hall := (writes_opened nesting rest hstart h).thenLine "\x7d"
  simp only [bind_assoc] at hall
  exact hall

/-! ## Bodies -/

variable {nesting} {below : NodeId → Emit Unit}
  (hbelow : ∀ around id, Writes view loops around 0 (below id) (view.jumps around id))
include hbelow

theorem writes_inside (around : List Construct) (id : NodeId) :
    Writes view loops around 0 (Braced.inside view below id) (view.jumps around id) := by
  refine .follow fun s hs => ?_
  cases s with
  | block items =>
    rw [View.jumps_body, View.bodyItems_block hs]
    exact .items items fun item _ => hbelow around item
  | _ => exact hbelow around id

theorem writes_body {tail : Option String} (id : NodeId)
    (htail : Writes view loops around 0 (tail.forM Emit.line) ∅) :
    Writes view loops around 1 (body view below id tail) (view.jumps around id) := by
  have hall := ((writes_inside hbelow around id).andThen htail).framed.deeper
  simp only [bind_assoc, Set.union_empty] at hall
  rw [body_eq]
  exact hall

theorem writes_plainBody (around : List Construct) (id : NodeId) :
    Writes view loops around 1 (body view below id none) (view.jumps around id) :=
  writes_body hbelow id (.silent (.pure ()))

theorem writes_bodyUnder (hstart : start ∈ nesting.openings view.lang) (rest : String)
    (around : List Construct) (id : NodeId) :
    Writes view loops around 0 (bodyUnder view below (start ++ rest) id)
      (view.jumps (nesting.inside around) id) :=
  writes_block nesting rest hstart (writes_plainBody hbelow _ id)

variable (hlang : view.lang ≠ .python)
include hlang

/-- The next arm of a conditional. -/
theorem writes_reopened (around : List Construct) (id : NodeId) (rest : String) :
    Writes view loops around 0 (do reopenBlock view ("else" ++ rest); body view below id none)
      (view.jumps around id) := by
  have helse : "else" ∈ Nesting.plain.openings view.lang := by simp [hlang]
  have hbrace : "\x7d else" ∈ Nesting.plain.openings view.lang := by simp [hlang]
  have hbody : Writes view loops (Nesting.plain.inside around) 1 (body view below id none)
      (view.jumps around id) := writes_plainBody hbelow around id
  unfold reopenBlock
  split
  · refine hbody.underLine ?_
    have htext : "\x7d " ++ ("else" ++ rest) ++ " \x7b" = "\x7d else" ++ (rest ++ " \x7b") := by
      simp [← String.toList_inj]
    rw [htext]
    exact Nesting.isOpenedBy_append hbrace _
  · have hspells : Emit.Spells (do Emit.line ("else" ++ rest); Emit.line "\x7b")
        ["else" ++ rest, "\x7b"] := fun _ => rfl
    have hall := Writes.lineThen "\x7d" (hbody.nest hspells
      (by simpa using Nesting.isOpenedBy_append helse rest))
    simpa only [bind_assoc] using hall

theorem writes_otherArms (around : List Construct) (branches : List Branch) :
    Writes view loops around 0 (otherArms view below branches)
      (view.jumpsAll around (branches.map Branch.body)) := by
  induction branches with
  | nil => exact (Writes.silent (.pure ())).congr View.jumpsAll_nil.symm
  | cons branch rest ih =>
    refine .after (.render _) fun cond => ?_
    have harm := writes_reopened hbelow hlang around branch.body (" if (" ++ cond ++ ")")
    have hall := (harm.andThen ih).congr (View.jumpsAll_cons _ _).symm
    simp only [bind_assoc] at hall
    have htext : "else if (" ++ cond ++ ")" = "else" ++ (" if (" ++ cond ++ ")") := by
      simp [← String.toList_inj]
    rw [htext]
    exact hall

theorem writes_conditional (around : List Construct) (branches : List Branch)
    (otherwise : Option NodeId) :
    Writes view loops around 0 (conditional view below branches otherwise)
      (view.jumpsAll around (branches.map Branch.body ++ otherwise.toList)) := by
  have hend : Writes view loops around 0 (conditional view below [] otherwise)
      (view.jumpsAll around otherwise.toList) := by
    cases otherwise with
    | none => exact (Writes.line "\x7d").congr View.jumpsAll_nil.symm
    | some id =>
      have hall := (writes_reopened hbelow hlang around id "").thenLine "\x7d"
      simp only [bind_assoc] at hall
      exact hall.congr View.jumpsAll_singleton.symm
  rw [View.jumpsAll_append]
  cases branches with
  | nil =>
    rw [List.map_nil, View.jumpsAll_nil, Set.empty_union]
    exact hend
  | cons first rest =>
    have hif : "if (" ∈ Nesting.plain.openings view.lang := by simp [hlang]
    rw [List.map_cons, View.jumpsAll_cons]
    refine .after (.render _) fun cond => ?_
    have hfirst := writes_opened .plain (cond ++ ")") hif
      (writes_plainBody hbelow around first.body)
    rw [← String.append_assoc] at hfirst
    have hall := (hfirst.andThen (writes_otherArms hbelow hlang around rest)).andThen hend
    simp only [bind_assoc] at hall
    exact hall

/-! ## Switches -/

omit hbelow hlang in
/-- The label of a case starts like one. -/
theorem yields_caseLabel (label : CaseLabel) :
    Yields (fun _ => True) (caseLabel view label) fun text =>
      ∃ rest, text = "case " ++ rest ∨ text = "default:" ++ rest := by
  unfold caseLabel
  cases label.value? with
  | none => exact .pure ⟨"", .inr rfl⟩
  | some value =>
    exact (Yields.any _).bind fun text _ => .pure ⟨text ++ ":", .inl (String.append_assoc ..)⟩

omit hbelow hlang in
theorem grants_caseTail (case : Case) :
    Grants (caseTail view case) fun tail => tail = none ∨ tail = some "break;" := by
  unfold caseTail
  cases case.label with
  | leaves value =>
    refine Grants.bind (fun leaves _ => trivial) fun leaves _ => .ok ?_
    cases leaves with
    | true => exact .inl rfl
    | false => exact .inr rfl
  | falls value | default => exact .ok (.inl rfl)

omit hbelow in
/-- A case ends by leaving the switch, if its body does not. -/
theorem writes_caseTail {case : Case} {tail : Option String} {id : NodeId}
    (htail : caseTail view case = .ok tail) :
    Writes view loops (.switch id :: around) 0 (tail.forM Emit.line) ∅ := by
  rcases grants_caseTail case tail htail with rfl | rfl
  · exact .silent (.pure ())
  · have hleaves : view.lang.destination .leave (.switch id :: around) = some id := by
      simp [Language.destination, Construct.innermost, hlang, Construct.id]
    have hexit : Writes view loops _ 0 _ ∅ :=
      .exit fun found hfound => Option.some.inj (hfound.symm.trans hleaves)
    rw [Language.jumpText_of_ne hlang] at hexit
    exact hexit

theorem writes_switchCase (id : NodeId) (around : List Construct) (case : Case) :
    Writes view loops (.switch id :: around) 0 (switchCase view below case)
      (view.jumpsAll (.switch id :: around) (view.caseItems case.body)) := by
  rw [View.caseItems_eq hlang, ← View.jumps_body]
  refine .rendered (yields_caseLabel case.label) fun label hlabel => ?_
  refine .follow fun braced _ => .follow fun tail htail => ?_
  have hopen : ∀ more, Nesting.plain.isOpenedBy view.lang (label ++ more) = true := by
    intro more
    obtain ⟨rest, rfl | rfl⟩ := hlabel
    · rw [String.append_assoc]
      exact Nesting.isOpenedBy_append (by simp [hlang]) _
    · rw [String.append_assoc]
      exact Nesting.isOpenedBy_append (by simp [hlang]) _
  have hbody : Writes view loops (Nesting.plain.inside (.switch id :: around)) 1
      (body view below case.body tail) (view.jumps (.switch id :: around) case.body) :=
    writes_body hbelow case.body (writes_caseTail hlang htail)
  split
  · have hall := (hbody.underLine (hopen " \x7b")).thenLine "\x7d"
    simp only [bind_assoc] at hall
    exact hall
  · exact hbody.underLine (by simpa using hopen "")

/-- The cases of a switch. -/
theorem writes_cases (id : NodeId) (around : List Construct) (cases : List Case) :
    Writes view loops (.switch id :: around) 0 (cases.forM (switchCase view below))
      (view.jumpsAll (.switch id :: around)
        (cases.flatMap fun case => view.caseItems case.body)) := by
  induction cases with
  | nil => exact (Writes.silent (.pure ())).congr View.jumpsAll_nil.symm
  | cons case rest ih =>
    rw [List.flatMap_cons, View.jumpsAll_append]
    exact (writes_switchCase hbelow hlang id around case).andThen ih

theorem writes_switch (id : NodeId) (around : List Construct) (subject : String)
    (cases : List Case) :
    Writes view loops around 0 (do
      openBlock view ("switch (" ++ subject ++ ")")
      Emit.indent
      cases.forM (switchCase view below)
      Emit.dedent
      closeBlock)
      (view.jumpsAll (.switch id :: around)
        (cases.flatMap fun case => view.caseItems case.body)) := by
  have hopen : "switch (" ∈ (Nesting.switch id).openings view.lang := by simp [hlang]
  have hall : Writes view loops around 0 _ _ := writes_block (.switch id) (subject ++ ")") hopen
    (writes_cases hbelow hlang id around cases).deeper
  simp only [bind_assoc, ← String.append_assoc] at hall
  exact hall

/-! ## Loops -/

omit hbelow hlang in
theorem yields_rangeHeader (var : String) (range : Range) :
    Yields (fun _ => True) (rangeHeader view var range) fun result =>
      ∃ rest, result.1 = "for (" ++ rest := by
  refine (Yields.any _).bind fun _ _ => (Yields.any _).bind fun _ _ => ?_
  refine (Yields.any _).bind fun typeText _ => (Yields.any _).bind fun start _ => ?_
  cases view.lang.operators.binary (rangeTest range) with
  | none => exact .throw _
  | some test =>
    refine (Yields.any _).bind fun stop _ => (Yields.any _).bind fun update _ => .pure ?_
    exact ⟨_, by simp only [String.append_assoc]; rfl⟩

omit hbelow hlang in
theorem yields_forEachHeader (style : Style) (var : String) (ty iterable : NodeId) :
    Yields (fun _ => True) (forEachHeader style view var ty iterable) fun result =>
      ∃ rest, result.1 = "for (" ++ rest := by
  refine (Yields.any _).bind fun _ _ => (Yields.any _).bind fun _ _ => ?_
  extract_lets write
  have hwrite : ∀ item, Yields (fun _ => True) (write item) fun result =>
      ∃ rest, result.1 = "for (" ++ rest :=
    fun item => (Yields.any _).bind fun _ _ => .pure ⟨_, by simp only [String.append_assoc]; rfl⟩
  refine .ite ((Yields.any _).bind fun item _ => hwrite item) ?_
  exact (Yields.any _).bind fun _ _ => (Yields.any _).bind fun item _ => hwrite item

omit hbelow hlang in
/-- What stands in the header of a loop is no jump. -/
theorem yields_inlineTo (style : Style) (depth : Nat) (id : NodeId) :
    Yields (fun _ => True) (inlineTo style view depth id) fun _ =>
      ∀ around, view.jumps around id = ∅ := by
  induction depth generalizing id with
  | zero => exact .throw _
  | succ depth ih =>
    refine (Render.yields_follow fun node found => found).bind fun node found => ?_
    have hleaf : ∀ action : Render String, node.jump? = none → view.parts id node = [] →
        Yields (fun _ => True) action fun _ => ∀ around, view.jumps around id = ∅ :=
      fun action hjump hparts =>
        (Yields.any action).mono fun _ _ _ => View.jumps_of_none found hjump hparts
    cases node with
    | expr e | decl d => exact hleaf _ rfl rfl
    | type ty | defn d => exact .throw _
    | stmt s =>
      cases s with
      | expr value | assign op target value => exact hleaf _ rfl rfl
      | multiAssign items =>
        refine (Yields.mapM_items fun item _ => ih item).bind fun texts hitems => .pure ?_
        intro around
        rw [View.jumps_of_part found rfl rfl]
        exact View.jumpsAll_eq_empty fun item hitem => hitems item hitem around
      | _ => exact .throw _

/-- A loop with its body in braces. -/
theorem writes_loop (id : NodeId) (around : List Construct)
    (hstart : start ∈ (Nesting.loop id).openings .java) (rest : String) (loopBody : NodeId) :
    Writes view loops around 0 (bodyUnder view below (start ++ rest) loopBody)
      (view.jumps (.loop id :: around) loopBody) := by
  have hopen : start ∈ (Nesting.loop id).openings view.lang := by
    simpa [hlang] using hstart
  exact writes_bodyUnder hbelow hopen rest around loopBody

theorem writes_doWhile (id : NodeId) (around : List Construct) (loopBody cond : NodeId) :
    Writes view loops around 0 (do
      openBlock view "do"
      body view below loopBody none
      let condText ← view.expr cond
      Emit.line ("\x7d while (" ++ condText ++ ");"))
      (view.jumps (.loop id :: around) loopBody) := by
  have hopen : "do" ∈ (Nesting.loop id).openings view.lang := by simp [hlang]
  have hblock := writes_opened (.loop id) "" hopen
    (writes_plainBody hbelow (.loop id :: around) loopBody)
  have hend : Writes view loops around 0 (do
      let condText ← view.expr cond
      Emit.line ("\x7d while (" ++ condText ++ ");")) ∅ :=
    .after (.render _) fun condText => .line _
  have hall := (hblock.andThen hend).congr (Set.union_empty _)
  simp only [bind_assoc] at hall
  exact hall

theorem writes_forLoop (style : Style) (id : NodeId) (around : List Construct)
    (init cond update : Option NodeId) (loopBody : NodeId) :
    Writes view loops around 0 (do
      Emit.enter
      let initText ← match init with
        | some init => liftM (inlineTo style view view.arena.depthBound init)
        | none => pure ""
      let condText ← clause view cond
      let updateText ← clause view update
      bodyUnder view below ("for (" ++ initText ++ ";" ++ condText ++ ";" ++ updateText ++ ")")
        loopBody
      Emit.leave)
      (view.jumpsAll around init.toList ∪ view.jumps (.loop id :: around) loopBody) := by
  have hrest : ∀ initText : String, Writes view loops around 0 (do
      let condText ← clause view cond
      let updateText ← clause view update
      bodyUnder view below ("for (" ++ initText ++ ";" ++ condText ++ ";" ++ updateText ++ ")")
        loopBody
      Emit.leave)
      (view.jumps (.loop id :: around) loopBody) := by
    intro initText
    refine .after (.render _) fun condText => .after (.render _) fun updateText => ?_
    refine .before ?_ fun _ => .leave
    simp only [String.append_assoc]
    exact writes_loop hbelow hlang id around (by simp) _ loopBody
  refine .after .enter fun _ => ?_
  cases init with
  | none =>
    rw [Option.toList_none, View.jumpsAll_nil, Set.empty_union]
    exact .after (.pure "") hrest
  | some init =>
    refine .rendered (yields_inlineTo style _ init) fun initText hinit => ?_
    rw [Option.toList_some, View.jumpsAll_singleton, hinit, Set.empty_union]
    exact hrest initText

/-! ## Statements -/

omit hbelow hlang in
theorem writes_comment (text : String) (multiline : Bool) :
    Writes view loops around 0 (comment text multiline) ∅ := by
  have hlines : ∀ (mark : String), Writes view loops around 0 ((Text.lines text.toList).forM
      fun line => Emit.line (String.ofList (Text.trimEnd (mark.toList ++ line)))) ∅ :=
    fun mark => .each _ fun line => .line _
  unfold comment
  dsimp only
  split
  · exact .lineThen _ ((hlines " * ").thenLine _)
  · exact hlines "// "

/-- What a language says for itself nests like the tree. -/
structure Idiom.Nests (idiom : Idiom) (view : View) (loops : List NodeId) : Prop where
  decl : ∀ around id, Writes view loops around 0 (idiom.decl view id) ∅
  defn : ∀ {below : NodeId → Emit Unit},
    (∀ around id, Writes view loops around 0 (below id) (view.jumps around id)) →
      ∀ around id d, view.arena.node id = .ok (.defn d) →
        Writes view loops around 0 (idiom.defn view below d) (view.jumps around id)
  delete : ∀ around target array, Writes view loops around 0 (idiom.delete view target array) ∅

theorem writes_stmt {idiom : Idiom} (hidiom : idiom.Nests view loops) (around : List Construct)
    {id : NodeId} {s : Stmt} (found : view.arena.node id = .ok (.stmt s)) :
    Writes view loops around 0 (stmt idiom view below id s) (view.jumps around id) := by
  have hloop : ∀ {start : String}, start ∈ (Nesting.loop id).openings .java → ∀ rest loopBody,
      Writes view loops around 0 (bodyUnder view below (start ++ rest) loopBody)
        (view.jumps (.loop id :: around) loopBody) :=
    fun hstart rest loopBody => writes_loop hbelow hlang id around hstart rest loopBody
  cases s with
  | block items =>
    have hbody : Writes view loops (Nesting.plain.inside around) 1 (body view below id none)
        (view.jumps around id) := writes_plainBody hbelow around id
    have hbrace : "\x7b" ∈ Nesting.plain.openings view.lang := by simp [hlang]
    have hopen : Nesting.plain.isOpenedBy view.lang "\x7b" = true := by
      simpa using Nesting.isOpenedBy_append hbrace ""
    have hall := (hbody.underLine hopen).thenLine "\x7d"
    simp only [bind_assoc] at hall
    exact hall
  | expr value =>
    rw [View.jumps_of_none found rfl rfl]
    exact .after (.render _) fun text => .line _
  | assign op target value =>
    rw [View.jumps_of_none found rfl rfl]
    exact .after (.render _) fun text => .line _
  | multiAssign items =>
    rw [View.jumps_of_part found rfl rfl]
    exact .items items fun item _ => hbelow around item
  | conditional branches otherwise =>
    rw [View.jumps_of_part found rfl rfl]
    exact writes_conditional hbelow hlang around branches otherwise
  | switch subject cases =>
    rw [View.jumps_of_part found rfl rfl]
    exact .after (.render _) fun text => writes_switch hbelow hlang id around text cases
  | whileLoop cond loopBody =>
    rw [View.jumps_of_part found rfl rfl, View.jumpsAll_singleton]
    refine .after (.render _) fun text => ?_
    rw [String.append_assoc]
    exact hloop (by simp) _ loopBody
  | doWhile loopBody cond =>
    rw [View.jumps_of_part found rfl rfl, View.jumpsAll_singleton]
    exact writes_doWhile hbelow hlang id around loopBody cond
  | forLoop init cond update loopBody =>
    rw [View.jumps_forLoop found]
    exact writes_forLoop hbelow hlang _ id around init cond update loopBody
  | rangeFor var range loopBody =>
    rw [View.jumps_of_part found rfl rfl, View.jumpsAll_singleton]
    refine .after .enter fun _ => .rendered (yields_rangeHeader var range) fun result hresult => ?_
    obtain ⟨rest, hheader⟩ := hresult
    refine .after (.setVariable _ _) fun _ => .before ?_ fun _ => .leave
    rw [hheader]
    exact hloop (by simp) rest loopBody
  | forEach var ty iterable loopBody =>
    rw [View.jumps_of_part found rfl rfl, View.jumpsAll_singleton]
    refine .after .enter fun _ =>
      .rendered (yields_forEachHeader _ var ty iterable) fun result hresult => ?_
    obtain ⟨rest, hheader⟩ := hresult
    refine .after (.setVariable _ _) fun _ => .before ?_ fun _ => .leave
    rw [hheader]
    exact hloop (by simp) rest loopBody
  | infinite loopBody =>
    rw [View.jumps_of_part found rfl rfl, View.jumpsAll_singleton]
    have htext : "while (true)" = "while (" ++ "true)" := by decide
    change Writes view loops around 0 (bodyUnder view below "while (true)" loopBody) _
    rw [htext]
    exact hloop (by simp) "true)" loopBody
  | breakTo target =>
    exact .keyword found rfl (.inl hlang) (Language.jumpText_of_ne hlang .leave)
  | continueTo target =>
    exact .keyword found rfl (.inl hlang) (Language.jumpText_of_ne hlang .next)
  | ret value =>
    rw [View.jumps_of_none found rfl rfl]
    cases value with
    | none => exact .line _
    | some value => exact .after (.render _) fun text => .line _
  | delete target array =>
    rw [View.jumps_of_none found rfl rfl]
    exact hidiom.delete around target array
  | comment text multiline =>
    rw [View.jumps_of_none found rfl rfl]
    exact writes_comment text multiline

omit hbelow in
/-- **The text of a node is nested like the node, and each jump in it concerns what it is meant
to.** -/
theorem writes_nodeTo {idiom : Idiom} (hidiom : idiom.Nests view loops) (depth : Nat)
    (around : List Construct) (id : NodeId) :
    Writes view loops around 0 (nodeTo idiom view depth id) (view.jumps around id) := by
  induction depth generalizing around id with
  | zero => exact .throw _
  | succ depth ih =>
    refine .follow fun node found => ?_
    cases node with
    | expr e =>
      rw [View.jumps_of_none found rfl rfl]
      exact .after (.render _) fun text => .line _
    | stmt s => exact writes_stmt ih hlang hidiom around found
    | decl d =>
      rw [View.jumps_of_none found rfl rfl]
      exact hidiom.decl around id
    | defn d => exact hidiom.defn ih around id d found
    | type ty =>
      rw [View.jumps_of_none found rfl rfl]
      exact .after (.render _) fun text => .line _

/-! ## Definitions -/

omit hlang in
/-- Items with an empty line between any two. -/
theorem writes_separated (around : List Construct) (items : List NodeId) :
    Writes view loops around 0 (separated below items) (view.jumpsAll around items) := by
  cases items with
  | nil => exact (Writes.silent (.pure ())).congr View.jumpsAll_nil.symm
  | cons first rest =>
    rw [View.jumpsAll_cons]
    refine (hbelow around first).andThen (.items rest fun item _ => ?_)
    exact (Writes.blankLine.andThen (hbelow around item)).congr (Set.empty_union _)

theorem writes_function (around : List Construct) (header : String) (decl functionBody : NodeId) :
    Writes view loops around 0 (function view below header decl functionBody)
      (view.jumps [] functionBody) := by
  have hstart : "" ∈ Nesting.definition.openings view.lang := by simp [hlang]
  have hbody := writes_bodyUnder hbelow hstart header around functionBody
  rw [String.empty_append] at hbody
  refine .after (.render _) fun _ => .after .enter fun _ => .after (.render _) fun _ => ?_
  exact hbody.before fun _ => .leave

omit hlang in
/-- What an entry point holds. -/
theorem writes_entryBody (statements : List NodeId) (tail : Option String) :
    Writes view loops [] 1 (do
      Emit.indent
      Emit.enter
      statements.forM below
      tail.forM Emit.line
      Emit.leave
      Emit.dedent) (view.jumpsAll [] statements) := by
  have htail : Writes view loops [] 0 (tail.forM Emit.line) ∅ := by
    cases tail with
    | none => exact .silent (.pure ())
    | some text => exact .line text
  have hitems : Writes view loops [] 0 (statements.forM below) (view.jumpsAll [] statements) :=
    .items statements fun item _ => hbelow [] item
  have hall := ((hitems.andThen htail).congr (Set.union_empty _)).framed.deeper
  simp only [bind_assoc] at hall
  exact hall

theorem writes_entryPoint (around : List Construct) (header : String) (statements : List NodeId)
    (tail : Option String) :
    Writes view loops around 0 (entryPoint view below header statements tail)
      (view.jumpsAll [] statements) := by
  have hstart : "" ∈ Nesting.definition.openings view.lang := by simp [hlang]
  have hinside : Writes view loops (Nesting.definition.inside around) 1 _ _ :=
    writes_entryBody hbelow statements tail
  have hall := writes_block .definition header hstart hinside
  simp only [bind_assoc, String.empty_append] at hall
  exact hall

omit hlang in
/-- A program is printed as it is, or its statements are put into a function. -/
theorem writes_program (around : List Construct) (items : List NodeId)
    {mainClass entryPoint : Option NodeId} {isOwn : Bool} {wrapped : Emit Unit}
    (hown : view.isWrapped mainClass entryPoint = !isOwn)
    (h : Writes view loops around 0 wrapped (view.jumpsAll [] items)) :
    Writes view loops around 0
      (if isOwn then Emit.spaced view.arena below none items else wrapped)
      (view.jumpsAll ((if view.isWrapped mainClass entryPoint then Nesting.definition
        else .plain).inside around) items) := by
  cases isOwn with
  | true =>
    rw [hown]
    exact .spaced (hbelow around) none items
  | false =>
    rw [hown]
    exact h

omit hbelow hlang in
theorem writes_variablesLine (style : Style) (id : NodeId) :
    Writes view loops around 0 (variablesLine style view id) ∅ :=
  .after (.render _) fun _ => .line _

end Braced

/-! ## Java -/

namespace Java

open Braced

variable {view : View} {loops : List NodeId} {around : List Construct}

theorem writes_imports (path : List String) (items : ImportItems) (static : Bool) :
    Writes view loops around 0 (imports path items static) ∅ := by
  cases items with
  | wholeModule | all => exact .line _
  | members names => exact .each names fun name => .line _

theorem writes_decl (id : NodeId) : Writes view loops around 0 (decl view id) ∅ := by
  refine .follow fun d _ => ?_
  cases d with
  | vars ty declarators modifiers => exact writes_variablesLine style id
  | function name params ret modifiers owner =>
    exact .after (.render _) fun _ => .after (.render _) fun header => .line _
  | classHead name parents modifiers => exact .after (.render _) fun header => .line _
  | imports path items static => exact writes_imports path items static
  | package path => exact .line _
  | includes path system => exact .throw _

variable {below : NodeId → Emit Unit}
  (hbelow : ∀ around id, Writes view loops around 0 (below id) (view.jumps around id))
  (hlang : view.lang = .java)
include hbelow hlang

theorem writes_function (around : List Construct) (place : Enclosing) (decl body : NodeId) :
    Writes view loops around 0 (function view below place decl body) (view.jumps [] body) := by
  have hbraced : view.lang ≠ .python := by rw [hlang]; decide
  refine .follow fun d _ => .after (.render _) fun header => ?_
  exact Braced.writes_function hbelow hbraced around header decl body

theorem writes_classBody (around : List Construct) (place : Enclosing) (decl : NodeId)
    (members : List NodeId) :
    Writes view loops around 0 (classBody view below place decl members)
      (view.jumpsAll [] members) := by
  have hstart : "" ∈ Nesting.definition.openings view.lang := by simp [hlang]
  refine .follow fun d _ => .after (.render _) fun header => ?_
  have hinside : Writes view loops (Nesting.definition.inside around) 1 _ _ :=
    (writes_separated hbelow [] members).framed.deeper
  have hall := writes_block .definition header hstart hinside
  simp only [bind_assoc, String.empty_append] at hall
  exact hall

theorem writes_staticMember (around : List Construct) (id : NodeId) :
    Writes view loops around 0 (staticMember view below id) (view.jumps around id) := by
  refine .follow fun node found => ?_
  cases node with
  | defn d =>
    cases d with
    | function decl body =>
      rw [View.jumps_of_part found rfl rfl, View.jumpsAll_singleton]
      exact writes_function hbelow hlang around .mainClass decl body
    | classBody decl members =>
      rw [View.jumps_of_part found rfl rfl]
      exact writes_classBody hbelow hlang around .mainClass decl members
    | program items mainClass entryPoint => exact hbelow around id
  | _ => exact hbelow around id

/-- What the class holds that a program is put into. -/
theorem writes_mainBody (definitions statements : List NodeId) :
    Writes view loops [] 1 (do
      Emit.indent
      Emit.definitions (staticMember view below) definitions
      entryPoint view below "public static void main(String[] args)" statements none
      Emit.dedent) (view.jumpsAll [] definitions ∪ view.jumpsAll [] statements) := by
  have hbraced : view.lang ≠ .python := by rw [hlang]; decide
  have hmembers : Writes view loops [] 0 (Emit.definitions (staticMember view below) definitions)
      (view.jumpsAll [] definitions) :=
    .definitions definitions fun item _ => writes_staticMember hbelow hlang [] item
  have hentry := writes_entryPoint hbelow hbraced []
    "public static void main(String[] args)" statements none
  have hall := (hmembers.andThen hentry).deeper
  simp only [bind_assoc] at hall
  exact hall

/-- A program that is put into a class holds its jumps there. -/
theorem writes_wrapped (around : List Construct) (items : List NodeId) :
    Writes view loops around 0 (wrapped view below items) (view.jumpsAll [] items) := by
  have hstart : "" ∈ Nesting.definition.openings view.lang := by simp [hlang]
  refine .follow fun sections hsections => ?_
  have hparts := Sections.grants_ofItems view items sections hsections
  have hfront := (Writes.preamble (hbelow around) sections.preamble).congr (hparts.preamble around)
  have hinside : Writes view loops (Nesting.definition.inside around) 1 _ _ :=
    writes_mainBody hbelow hlang sections.definitions sections.statements
  have hclass := writes_block .definition "public class Main" hstart hinside
  have hall := (hfront.andThen hclass).congr (Set.empty_union _)
  rw [hparts.items]
  simp only [bind_assoc, String.empty_append] at hall
  exact hall

omit hbelow in
theorem nests : idiom.Nests view loops where
  decl around id := writes_decl id
  delete _ _ _ := .throw _
  defn {below} hbelow around id d found := by
    cases d with
    | function decl body =>
      rw [View.jumps_of_part found rfl rfl, View.jumpsAll_singleton]
      exact writes_function hbelow hlang around .own decl body
    | classBody decl members =>
      rw [View.jumps_of_part found rfl rfl]
      exact writes_classBody hbelow hlang around .own decl members
    | program items mainClass entryPoint =>
      rw [View.jumps_of_part found rfl rfl]
      refine writes_program hbelow around items ?_ (writes_wrapped hbelow hlang around items)
      simp [View.isWrapped, hlang, Bool.and_comm]

end Java

/-! ## C++ -/

namespace Cpp

open Braced

variable {view : View} {loops : List NodeId} {around : List Construct}

theorem writes_imports (path : List String) (items : ImportItems) :
    Writes view loops around 0 (imports path items) ∅ := by
  cases items with
  | wholeModule | all => exact .line _
  | members names => exact .each names fun name => .line _

theorem writes_decl (id : NodeId) : Writes view loops around 0 (decl view id) ∅ := by
  refine .follow fun d _ => ?_
  cases d with
  | vars ty declarators modifiers => exact writes_variablesLine style id
  | function name params ret modifiers owner =>
    exact .after (.render _) fun _ => .after (.render _) fun header => .line _
  | classHead name parents modifiers => exact .after (.render _) fun header => .line _
  | imports path items static => exact writes_imports path items
  | package path => exact .throw _
  | includes path system => cases system <;> exact .line _

variable {below : NodeId → Emit Unit}
  (hbelow : ∀ around id, Writes view loops around 0 (below id) (view.jumps around id))
  (hlang : view.lang = .cpp)
include hbelow hlang

theorem writes_classBody (around : List Construct) (decl : NodeId) (members : List NodeId) :
    Writes view loops around 0 (classBody view below decl members)
      (view.jumpsAll [] members) := by
  refine .follow fun d _ => .after (.render _) fun header => ?_
  have hinside : Writes view loops (Nesting.definition.inside around) 1 _ _ :=
    (writes_separated hbelow [] members).framed.deeper
  have hspells : Emit.Spells (do openBlock view header; Emit.line "public:")
      (opening view header ++ ["public:"]) := by
    intro printer
    rw [bind_of_ok (spells_openBlock view header printer), List.foldl_append]
    rfl
  have hall := (hinside.nest hspells ?_).thenLine "\x7d;"
  · simp only [bind_assoc] at hall
    exact hall
  · simp [opening, Nesting.isOpenedBy, hlang]

theorem writes_wrapped (around : List Construct) (items : List NodeId) :
    Writes view loops around 0 (wrapped view below items) (view.jumpsAll [] items) := by
  have hbraced : view.lang ≠ .python := by rw [hlang]; decide
  refine .follow fun sections hsections => ?_
  have hparts := Sections.grants_ofItems view items sections hsections
  have hfront := (Writes.preamble (hbelow around) sections.preamble).congr (hparts.preamble around)
  have hmembers : Writes view loops around 0 (Emit.definitions below sections.definitions) _ :=
    .definitions sections.definitions fun item _ => hbelow around item
  have hentry := writes_entryPoint hbelow hbraced around "int main()" sections.statements
    (some "return 0;")
  have hall := (hfront.andThen (hmembers.andThen hentry)).congr (Set.empty_union _)
  rw [hparts.items, ← hparts.definitions around]
  exact hall

omit hbelow in
theorem nests : idiom.Nests view loops where
  decl around id := writes_decl id
  delete around target array := .after (.render _) fun text => .line _
  defn {below} hbelow around id d found := by
    have hbraced : view.lang ≠ .python := by rw [hlang]; decide
    cases d with
    | function decl body =>
      rw [View.jumps_of_part found rfl rfl, View.jumpsAll_singleton]
      refine .follow fun d _ => .after (.render _) fun header => ?_
      exact Braced.writes_function hbelow hbraced around header decl body
    | classBody decl members =>
      rw [View.jumps_of_part found rfl rfl]
      exact writes_classBody hbelow hlang around decl members
    | program items mainClass entryPoint =>
      rw [View.jumps_of_part found rfl rfl]
      refine writes_program hbelow around items ?_ (writes_wrapped hbelow hlang around items)
      simp [View.isWrapped, hlang, Bool.and_comm]

end Cpp

end Interlingua
