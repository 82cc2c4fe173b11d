import Interlingua.Proofs.Jump.Fragments
import Interlingua.Proofs.Lockstep.Python

/-!
# Jumps in Python

The printed text is nested like the tree.  The loops that the printer keeps are those around the
statement in the tree, so a `continue` that gets through names the innermost of them, and what it
does before it leaves the loop that it belongs to.
-/

namespace Interlingua.Python

variable {view : View} {loops : List NodeId} {around : List Construct} {nesting : Nesting}
  {inside : Emit Unit} {found : Set Occurrence}

/-- A header, and what is below it. -/
theorem writes_suite {start : String} (hstart : start ∈ nesting.openings view.lang) (rest : String)
    (h : Writes view loops (nesting.inside around) 0 inside found) :
    Writes view loops around 0 (suite (start ++ rest) inside) found := by
  have hopen := Nesting.isOpenedBy_append hstart (rest ++ ":")
  rw [← String.append_assoc] at hopen
  have hall := h.framed.deeper.underLine hopen
  simp only [bind_assoc] at hall
  exact hall

/-! ## The loops around a statement -/

/-- The loops that are known agree with the constructs in the tree. -/
def Agrees (loops : List NodeId) (around : List Construct) : Prop :=
  Construct.loopIds around <+: loops

theorem Agrees.loop (h : Agrees loops around) (id : NodeId) :
    Agrees (id :: loops) (.loop id :: around) :=
  List.cons_prefix_cons.2 ⟨rfl, h⟩

theorem Agrees.switch (h : Agrees loops around) (id : NodeId) :
    Agrees loops (.switch id :: around) := h

/-- The innermost loop is known. -/
theorem Agrees.head?_eq_some {loop : NodeId} (h : Agrees loops around)
    (hloop : Construct.innermost false around = some loop) : loops.head? = some loop := by
  obtain ⟨rest, happend⟩ := h
  rw [← happend, List.head?_append, Construct.head?_loopIds, hloop]
  rfl

theorem Agrees.definition : Agrees loops [] := List.nil_prefix

/-! ## What a loop does at the end of a round -/

theorem writes_exprLine (id : NodeId) : Writes view loops around 0 (exprLine view id) ∅ :=
  .after (.render _) fun _ => .line _

section Rounds

variable (hlang : view.lang = .python)
include hlang

theorem writes_leaveUnless {construct : NodeId}
    (h : ∀ found ∈ view.lang.destination .leave around, found = construct) (cond : NodeId) :
    Writes view loops around 0 (leaveUnless view cond) ∅ := by
  have hif : "if " ∈ Nesting.plain.openings view.lang := by simp [hlang]
  have hexit : Writes view loops (Nesting.plain.inside around) 0 _ ∅ := .exit h
  rw [hlang] at hexit
  refine .after (.render _) fun negated => ?_
  have hopen := Nesting.isOpenedBy_append hif (negated ++ ":")
  rw [← String.append_assoc] at hopen
  exact hexit.deeper.underLine hopen

/-- What a loop does at the end of a round leaves that loop, if anything. -/
theorem writes_roundEnd {construct : NodeId}
    (h : ∀ found ∈ view.lang.destination .leave around, found = construct) (ending : RoundEnd) :
    Writes view loops around 0 (roundEnd view ending) ∅ := by
  cases ending with
  | update id => exact writes_exprLine id
  | check cond => exact writes_leaveUnless hlang h cond

/-- **A `continue` that gets through concerns the loop that its node designates**, if it is in a
loop at all. -/
theorem writes_continueTo (hagrees : Agrees loops around) {id : NodeId} {target : Option NodeId}
    (found : view.arena.node id = .ok (.stmt (.continueTo target))) :
    Writes view loops around 0 (continueTo view target) (view.jumps around id) := by
  have hself : view.jump? id = some ⟨.next, target⟩ := View.jump?_eq found
  rw [View.jumps_of_jump found rfl]
  refine .lookUp fun printer hloops => ?_
  -- the innermost loop around the statement is the one that the printer knows
  have hknown : ∀ loop ∈ Construct.innermost false around,
      ∃ known ∈ printer.loops.head?, known.id = loop := by
    intro loop hloop
    have hhead : (printer.loops.map Loop.id).head? = some loop :=
      hloops ▸ hagrees.head?_eq_some hloop
    rw [List.head?_map] at hhead
    exact Option.map_eq_some_iff.1 hhead
  have hline : (∀ known ∈ printer.loops.head?, ∀ named ∈ target, named = known.id) →
      Writes view loops around 0 (Emit.line "continue") {⟨.next, id, around⟩} := by
    intro hnamed
    have hjump : Writes view loops around 0 _ _ := .jump hself fun hexpressed => by
      have hinside : Language.python.expresses ⟨.next, target⟩ around = true := hlang ▸ hexpressed
      obtain ⟨loop, hloop⟩ := Option.isSome_iff_exists.1 hinside
      obtain ⟨known, hhead, rfl⟩ := hknown loop hloop
      have hnext : view.lang.destination .next around = some known.id := hloop
      rw [hnext]
      cases target with
      | none => exact hloop.symm
      | some named => exact congrArg some (hnamed known hhead named rfl).symm
    rw [hlang] at hjump
    exact hjump
  cases hhead : printer.loops.head? with
  | none => exact hline (by simp [hhead])
  | some innermost =>
    dsimp only
    split
    · exact .throw _
    · rename_i htarget
      have hleave : ∀ found ∈ view.lang.destination .leave around, found = innermost.id := by
        intro found hfound
        rw [hlang] at hfound
        obtain ⟨known, hknown, rfl⟩ := hknown found hfound
        rw [Option.some.inj (hhead.symm.trans hknown)]
      have hending : Writes view loops around 0 (innermost.tail.forM (roundEnd view)) ∅ := by
        cases innermost.tail with
        | none => exact .silent (.pure ())
        | some ending => exact writes_roundEnd hlang hleave ending
      refine (hending.andThen (hline fun known hknown named hnamed => ?_)).congr (Set.empty_union _)
      obtain rfl := Option.some.inj (hhead.symm.trans hknown)
      simpa [Option.mem_def.1 hnamed] using htarget

end Rounds

/-! ## Bodies -/

section Bodies

variable {below : NodeId → Emit Unit}
  (hbelow : ∀ item, Writes view loops around 0 (below item) (view.jumps around item))
include hbelow

theorem writes_orPass (items : List NodeId) :
    Writes view loops around 0 (orPass below items) (view.jumpsAll around items) := by
  cases items with
  | nil => exact (Writes.line "pass").congr View.jumpsAll_nil.symm
  | cons item rest => exact .items (item :: rest) fun item _ => hbelow item

theorem writes_statements (body : NodeId) :
    Writes view loops around 0 (statements view below body) (view.jumps around body) := by
  refine .follow fun s hs => ?_
  cases s with
  | block items =>
    rw [View.jumps_body, View.bodyItems_block hs]
    exact writes_orPass hbelow items
  | _ => exact hbelow body

omit hbelow in
theorem grants_isPlainBreak (id : NodeId) :
    Grants (isPlainBreak view.arena id) fun isBreak =>
      isBreak = decide (view.jump? id = some ⟨.leave, none⟩) := by
  refine Grants.bind (fun node found => found) fun node found => ?_
  rw [View.jump?_eq found]
  cases node with
  | stmt s =>
    cases s with
    | breakTo target => cases target <;> exact .ok (by simp [Node.jump?])
    | _ => exact .ok (by simp [Node.jump?])
  | _ => exact .ok (by simp [Node.jump?])

omit hbelow in
/-- The statements of a case that are printed. -/
theorem grants_withoutBreak (hlang : view.lang = .python) {body : NodeId} {items : List NodeId}
    (hbody : view.bodyItems body = items) :
    Grants (withoutBreak view.arena items) fun kept => kept = view.caseItems body := by
  unfold withoutBreak View.caseItems
  rw [hbody]
  cases hlast : items.getLast? with
  | none => exact .ok (by simp [hlast])
  | some last =>
    refine (grants_isPlainBreak last).bind fun isBreak hbreak => .ok ?_
    simp [hbreak, hlang, hlast]

omit hbelow in
/-- A case whose body is a single statement. -/
theorem caseItems_single (hlang : view.lang = .python) {body : NodeId} {s : Stmt}
    (hs : view.arena.stmt body = .ok s) (hblock : ∀ items, s ≠ .block items) :
    view.caseItems body = if s = .breakTo none then [] else [body] := by
  have hitems : view.bodyItems body = [body] := by
    unfold View.bodyItems
    rw [hs]
    cases s with
    | block items => exact absurd rfl (hblock items)
    | _ => rfl
  have hjump : view.jump? body = some ⟨.leave, none⟩ ↔ s = .breakTo none := by
    rw [View.jump?_eq (Arena.node_of_stmt hs)]
    cases s <;> simp [Node.jump?]
  simp [View.caseItems, hitems, hlang, hjump]

theorem writes_caseStatements (hlang : view.lang = .python) (body : NodeId) :
    Writes view loops around 0 (caseStatements view below body)
      (view.jumpsAll around (view.caseItems body)) := by
  refine .follow fun s hs => ?_
  cases s with
  | block items =>
    refine .follow fun kept hkept => ?_
    rw [← grants_withoutBreak hlang (View.bodyItems_block hs) kept hkept]
    exact writes_orPass hbelow kept
  | breakTo target =>
    rw [caseItems_single hlang hs nofun]
    cases target with
    | none => exact (Writes.line "pass").congr View.jumpsAll_nil.symm
    | some target => simpa using hbelow body
  | _ =>
    rw [caseItems_single hlang hs nofun]
    simpa using hbelow body

/-! ## Conditionals and switches -/

variable (hlang : view.lang = .python)
include hlang

theorem writes_arms {keyword : String}
    (hkeyword : keyword ++ " " ∈ Nesting.plain.openings view.lang) (branches : List Branch) :
    Writes view loops around 0 (arms view below keyword branches)
      (view.jumpsAll around (branches.map Branch.body)) := by
  induction branches generalizing keyword with
  | nil => exact (Writes.silent (.pure ())).congr View.jumpsAll_nil.symm
  | cons branch rest ih =>
    rw [List.map_cons, View.jumpsAll_cons]
    refine .after (.render _) fun cond => ?_
    have hsuite : Writes view loops around 0 _ _ :=
      writes_suite hkeyword cond (writes_statements hbelow branch.body)
    exact hsuite.andThen (ih (by simp [hlang]))

theorem writes_conditional (branches : List Branch) (otherwise : Option NodeId) :
    Writes view loops around 0 (conditional view below branches otherwise)
      (view.jumpsAll around (branches.map Branch.body ++ otherwise.toList)) := by
  have hif : "if" ++ " " ∈ Nesting.plain.openings view.lang := by simp [hlang]
  have helse : "else" ∈ Nesting.plain.openings view.lang := by simp [hlang]
  rw [View.jumpsAll_append]
  refine (writes_arms hbelow hlang hif branches).andThen ?_
  cases otherwise with
  | none => exact (Writes.silent (.pure ())).congr View.jumpsAll_nil.symm
  | some body =>
    have hsuite : Writes view loops around 0 _ _ :=
      writes_suite helse "" (writes_statements hbelow body)
    rw [Option.toList_some, View.jumpsAll_singleton]
    exact hsuite

omit hbelow hlang in
theorem grants_isEmptyBlock (body : NodeId) :
    Grants (view.arena.isEmptyBlock body) fun isEmpty =>
      isEmpty = true → view.bodyItems body = [] := by
  refine Grants.bind (fun s hs => hs) fun s hs => ?_
  cases s with
  | block items =>
    cases items with
    | nil => exact .ok fun _ => View.bodyItems_block hs
    | cons item rest => exact .ok nofun
  | _ => exact .ok nofun

theorem writes_cases (pending : List String) (items : List Case) :
    Writes view loops around 0 (cases view below pending items)
      (view.jumpsAll around (items.flatMap fun case => view.caseItems case.body)) := by
  have hcase : "case " ∈ Nesting.plain.openings view.lang := by simp [hlang]
  induction items generalizing pending with
  | nil =>
    rw [List.flatMap_nil, View.jumpsAll_nil]
    unfold cases
    split
    · have hpass : Writes view loops (Nesting.plain.inside around) 0 _ ∅ := .line "pass"
      have hopen := Nesting.isOpenedBy_append hcase (" | ".intercalate pending ++ ":")
      rw [← String.append_assoc] at hopen
      exact hpass.deeper.underLine hopen
    · exact .silent (.pure ())
  | cons case rest ih =>
    rw [List.flatMap_cons, View.jumpsAll_append]
    refine .after (.render _) fun pattern => ?_
    have hsuite : Writes view loops around 0 (do
        suite ("case " ++ patternLabel (pending ++ [pattern])) (caseStatements view below case.body)
        cases view below [] rest) _ :=
      (writes_suite hcase _ (writes_caseStatements hbelow hlang case.body)).andThen (ih [])
    cases hlabel : case.label with
    | falls value =>
      refine .follow fun isEmpty hempty => ?_
      cases isEmpty with
      | false => exact .throw _
      | true =>
        have hitems : view.caseItems case.body = [] := by
          simp [View.caseItems, grants_isEmptyBlock case.body true hempty rfl]
        rw [hitems, View.jumpsAll_nil, Set.empty_union]
        exact ih _
    | leaves value | default => exact hsuite

end Bodies

/-! ## Statements -/

section Statements

variable {below : NodeId → Emit Unit} (hlang : view.lang = .python)
  (hbelow : ∀ loops around item, Agrees loops around →
    Writes view loops around 0 (below item) (view.jumps around item))
include hlang hbelow

theorem writes_switch (hagrees : Agrees loops around) (id subject : NodeId) (items : List Case) :
    Writes view loops around 0 (switch view below subject items)
      (view.jumpsAll (.switch id :: around)
        (items.flatMap fun case => view.caseItems case.body)) := by
  have hmatch : "match " ∈ (Nesting.switch id).openings view.lang := by simp [hlang]
  refine .after (.render _) fun text => ?_
  have hcases : Writes view loops ((Nesting.switch id).inside around) 0 _ _ :=
    writes_cases (fun item => hbelow loops _ item (hagrees.switch id)) hlang [] items
  have hopen := Nesting.isOpenedBy_append hmatch (text ++ ":")
  rw [← String.append_assoc] at hopen
  exact hcases.deeper.underLine hopen

/-- What a loop does in a round. -/
theorem writes_round (hagrees : Agrees loops around) (id body : NodeId) (tail : Option RoundEnd) :
    Writes view (id :: loops) (.loop id :: around) 0 (round view below body tail)
      (view.jumps (.loop id :: around) body) := by
  have hbody := writes_statements (fun item => hbelow _ _ item (hagrees.loop id)) body
  have hleave : ∀ found ∈ view.lang.destination .leave (.loop id :: around), found = id :=
    fun found hfound => (Option.some.inj hfound).symm
  cases tail with
  | none => exact hbody
  | some ending =>
    have hend : Writes view (id :: loops) (.loop id :: around) 0 (roundEnd view ending) ∅ :=
      writes_roundEnd hlang hleave ending
    refine .follow fun isEmpty hempty => ?_
    cases isEmpty with
    | false => exact (hbody.andThen hend).congr (Set.union_empty _)
    | true =>
      rw [View.jumps_body, grants_isEmptyBlock body true hempty rfl, View.jumpsAll_nil]
      exact hend

/-- A loop with a header of its own. -/
theorem writes_loop (hagrees : Agrees loops around) (id body : NodeId) {start : String}
    (hstart : start ∈ (Nesting.loop id).openings .python) (rest : String)
    (tail : Option RoundEnd) :
    Writes view (id :: loops) around 0 (suite (start ++ rest) (round view below body tail))
      (view.jumps (.loop id :: around) body) := by
  rw [← hlang] at hstart
  exact writes_suite hstart rest (writes_round hlang hbelow hagrees id body tail)

theorem writes_rangeFor (hagrees : Agrees loops around) (id : NodeId) (var : String) (range : Range)
    (body : NodeId) :
    Writes view loops around 0 (Emit.inLoop ⟨id, none⟩ (rangeFor view below var range body))
      (view.jumps (.loop id :: around) body) := by
  refine .inLoop (.after .enter fun _ => .after (.render _) fun call => ?_)
  refine .after (.setVariable _ _) fun _ => .before ?_ fun _ => .leave
  have hfor : "for " ∈ (Nesting.loop id).openings .python := by simp
  simp only [String.append_assoc]
  exact writes_loop hlang hbelow hagrees id body hfor _ none

theorem writes_forEach (hagrees : Agrees loops around) (id : NodeId) (var : String)
    (ty iterable body : NodeId) :
    Writes view loops around 0
      (Emit.inLoop ⟨id, none⟩ (forEach view below var ty iterable body))
      (view.jumps (.loop id :: around) body) := by
  have hfor : "for " ∈ (Nesting.loop id).openings .python := by simp
  refine .inLoop (.after .enter fun _ => .after (.render _) fun text => ?_)
  refine .follow fun declared _ => ?_
  extract_lets write
  have hwrite : ∀ item, Writes view (id :: loops) around 0 (write item)
      (view.jumps (.loop id :: around) body) := by
    intro item
    refine .after (.setVariable _ _) fun _ => .before ?_ fun _ => .leave
    simp only [String.append_assoc]
    exact writes_loop hlang hbelow hagrees id body hfor _ none
  split
  · exact .after (.pure _) hwrite
  · exact .after (.render _) fun _ => .after (.pure _) hwrite

omit hlang hbelow in
/-- What sets the counter of a loop is no jump. -/
theorem grants_startOf? (init : NodeId) :
    Grants (view.arena.startOf? init) fun start =>
      start.isSome = true → ∀ around, view.jumps around init = ∅ := by
  refine Grants.bind (fun node found => found) fun node found => ?_
  cases node with
  | decl d => exact fun _ _ _ around => View.jumps_of_none found rfl rfl
  | expr e => exact fun _ _ _ around => View.jumps_of_none found rfl rfl
  | type ty => exact .ok nofun
  | defn d => exact .ok nofun
  | stmt s =>
    cases s with
    | expr value => exact fun _ _ _ around => View.jumps_of_none found rfl rfl
    | assign op target value => exact fun _ _ _ around => View.jumps_of_none found rfl rfl
    | _ => exact .ok nofun

omit hlang hbelow in
theorem grants_counting? (init cond update : Option NodeId) (body : NodeId) :
    Grants (view.arena.counting? init cond update body) fun counted =>
      counted.isSome = true → ∀ around, view.jumpsAll around init.toList = ∅ := by
  cases init with
  | none => exact fun _ _ _ around => View.jumpsAll_nil
  | some init =>
    refine (grants_startOf? init).bind fun start hstart => ?_
    cases start with
    | none => exact .ok nofun
    | some start =>
      intro _ _ _ around
      rw [Option.toList_some, View.jumpsAll_singleton, hstart rfl]

theorem writes_forLoop (hagrees : Agrees loops around) (id : NodeId)
    (init cond update : Option NodeId) (body : NodeId) :
    Writes view loops around 0 (forLoop view below id init cond update body)
      (view.jumpsAll around init.toList ∪ view.jumps (.loop id :: around) body) := by
  refine .follow fun counted hcounted => ?_
  cases counted with
  | some counted =>
    rw [grants_counting? init cond update body _ hcounted rfl, Set.empty_union]
    exact writes_rangeFor hlang hbelow hagrees id counted.1 counted.2 body
  | none =>
    have hwhile : "while " ∈ (Nesting.loop id).openings view.lang := by simp [hlang]
    have hinit : Writes view loops around 0 (init.forM below)
        (view.jumpsAll around init.toList) := by
      cases init with
      | none => exact (Writes.silent (.pure ())).congr View.jumpsAll_nil.symm
      | some init => exact (hbelow loops around init hagrees).congr View.jumpsAll_singleton.symm
    have hloop : ∀ condText : String, Writes view loops around 0 (do
        suite ("while " ++ condText) (Emit.inLoop ⟨id, update.map .update⟩
          (round view below body (update.map .update)))
        Emit.leave) (view.jumps (.loop id :: around) body) := by
      intro condText
      refine .before (writes_suite hwhile condText (.inLoop ?_)) fun _ => .leave
      exact writes_round hlang hbelow hagrees id body _
    refine .after .enter fun _ => hinit.bind fun _ => ?_
    cases cond with
    | none => exact .after (.pure "True") hloop
    | some cond => exact .after (.render _) hloop

theorem writes_stmt (hagrees : Agrees loops around) {id : NodeId} {s : Stmt}
    (found : view.arena.node id = .ok (.stmt s)) :
    Writes view loops around 0 (stmt view below id s) (view.jumps around id) := by
  have hitems : ∀ item, Writes view loops around 0 (below item) (view.jumps around item) :=
    fun item => hbelow loops around item hagrees
  have hwhile : "while " ∈ (Nesting.loop id).openings .python := by simp
  cases s with
  | block items =>
    rw [View.jumps_of_part found rfl rfl]
    exact (Writes.items items fun item _ => hitems item).framed
  | expr value =>
    rw [View.jumps_of_none found rfl rfl]
    exact writes_exprLine value
  | assign op target value =>
    rw [View.jumps_of_none found rfl rfl]
    exact .after (.render _) fun text => .line _
  | multiAssign items =>
    rw [View.jumps_of_part found rfl rfl]
    exact .items items fun item _ => hitems item
  | conditional branches otherwise =>
    rw [View.jumps_of_part found rfl rfl]
    exact writes_conditional hitems hlang branches otherwise
  | switch subject cases =>
    rw [View.jumps_of_part found rfl rfl]
    exact writes_switch hlang hbelow hagrees id subject cases
  | whileLoop cond body =>
    rw [View.jumps_of_part found rfl rfl, View.jumpsAll_singleton]
    refine .after (.render _) fun text => .inLoop ?_
    exact writes_loop hlang hbelow hagrees id body hwhile text none
  | doWhile body cond =>
    rw [View.jumps_of_part found rfl rfl, View.jumpsAll_singleton]
    exact .inLoop (writes_loop hlang hbelow hagrees id body hwhile "True" (some (.check cond)))
  | forLoop init cond update body =>
    rw [View.jumps_forLoop found]
    exact writes_forLoop hlang hbelow hagrees id init cond update body
  | rangeFor var range body =>
    rw [View.jumps_of_part found rfl rfl, View.jumpsAll_singleton]
    exact writes_rangeFor hlang hbelow hagrees id var range body
  | forEach var ty iterable body =>
    rw [View.jumps_of_part found rfl rfl, View.jumpsAll_singleton]
    exact writes_forEach hlang hbelow hagrees id var ty iterable body
  | infinite body =>
    rw [View.jumps_of_part found rfl rfl, View.jumpsAll_singleton]
    exact .inLoop (writes_loop hlang hbelow hagrees id body hwhile "True" none)
  | breakTo target =>
    have hkeyword : view.lang.jumpText .leave = "break" := by rw [hlang]; rfl
    exact .keyword found rfl (.inr rfl) hkeyword
  | continueTo target => exact writes_continueTo hlang hagrees found
  | ret value =>
    rw [View.jumps_of_none found rfl rfl]
    cases value with
    | none => exact .line _
    | some value => exact .after (.render _) fun text => .line _
  | delete target array =>
    rw [View.jumps_of_none found rfl rfl]
    exact .after (.render _) fun text => .line _
  | comment text multiline =>
    rw [View.jumps_of_none found rfl rfl]
    exact .each _ fun line => .line _

/-! ## Declarations and definitions -/

omit hlang hbelow in
theorem writes_decl (id : NodeId) : Writes view loops around 0 (decl view id) ∅ := by
  refine .follow fun d _ => ?_
  cases d with
  | vars ty declarators modifiers =>
    refine .after (.render _) fun typeNote => .before (.each _ fun d => ?_) fun _ => .render _
    exact .after (.render _) fun text => .line _
  | function name params ret modifiers owner => exact .silent (.render _)
  | classHead name parents modifiers => exact .silent (.render _)
  | imports path items static => cases items <;> exact .line _
  | package path => exact .silent (.pure ())
  | includes path system => exact .throw _

omit hlang hbelow in
theorem grants_functionHeader (view : View) (name : String) (params : List Param) (ret : NodeId)
    (hasReceiver : Bool) :
    Grants (functionHeader view name params ret hasReceiver) fun header =>
      ∃ rest, header = "def " ++ rest := by
  refine Grants.bind (fun _ _ => trivial) fun list _ => ?_
  refine Grants.bind (fun _ _ => trivial) fun note _ => .ok ?_
  exact ⟨_, by simp only [String.append_assoc]; rfl⟩

theorem writes_function (around : List Construct) (id body : NodeId) :
    Writes view loops around 0 (function view below id body) (view.jumps [] body) := by
  have hdef : "def " ∈ Nesting.definition.openings view.lang := by simp [hlang]
  have hbody := writes_statements (fun item => hbelow loops [] item .definition) body
  refine .follow fun d _ => ?_
  cases d with
  | function name params ret modifiers owner =>
    refine .after (.render _) fun _ => ?_
    have hheader := grants_functionHeader view name params ret
      (owner.isSome && !modifiers.isStatic)
    refine .rendered (Render.yields_allowed hheader) fun header ⟨rest, hrest⟩ => ?_
    have hdefinition : Writes view loops around 0 (do
        Emit.enter
        Emit.infer (Infer.params view.arena id)
        suite header (statements view below body)
        Emit.leave) (view.jumps [] body) := by
      refine .after .enter fun _ => .after (.render _) fun _ => .before ?_ fun _ => .leave
      rw [hrest]
      exact writes_suite hdef rest hbody
    dsimp only
    split
    · exact .lineThen _ hdefinition
    · exact hdefinition
  | _ => exact .throw _

theorem writes_classBody (around : List Construct) (id : NodeId) (members : List NodeId) :
    Writes view loops around 0 (classBody view below id members) (view.jumpsAll [] members) := by
  have hclass : "class " ∈ Nesting.definition.openings view.lang := by simp [hlang]
  have hmembers : Writes view loops [] 0 _ _ :=
    .spaced (fun item => hbelow loops [] item .definition) none members
  refine .follow fun d _ => ?_
  cases d with
  | classHead name parents modifiers =>
    refine .after (.render _) fun clause => ?_
    rw [String.append_assoc]
    refine writes_suite hclass _ ?_
    dsimp only
    split
    · exact .lineThen _ hmembers
    · exact hmembers
  | _ => exact .throw _

omit hbelow in
theorem writes_runGuard (entry : String) : Writes view loops around 0 (runGuard entry) ∅ := by
  have hopen : Nesting.plain.isOpenedBy view.lang "if __name__ == \"__main__\":" = true := by
    rw [hlang]
    decide
  have hcall : Writes view loops (Nesting.plain.inside around) 0 _ ∅ := .line (entry ++ "()")
  exact (Writes.blankLine.andThen (hcall.deeper.underLine hopen)).congr (Set.empty_union _)

theorem writes_wrapped (hagrees : Agrees loops around) (items : List NodeId) :
    Writes view loops around 0 (wrapped view below items) (view.jumpsAll [] items) := by
  have hdef : "def " ∈ Nesting.definition.openings view.lang := by simp [hlang]
  have hitems : ∀ item, Writes view loops around 0 (below item) (view.jumps around item) :=
    fun item => hbelow loops around item hagrees
  refine .follow fun sections hsections => ?_
  have hparts := Sections.grants_ofItems view items sections hsections
  have hfront := (Writes.preamble hitems sections.preamble).congr (hparts.preamble around)
  have hmembers : Writes view loops around 0 (Emit.definitions below sections.definitions) _ :=
    .definitions sections.definitions fun item _ => hitems item
  have hmain : Writes view loops around 0
      (suite ("def " ++ "main()") (orPass below sections.statements)) _ :=
    writes_suite hdef "main()"
      (writes_orPass (fun item => hbelow loops [] item .definition) sections.statements)
  have hall := hfront.andThen (hmembers.andThen (hmain.andThen (writes_runGuard hlang "main")))
  rw [Set.empty_union, Set.union_empty] at hall
  rw [hparts.items, ← hparts.definitions around]
  exact hall

omit hlang hbelow in
theorem silent_entryName (entry : NodeId) : Emit.Silent (entryName view entry) := by
  refine .bind (.render _) fun d => ?_
  cases d with
  | function id body =>
    refine .bind (.render _) fun d => ?_
    cases d with
    | function name params ret modifiers owner => exact .pure name
    | _ => exact .throw _
  | _ => exact .throw _

theorem writes_program (hagrees : Agrees loops around) (items : List NodeId)
    (mainClass entryPoint : Option NodeId) :
    Writes view loops around 0 (program view below items entryPoint)
      (view.jumpsAll ((if view.isWrapped mainClass entryPoint then Nesting.definition
        else .plain).inside around) items) := by
  have hspaced : Writes view loops around 0 (Emit.spaced view.arena below none items)
      (view.jumpsAll around items) :=
    .spaced (fun item => hbelow loops around item hagrees) none items
  have hwrapped : view.isWrapped mainClass entryPoint =
      (view.isOn .unitMode && entryPoint.isNone) := by
    simp [View.isWrapped, hlang]
  rw [hwrapped]
  unfold program
  cases hunit : view.isOn .unitMode with
  | false => exact hspaced
  | true =>
    cases entryPoint with
    | none => exact writes_wrapped hlang hbelow hagrees items
    | some entry =>
      refine (hspaced.bind fun _ => .after (silent_entryName entry) fun name => ?_).congr
        (Set.union_empty _)
      exact writes_runGuard hlang name

end Statements

/-- **The text of a node is nested like the node, and each jump in it concerns what it is meant
to.** -/
theorem writes_nodeTo (hlang : view.lang = .python) (depth : Nat) (hagrees : Agrees loops around)
    (id : NodeId) : Writes view loops around 0 (nodeTo view depth id) (view.jumps around id) := by
  induction depth generalizing loops around id with
  | zero => exact .throw _
  | succ depth ih =>
    have hbelow : ∀ loops around item, Agrees loops around →
        Writes view loops around 0 (nodeTo view depth item) (view.jumps around item) :=
      fun loops around item hagrees => ih hagrees item
    refine .follow fun node found => ?_
    cases node with
    | expr e =>
      rw [View.jumps_of_none found rfl rfl]
      exact writes_exprLine id
    | stmt s => exact writes_stmt hlang hbelow hagrees found
    | decl d =>
      rw [View.jumps_of_none found rfl rfl]
      exact writes_decl id
    | type ty =>
      rw [View.jumps_of_none found rfl rfl]
      exact .after (.render _) fun text => .line _
    | defn d =>
      cases d with
      | program items mainClass entryPoint =>
        rw [View.jumps_of_part found rfl rfl]
        exact writes_program hlang hbelow hagrees items mainClass entryPoint
      | function decl body =>
        rw [View.jumps_of_part found rfl rfl, View.jumpsAll_singleton]
        exact writes_function hlang hbelow around decl body
      | classBody decl members =>
        rw [View.jumps_of_part found rfl rfl]
        exact writes_classBody hlang hbelow around decl members

end Interlingua.Python
