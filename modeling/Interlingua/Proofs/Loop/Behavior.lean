import Interlingua.Proofs.Loop.Printing

/-!
# Printed programs behave alike

* `Command.allFull_lowerAll` — no suite of a script is empty, so the script can be read back.
* `Command.RootAt` — the root of a tree names commands.
* `Command.emit_behaves` — the text of a tree of commands is read as a script that does what the
  commands do.
-/

namespace Interlingua

/-! ## No suite is empty -/

namespace Step

theorem orPass_ne_nil (steps : List Step) : orPass steps ≠ [] := by
  cases steps <;> simp [orPass]

theorem allFull_append (first second : List Step) :
    allFull (first ++ second) = (allFull first && allFull second) := by
  induction first with
  | nil => rfl
  | cons step steps ih => rw [List.cons_append, allFull, allFull, ih, Bool.and_assoc]

theorem allFull_orPass (steps : List Step) : allFull (orPass steps) = allFull steps := by
  cases steps <;> rfl

theorem allFull_stepsOf (tail : Option Tail) : allFull (Tail.stepsOf tail) = true := by
  rcases tail with _ | _ | _ <;> rfl

theorem allFull_round {tail : Option Tail} {body : List Step} (h : allFull body = true) :
    allFull (round tail body) = true := by
  rw [round, allFull_orPass, allFull_append, h, allFull_stepsOf, Bool.and_self]

/-- A loop whose body is not empty. -/
theorem allFull_loop {guard : Guard} {tail : Option Tail} {body : List Step}
    (h : allFull body = true) : allFull [.loop guard (round tail body)] = true := by
  have hne : round tail body ≠ [] := orPass_ne_nil _
  simp [allFull, isFull, allFull_round h, hne]

end Step

mutual
theorem Command.allFull_lower : ∀ (command : Command) (tail : Option Tail),
    Step.allFull (command.lower tail) = true
  | .call _, tail | .leave, tail | .ret _, tail => by
    rw [Command.lower]
    rfl
  | .choose cond body rest, tail => by
    have hbody := Command.allFull_lowerAll body tail
    have hrest := Alternative.isFull_lower rest tail
    simp [Command.lower, Step.allFull, Step.isFull, Step.orPass_ne_nil, Step.allFull_orPass, hbody,
      hrest]
  | .whileLoop cond body, tail => by
    rw [Command.lower]
    exact Step.allFull_loop (Command.allFull_lowerAll body none)
  | .doWhile body cond, tail => by
    rw [Command.lower]
    exact Step.allFull_loop (Command.allFull_lowerAll body _)
  | .infinite body, tail => by
    rw [Command.lower]
    exact Step.allFull_loop (Command.allFull_lowerAll body none)
  | .forLoop init cond update body, tail => by
    have hinit : Step.allFull (init.map Step.call).toList = true := by cases init <;> rfl
    rw [Command.lower, Step.allFull_append, hinit, Bool.true_and]
    exact Step.allFull_loop (Command.allFull_lowerAll body _)
  | .next, tail => by
    rw [Command.lower, Step.allFull_append, Step.allFull_stepsOf, Bool.true_and]
    rfl

theorem Alternative.isFull_lower : ∀ (rest : Alternative) (tail : Option Tail),
    (rest.lower tail).isFull = true
  | .nothing, tail => by
    rw [Alternative.lower, Rest.isFull]
  | .otherwise body, tail => by
    have hbody := Command.allFull_lowerAll body tail
    simp [Alternative.lower, Rest.isFull, Step.orPass_ne_nil, Step.allFull_orPass, hbody]
  | .choose cond body rest, tail => by
    have hbody := Command.allFull_lowerAll body tail
    have hrest := Alternative.isFull_lower rest tail
    simp [Alternative.lower, Rest.isFull, Step.orPass_ne_nil, Step.allFull_orPass, hbody, hrest]

theorem Command.allFull_lowerAll : ∀ (commands : List Command) (tail : Option Tail),
    Step.allFull (Command.lowerAll tail commands) = true
  | [], tail => by
    rw [Command.lowerAll, Step.allFull]
  | command :: commands, tail => by
    rw [Command.lowerAll, Step.allFull_append, Command.allFull_lower command,
      Command.allFull_lowerAll commands, Bool.and_self]
end

/-! ## Whole trees -/

/-- The root of a tree names commands: a single one, a block or a program. -/
inductive Command.RootAt (view : View) (id : NodeId) : List Command → Prop
  | single {command : Command} (h : command.At view id) : RootAt view id [command]
  | block {commands : List Command} {items : List NodeId}
      (found : view.arena.stmt id = .ok (.block items)) (h : AllAt view commands items) :
      RootAt view id commands
  | program {commands : List Command} {items : List NodeId} {mainClass entryPoint : Option NodeId}
      (found : view.arena.node id = .ok (.defn (.program items mainClass entryPoint)))
      (h : AllAt view commands items) : RootAt view id commands

namespace Command

variable {view : View} {id : NodeId} {commands : List Command}

/-- A command is a call, or a statement of another kind. -/
theorem At.call_or_stmt {command : Command} (h : command.At view id) :
    (∃ made, command = .call made ∧ made.StatedAt view id) ∨
      ∃ s, view.arena.stmt id = .ok s ∧ ∀ value, s ≠ .expr value := by
  cases command with
  | call made =>
    simp only [At] at h
    exact .inl ⟨made, rfl, h⟩
  | leave | next =>
    simp only [At] at h
    exact .inr ⟨_, h, by simp⟩
  | choose cond body rest =>
    simp only [At] at h
    obtain ⟨first, others, otherwise, items, hs, -⟩ := h
    exact .inr ⟨_, hs, by simp⟩
  | whileLoop cond body | doWhile body cond =>
    simp only [At] at h
    obtain ⟨c, b, items, hs, -⟩ := h
    exact .inr ⟨_, hs, by simp⟩
  | infinite body =>
    simp only [At] at h
    obtain ⟨b, items, hs, -⟩ := h
    exact .inr ⟨_, hs, by simp⟩
  | forLoop init cond update body =>
    simp only [At] at h
    obtain ⟨i, c, u, b, items, hs, -⟩ := h
    exact .inr ⟨_, hs, by simp⟩
  | ret value =>
    simp only [At] at h
    obtain ⟨v, hs, -⟩ := h
    exact .inr ⟨_, hs, by simp⟩

/-- What a tree of one command consists of: a call, or nothing that is written bare. -/
theorem At.soleExpressionTo? {command : Command} (h : command.At view id) (depth : Nat) :
    view.arena.soleExpressionTo? (depth + 1) id = .ok none ∨
      ∃ made value, command = .call made ∧ made.At view value ∧
        view.arena.soleExpressionTo? (depth + 1) id = .ok (some value) := by
  rcases h.call_or_stmt with ⟨made, rfl, h | ⟨value, hs, h⟩⟩ | ⟨s, hs, hne⟩
  · obtain ⟨e, he, -⟩ := h.isCall
    refine .inr ⟨made, id, rfl, h, ?_⟩
    rw [Arena.soleExpressionTo?, Arena.node_of_expr he]
    rfl
  · refine .inr ⟨made, value, rfl, h, ?_⟩
    rw [Arena.soleExpressionTo?, Arena.node_of_stmt hs]
    rfl
  · refine .inl ?_
    rw [Arena.soleExpressionTo?, Arena.node_of_stmt hs]
    cases s with
    | expr value => exact absurd rfl (hne value)
    | _ => rfl

/-- A command is named by an expression or a statement. -/
theorem At.node {command : Command} (h : command.At view id) :
    (∃ e, view.arena.node id = .ok (.expr e)) ∨ ∃ s, view.arena.node id = .ok (.stmt s) := by
  rcases h.call_or_stmt with ⟨made, rfl, h | ⟨value, hs, -⟩⟩ | ⟨s, hs, -⟩
  · obtain ⟨e, he, -⟩ := h.isCall
    exact .inl ⟨_, Arena.node_of_expr he⟩
  · exact .inr ⟨_, Arena.node_of_stmt hs⟩
  · exact .inr ⟨_, Arena.node_of_stmt hs⟩

theorem At.isDefinition {command : Command} (h : command.At view id) :
    view.arena.isDefinition id = .ok false := by
  rcases h.node with ⟨e, hn⟩ | ⟨s, hn⟩
  · rw [Arena.isDefinition, hn]
    rfl
  · rw [Arena.isDefinition, hn]
    rfl

theorem AllAt.forall_of_at {holds : NodeId → Prop} {items : List NodeId}
    (hat : ∀ (command : Command) (id : NodeId), command.At view id → holds id)
    (h : AllAt view commands items) : ∀ item ∈ items, holds item := by
  induction commands generalizing items with
  | nil =>
    simp only [AllAt] at h
    simp [h]
  | cons command commands ih =>
    simp only [AllAt] at h
    obtain ⟨item, more, rfl, hitem, hmore⟩ := h
    exact List.forall_mem_cons.2 ⟨hat command item hitem, ih hmore⟩

end Command

/-- Where nothing is defined, no lines are set apart. -/
theorem Emit.spaced_eq_forM {arena : Arena} {below : NodeId → Emit Unit} {items : List NodeId}
    (hitems : ∀ item ∈ items, arena.isDefinition item = .ok false) :
    ∀ previous : Option NodeId, (∀ item ∈ previous, arena.isDefinition item = .ok false) →
    Emit.spaced arena below previous items = items.forM below := by
  induction items with
  | nil => exact fun _ _ => rfl
  | cons item items ih =>
    intro previous hprevious
    obtain ⟨hitem, hitems⟩ := List.forall_mem_cons.1 hitems
    have hrest := ih hitems (some item) (by simpa using hitem)
    cases previous with
    | none =>
      rw [Emit.spaced, hrest]
      rfl
    | some previous =>
      rw [Emit.spaced, hrest, hitem, hprevious previous rfl]
      rfl

/-- A program of statements and expressions declares no functions. -/
theorem Infer.programFunctions_of_items {arena : Arena} {root : NodeId} {items : List NodeId}
    {mainClass entryPoint : Option NodeId}
    (hroot : arena.node root = .ok (.defn (.program items mainClass entryPoint)))
    (hitems : ∀ item ∈ items,
      (∃ e, arena.node item = .ok (.expr e)) ∨ ∃ s, arena.node item = .ok (.stmt s))
    (scope : Scope) : Infer.programFunctions arena root scope = .ok () scope := by
  rw [Infer.programFunctions, hroot]
  show (items.forM _ : Infer Unit) scope = _
  clear hroot
  induction items with
  | nil => rfl
  | cons item items ih =>
    obtain ⟨hitem, hitems⟩ := List.forall_mem_cons.1 hitems
    refine (bind_of_ok (a := ()) ?_).trans (ih hitems)
    rcases hitem with ⟨e, hn⟩ | ⟨s, hn⟩
    · simp only [hn]
      rfl
    · simp only [hn]
      rfl

/-- A program of commands declares no functions. -/
theorem Infer.programFunctions_of_rootAt {view : View} {id : NodeId} {commands : List Command}
    (h : Command.RootAt view id commands) (scope : Scope) :
    Infer.programFunctions view.arena id scope = .ok () scope := by
  cases h with
  | single h =>
    rcases h.node with ⟨e, hn⟩ | ⟨s, hn⟩
    · rw [Infer.programFunctions, hn]
      rfl
    · rw [Infer.programFunctions, hn]
      rfl
  | block found h =>
    rw [Infer.programFunctions, Arena.node_of_stmt found]
    rfl
  | program found h =>
    exact Infer.programFunctions_of_items found (h.forall_of_at fun _ _ h => h.node) scope

namespace Command.RootAt

variable {view : View} {id : NodeId} {commands : List Command}

/-- The root of a tree is printed as the lines of a script. -/
theorem emits (h : RootAt view id commands) (hlang : view.lang = .python)
    (hunit : view.isOn .unitMode = false) :
    Emits view none (Python.node view id)
      fun width column => Step.linesAll width column (lowerAll none commands) := by
  cases h with
  | single h =>
    rw [lowerAll, lowerAll, List.append_nil]
    exact h.emits hlang none h.grounded.to_depthBound
  | block found h =>
    exact .stmt found (.frame (h.emits hlang none fun item hitem => (h.grounded item hitem).to_size))
  | program found h =>
    refine .follow found ?_
    show Emits view none (Python.program view _ _ _) _
    unfold Python.program
    rw [if_neg (by simp [hunit]),
      Emit.spaced_eq_forM (h.forall_of_at fun _ _ h => h.isDefinition) none (by simp)]
    exact h.emits hlang none fun item hitem => (h.grounded item hitem).to_size

/-- A tree of commands is written bare only if it is a call. -/
theorem soleExpression? (h : RootAt view id commands) :
    view.arena.soleExpression? id = .ok none ∨
      ∃ made value, commands = [.call made] ∧ made.At view value ∧
        view.arena.soleExpression? id = .ok (some value) := by
  cases h with
  | single h =>
    rcases h.soleExpressionTo? view.arena.size with hnone | ⟨made, value, rfl, hmade, hsome⟩
    · exact .inl hnone
    · exact .inr ⟨made, value, rfl, hmade, hsome⟩
  | block found h =>
    refine .inl ?_
    rw [Arena.soleExpression?, Arena.depthBound, Arena.soleExpressionTo?, Arena.node_of_stmt found]
    rfl
  | @program _ items mainClass entryPoint found h =>
    obtain ⟨less, hsize⟩ : ∃ less, view.arena.size = less + 1 := by
      have hlt := Arena.index_lt_of_node found
      exact ⟨view.arena.size - 1, by omega⟩
    rw [Arena.soleExpression?, Arena.depthBound, Arena.soleExpressionTo?, found, hsize]
    match items with
    | [] | _ :: _ :: _ => exact .inl rfl
    | [item] =>
      -- a program of one command is that command
      obtain ⟨command, rfl, hitem⟩ := h.exists_of_singleton
      rcases hitem.soleExpressionTo? less with hnone | ⟨made, value, rfl, hmade, hsome⟩
      · exact .inl hnone
      · exact .inr ⟨made, value, rfl, hmade, hsome⟩

/-- Printing a tree of commands gives the lines of their script. -/
theorem program_ok (h : RootAt view view.tree.root commands) (hlang : view.lang = .python)
    (hunit : view.isOn .unitMode = false) :
    view.program view.start = .ok () (view.start.put
      (Step.linesAll (Page.blank view.options).width 0 (lowerAll none commands))) := by
  have hinfer : Emit.infer (Infer.programFunctions view.arena view.tree.root) view.start =
      .ok () view.start := by
    refine Emit.lift_of_ok ?_
    simp only [liftM, monadLift, MonadLift.monadLift, Infer.programFunctions_of_rootAt h]
    rfl
  have hroot := (h.emits hlang hunit).run view.start .none
  have hcolumn : view.start.column = 0 := Nat.zero_mul _
  rw [View.program, bind_of_ok hinfer, View.node, hlang]
  rw [hcolumn] at hroot
  exact hroot

/-- The text of a tree of commands is read as their script. -/
theorem read?_emit (h : RootAt view view.tree.root commands) (hlang : view.lang = .python)
    (hunit : view.isOn .unitMode = false) (hwidth : 0 < (Page.blank view.options).width) :
    ∃ text, view.emit = .ok text ∧ Script.read? text = some (lowerAll none commands) := by
  have hbare : view.bare? = .ok none ∨ ∃ made value, commands = [.call made] ∧
      made.At view value ∧ view.bare? = .ok (some value) := by
    unfold View.bare?
    split
    · exact h.soleExpression?
    · exact .inl rfl
  rcases hbare with hnone | ⟨made, value, rfl, hmade, hsome⟩
  · refine ⟨_, ?_, Script.read?_written hwidth (allFull_lowerAll commands none)⟩
    rw [View.emit, hnone]
    simp only [h.program_ok hlang hunit]
    exact congrArg _ (String.empty_append ..)
  · refine ⟨made.text, ?_, ?_⟩
    · rw [View.emit, hsome]
      simp only [hmade.expr_ok]
    · rw [Script.read?_call, lowerAll, lowerAll, lower]
      rfl

end Command.RootAt

/-- **A printed tree of loops does what its statements do.**  Its text is read as the script of the
statements: before it starts the next round, the script ends the round of the innermost loop. -/
theorem Tree.runAll_emit (tree : Tree) (options : Options) (commands : List Command)
    (hroot : Command.RootAt (View.make tree .python options) tree.root commands)
    (hwidth : ∀ width ∈ options.indentWidth, 1 ≤ width) (hunit : options.unitMode = some false) :
    ∃ text, tree.emit .python options = .ok text ∧
      Script.read? text = some (Command.lowerAll none commands) ∧
      ∀ (oracle : Oracle) (course : Course),
        Step.runAll oracle (Command.lowerAll none commands) course =
          Command.runAll oracle commands course := by
  let view := View.make tree .python options
  have hunit : view.isOn .unitMode = false := by
    simp [view, View.make, View.isOn, Options.isOn, Options.flag?, Options.merge, hunit]
  have hwidth : 0 < (Page.blank view.options).width := by
    cases hoption : options.indentWidth with
    | none =>
      simp [view, View.make, Page.blank, Options.merge, hoption, Language.defaults,
        Options.standardWidth]
    | some width =>
      have hone := hwidth width hoption
      simp only [view, View.make, Page.blank, Options.merge, hoption, Option.some_or,
        Option.getD_some]
      omega
  obtain ⟨text, hemit, hread⟩ := Command.RootAt.read?_emit (show Command.RootAt view
    view.tree.root commands from hroot) rfl hunit hwidth
  refine ⟨text, hemit, hread, fun oracle course => ?_⟩
  rw [Command.runAll_script]

/-- A loop that skips to its check, in a loop that updates, with a plain loop inside. -/
theorem Tree.runAll_emit_nested :
    let arena : Arena := ⟨#[.expr (.ident "more"), .expr (.call ⟨0⟩ []), .expr (.ident "step"),
      .expr (.call ⟨2⟩ []), .expr (.ident "skip"), .expr (.call ⟨4⟩ []), .expr (.ident "again"),
      .expr (.call ⟨6⟩ []), .stmt (.continueTo none), .stmt (.block [⟨8⟩]),
      .stmt (.conditional [⟨⟨5⟩, ⟨9⟩⟩] none), .stmt (.whileLoop ⟨1⟩ ⟨9⟩), .stmt (.block [⟨10⟩, ⟨11⟩]),
      .stmt (.doWhile ⟨12⟩ ⟨7⟩), .stmt (.block [⟨13⟩, ⟨8⟩]),
      .stmt (.forLoop none (some ⟨1⟩) (some ⟨3⟩) ⟨14⟩)]⟩
    let tree : Tree := ⟨arena, ⟨15⟩⟩
    let more : Call := ⟨"more()", by decide⟩
    let step : Call := ⟨"step()", by decide⟩
    let skip : Call := ⟨"skip()", by decide⟩
    let again : Call := ⟨"again()", by decide⟩
    let commands : List Command := [.forLoop none (some more) (some step)
      [.doWhile [.choose skip [.next] .nothing, .whileLoop more [.next]] again, .next]]
    ∃ text, tree.emit .python { unitMode := some false } = .ok text ∧
      Script.read? text = some (Command.lowerAll none commands) ∧
      ∀ (oracle : Oracle) (course : Course),
        Step.runAll oracle (Command.lowerAll none commands) course =
          Command.runAll oracle commands course := by
  intro arena tree more step skip again commands
  let view := View.make tree .python { unitMode := some false }
  have hcall : ∀ (made : Call) (id : NodeId), arena.callText? id = some made.text →
      made.At view id := fun made id h => Call.at_of_callText? rfl h
  have hmore := hcall more ⟨1⟩ (by decide)
  have hstep := hcall step ⟨3⟩ (by decide)
  have hskip := hcall skip ⟨5⟩ (by decide)
  have hagain := hcall again ⟨7⟩ (by decide)
  have hnext : Command.At view .next ⟨8⟩ := by
    simp only [Command.At]
    rfl
  have hchoose : Command.At view (.choose skip [.next] .nothing) ⟨10⟩ := by
    simp only [Command.At, Alternative.At]
    exact ⟨⟨⟨5⟩, ⟨9⟩⟩, [], none, [⟨8⟩], rfl, hskip, rfl, .cons hnext .nil, rfl, rfl⟩
  have hwhile : Command.At view (.whileLoop more [.next]) ⟨11⟩ := by
    simp only [Command.At]
    exact ⟨⟨1⟩, ⟨9⟩, [⟨8⟩], rfl, hmore, rfl, .cons hnext .nil⟩
  have hdo : Command.At view (.doWhile [.choose skip [.next] .nothing, .whileLoop more [.next]] again)
      ⟨13⟩ := by
    simp only [Command.At]
    exact ⟨⟨7⟩, ⟨12⟩, [⟨10⟩, ⟨11⟩], rfl, hagain, rfl, .cons hchoose (.cons hwhile .nil)⟩
  have hroot : Command.RootAt view ⟨15⟩ commands := by
    refine .single ?_
    simp only [Command.At]
    exact ⟨none, some ⟨1⟩, some ⟨3⟩, ⟨14⟩, [⟨13⟩, ⟨8⟩], rfl, .none, .some hmore, .some hstep, rfl,
      .cons hdo (.cons hnext .nil)⟩
  exact Tree.runAll_emit tree _ commands hroot (by simp) rfl

end Interlingua
