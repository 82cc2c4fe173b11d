import Interlingua.Proofs.Loop.Script

/-!
# Lowering loops

Scripts have one kind of loop, checked at the start of each round.  What another loop does at the
end of a round is done by the body, at its end and before each start of a next round.

* `Command` — statements with all kinds of loops; `Command.run` is what they do.
* `Command.lower` — the script of a statement.
* `Command.runAll_lower` — the script does what the statement does, except that it ends the round
  itself where the statement starts the next one: this is the invariant of all loops around a
  statement, of which only the innermost counts.
* `Command.runAll_script` — outside of loops both do the same.
-/

namespace Interlingua

mutual
/-- A statement with all kinds of loops. -/
inductive Command where
  | call (call : Call)
  | choose (cond : Call) (body : List Command) (rest : Alternative)
  | whileLoop (cond : Call) (body : List Command)
  | doWhile (body : List Command) (cond : Call)
  | infinite (body : List Command)
  | forLoop (init cond update : Option Call) (body : List Command)
  | leave
  | next
  | ret (value : Option Call)

/-- What follows the first branch of a choice. -/
inductive Alternative where
  | nothing
  | otherwise (body : List Command)
  | choose (cond : Call) (body : List Command) (rest : Alternative)
end

/-- The guard of a loop that goes on for ever unless it has a condition. -/
def Guard.ofCond : Option Call → Guard
  | none => .always
  | some cond => .holds cond

mutual
/-- What a statement does. -/
def Command.run (oracle : Oracle) : Command → Act
  | .call call => Act.ask oracle call fun _ => Act.ends .done
  | .choose cond body rest =>
    Act.ask oracle cond fun answer =>
      if answer then Command.runAll oracle body else rest.run oracle
  | .whileLoop cond body =>
    Act.loop (Act.ask oracle cond fun answer =>
      if answer then Command.runAll oracle body else Act.ends .leave)
  | .doWhile body cond =>
    Act.loop (Act.andThen (fun course => Act.settle (Command.runAll oracle body course))
      (Act.ask oracle cond fun answer => Act.ends (if answer then .done else .leave)))
  | .infinite body => Act.loop (Command.runAll oracle body)
  | .forLoop init cond update body =>
    Act.andThen (Act.askIf oracle init)
      (Act.loop ((Guard.ofCond cond).test oracle
        (Act.andThen (fun course => Act.settle (Command.runAll oracle body course))
          (Act.askIf oracle update))
        (Act.ends .leave)))
  | .leave => Act.ends .leave
  | .next => Act.ends .next
  | .ret value => Act.ret oracle value

/-- What is done where the first condition of a choice does not hold. -/
def Alternative.run (oracle : Oracle) : Alternative → Act
  | .nothing => Act.ends .done
  | .otherwise body => Command.runAll oracle body
  | .choose cond body rest =>
    Act.ask oracle cond fun answer =>
      if answer then Command.runAll oracle body else rest.run oracle

/-- What statements do one after another. -/
def Command.runAll (oracle : Oracle) : List Command → Act
  | [] => Act.ends .done
  | command :: commands => (command.run oracle).andThen (Command.runAll oracle commands)
end

/-! ## Lowering -/

/-- What the innermost loop does at the end of a round. -/
inductive Tail where
  | update (call : Call)
  | check (cond : Call)

/-- The steps that end a round. -/
def Tail.steps : Tail → List Step
  | .update call => [.call call]
  | .check cond => [.choose (.fails cond) [.leave] .nothing]

/-- The steps that end a round, if there is something to do. -/
def Tail.stepsOf : Option Tail → List Step
  | none => []
  | some tail => tail.steps

/-- A suite is never empty. -/
def Step.orPass : List Step → List Step
  | [] => [.pass]
  | steps => steps

/-- A body with what its loop does at the end of a round. -/
def Step.round (tail : Option Tail) (body : List Step) : List Step :=
  Step.orPass (body ++ Tail.stepsOf tail)

mutual
/-- The script of a statement, given what the loop around it does at the end of a round. -/
def Command.lower (tail : Option Tail) : Command → List Step
  | .call call => [.call call]
  | .choose cond body rest =>
    [.choose (.holds cond) (Step.orPass (Command.lowerAll tail body)) (rest.lower tail)]
  | .whileLoop cond body => [.loop (.holds cond) (Step.round none (Command.lowerAll none body))]
  | .doWhile body cond =>
    [.loop .always (Step.round (some (.check cond)) (Command.lowerAll (some (.check cond)) body))]
  | .infinite body => [.loop .always (Step.round none (Command.lowerAll none body))]
  | .forLoop init cond update body =>
    (init.map Step.call).toList ++ [.loop (Guard.ofCond cond)
      (Step.round (update.map .update) (Command.lowerAll (update.map .update) body))]
  | .leave => [.leave]
  | .next => Tail.stepsOf tail ++ [.next]
  | .ret value => [.ret value]

/-- The script of what follows the first branch of a choice. -/
def Alternative.lower (tail : Option Tail) : Alternative → Rest
  | .nothing => .nothing
  | .otherwise body => .otherwise (Step.orPass (Command.lowerAll tail body))
  | .choose cond body rest =>
    .choose (.holds cond) (Step.orPass (Command.lowerAll tail body)) (rest.lower tail)

/-- The script of statements one after another. -/
def Command.lowerAll (tail : Option Tail) : List Command → List Step
  | [] => []
  | command :: commands => command.lower tail ++ Command.lowerAll tail commands
end

/-! ## Laws of acts -/

namespace Act

variable {first second third : Act}

@[simp] theorem ends_apply (ending : Ending) (course : Course) :
    ends ending course = (ending, course) := rfl

theorem andThen_of_done {course after : Course} (h : first course = (.done, after)) :
    andThen first second course = second after := by
  simp only [andThen, h]

theorem andThen_of_ne_done {course : Course} (h : (first course).1 ≠ .done) :
    andThen first second course = first course := by
  unfold andThen
  split
  · rename_i after heq
    rw [heq] at h
    exact absurd rfl h
  · rfl

@[simp] theorem andThen_ends_done (act : Act) : andThen act (ends .done) = act := by
  funext course
  by_cases h : (act course).1 = .done
  · have hact : act course = (.done, (act course).2) := by rw [← h]
    rw [andThen_of_done hact, hact, ends_apply]
  · exact andThen_of_ne_done h

theorem andThen_assoc (first second third : Act) :
    andThen (andThen first second) third = andThen first (andThen second third) := by
  funext course
  by_cases h : (first course).1 = .done
  · have hact : first course = (.done, (first course).2) := by rw [← h]
    rw [andThen_of_done hact]
    unfold andThen
    rw [hact]
  · rw [andThen_of_ne_done h, andThen_of_ne_done, andThen_of_ne_done h]
    rwa [andThen_of_ne_done h]

/-- What ends by starting the next round is not done. -/
theorem andThen_next_ne_done (act : Act) (course : Course) :
    (andThen act (ends .next) course).1 ≠ .done := by
  by_cases h : (act course).1 = .done
  · have hact : act course = (.done, (act course).2) := by rw [← h]
    rw [andThen_of_done hact]
    simp
  · rwa [andThen_of_ne_done h]

theorem settle_andThen_next (act : Act) (course : Course) :
    settle (andThen act (ends .next) course) = settle (act course) := by
  by_cases h : (act course).1 = .done
  · have hact : act course = (.done, (act course).2) := by rw [← h]
    rw [andThen_of_done hact, hact]
    rfl
  · rw [andThen_of_ne_done h]

/-- A loop does not tell a round that was ended early from one that was not. -/
theorem loop_congr (h : ∀ course, settle (first course) = settle (second course)) :
    loop first = loop second := by
  have hto : ∀ (more : Nat) (course : Course), loopTo first more course = loopTo second more course := by
    intro more
    induction more with
    | zero => exact fun _ => rfl
    | succ more ih =>
      intro course
      unfold loopTo
      split
      · rfl
      · rw [h]
        split
        · exact ih _
        · rfl
        · rfl
  funext course
  exact hto _ course

theorem settle_ne_next (result : Ending × Course) : (settle result).1 ≠ .next := by
  unfold settle
  split
  · simp
  · rename_i hne
    intro heq
    exact hne result.2 (by rw [← heq])

/-- What starts the next round of a loop does not get out of it. -/
theorem loop_ne_next (round : Act) (course : Course) : (loop round course).1 ≠ .next := by
  have hto : ∀ (more : Nat) (course : Course), (loopTo round more course).1 ≠ .next := by
    intro more
    induction more with
    | zero => exact fun _ => by simp [loopTo]
    | succ more ih =>
      intro course
      unfold loopTo
      split
      · simp
      · split
        · exact ih _
        · simp
        · exact settle_ne_next _
  exact hto _ course

end Act

/-! ## Scripts do what statements do -/

/-- A test goes on with acts that loops do not tell apart. -/
theorem Guard.settle_test_congr {oracle : Oracle} {guard : Guard} {yes yes' no : Act}
    (h : ∀ course, Act.settle (yes course) = Act.settle (yes' course)) (course : Course) :
    Act.settle (guard.test oracle yes no course) = Act.settle (guard.test oracle yes' no course) := by
  cases guard with
  | always => exact h course
  | holds call =>
    simp only [Guard.test, Act.ask]
    split
    · exact h _
    · rfl
  | fails call =>
    simp only [Guard.test, Act.ask]
    split
    · rfl
    · exact h _

namespace Step

variable {oracle : Oracle}

theorem runAll_append (first second : List Step) :
    runAll oracle (first ++ second) = (runAll oracle first).andThen (runAll oracle second) := by
  induction first with
  | nil => rfl
  | cons step steps ih => rw [List.cons_append, runAll, runAll, ih, Act.andThen_assoc]

theorem runAll_singleton (step : Step) : runAll oracle [step] = step.run oracle := by
  rw [runAll, runAll, Act.andThen_ends_done]

theorem runAll_orPass (steps : List Step) : runAll oracle (orPass steps) = runAll oracle steps := by
  cases steps with
  | nil => rw [orPass, runAll_singleton, run, runAll]
  | cons step steps => rfl

end Step

namespace Tail

variable {oracle : Oracle} {tail : Option Tail}

/-- Where the next round would be started, the round is ended first. -/
def finish (oracle : Oracle) (tail : Option Tail) : Ending × Course → Ending × Course
  | (.next, course) => (Step.runAll oracle (stepsOf tail)).andThen (Act.ends .next) course
  | other => other

theorem finish_of_ne_next {result : Ending × Course} (h : result.1 ≠ .next) :
    finish oracle tail result = result := by
  unfold finish
  split
  · exact absurd rfl h
  · rfl

@[simp] theorem finish_none (result : Ending × Course) : finish oracle none result = result := by
  unfold finish
  split <;> rfl

/-- What an update or a check does. -/
theorem runAll_update (call : Option Call) :
    Step.runAll oracle (stepsOf (call.map .update)) = Act.askIf oracle call := by
  cases call with
  | none => rfl
  | some call => exact Step.runAll_singleton _

theorem runAll_check (cond : Call) :
    Step.runAll oracle (stepsOf (some (.check cond))) =
      Act.ask oracle cond fun answer => Act.ends (if answer then .done else .leave) := by
  rw [stepsOf, steps, Step.runAll_singleton, Step.run, Rest.run, Step.runAll_singleton, Step.run,
    Guard.test]
  congr 1
  funext answer
  cases answer <;> rfl

end Tail

namespace Command

variable {oracle : Oracle}

/-- A lowered round, given that the lowered body does what the body does up to the end of the
round. -/
theorem settle_runAll_round {tail : Option Tail} {body : List Step} {act : Act} {course : Course}
    (h : Step.runAll oracle body course = Tail.finish oracle tail (act course)) :
    Act.settle (Step.runAll oracle (Step.round tail body) course) =
      Act.settle (Act.andThen (fun course => Act.settle (act course))
        (Step.runAll oracle (Tail.stepsOf tail)) course) := by
  rw [Step.round, Step.runAll_orPass, Step.runAll_append]
  match hact : act course with
  | (.done, after) =>
    rw [Act.andThen_of_done (h.trans (by rw [hact]; rfl)),
      Act.andThen_of_done (show Act.settle (act course) = (.done, after) by rw [hact]; rfl)]
  | (.next, after) =>
    -- the body has ended the round before it starts the next one
    have hbody : Step.runAll oracle body course =
        Act.andThen (Step.runAll oracle (Tail.stepsOf tail)) (Act.ends .next) after := by
      rw [h, hact]
      rfl
    rw [Act.andThen_of_ne_done (by rw [hbody]; exact Act.andThen_next_ne_done _ _), hbody,
      Act.settle_andThen_next,
      Act.andThen_of_done (show Act.settle (act course) = (.done, after) by rw [hact]; rfl)]
  | (.leave, after) | (.returned _, after) | (.spent, after) =>
    have hbody : Step.runAll oracle body course = act course := by
      rw [h, Tail.finish_of_ne_next (by rw [hact]; simp)]
    have hsettle : Act.settle (act course) = act course := by rw [hact]; rfl
    rw [Act.andThen_of_ne_done (by rw [hbody, hact]; simp), hbody,
      Act.andThen_of_ne_done (by rw [hsettle, hact]; simp), hsettle, hsettle]

/-- A lowered round that has nothing to do at its end. -/
theorem runAll_round_none {body : List Step} {act : Act}
    (h : ∀ course, Step.runAll oracle body course = Tail.finish oracle none (act course)) :
    Step.runAll oracle (Step.round none body) = act := by
  funext course
  rw [Step.round, Step.runAll_orPass, Tail.stepsOf, List.append_nil, h, Tail.finish_none]

mutual
/-- A lowered statement ends the round where the statement starts the next one, and else does what
the statement does. -/
theorem runAll_lower : ∀ (command : Command) (tail : Option Tail) (course : Course),
    Step.runAll oracle (command.lower tail) course =
      Tail.finish oracle tail (command.run oracle course)
  | .call made, tail, course => by
    rw [lower, Step.runAll_singleton, Step.run, run, Tail.finish_of_ne_next (by simp [Act.ask])]
  | .choose cond body rest, tail, course => by
    rw [lower, Step.runAll_singleton, Step.run, run, Guard.test]
    simp only [Act.ask]
    split
    · rw [Step.runAll_orPass, runAll_lowerAll body]
    · exact run_lower_rest rest tail _
  | .whileLoop cond body, tail, course => by
    rw [lower, Step.runAll_singleton, Step.run, run, Tail.finish_of_ne_next (Act.loop_ne_next _ _),
      runAll_round_none (runAll_lowerAll body none)]
    rfl
  | .doWhile body cond, tail, course => by
    rw [lower, Step.runAll_singleton, Step.run, run, Tail.finish_of_ne_next (Act.loop_ne_next _ _),
      Guard.test, ← Tail.runAll_check]
    refine congrFun (Act.loop_congr fun course => ?_) course
    exact settle_runAll_round (runAll_lowerAll body _ course)
  | .infinite body, tail, course => by
    rw [lower, Step.runAll_singleton, Step.run, run, Tail.finish_of_ne_next (Act.loop_ne_next _ _),
      runAll_round_none (runAll_lowerAll body none)]
    rfl
  | .forLoop init cond update body, tail, course => by
    have hloop : Act.loop ((Guard.ofCond cond).test oracle (Step.runAll oracle
        (Step.round (update.map .update) (lowerAll (update.map .update) body))) (Act.ends .leave)) =
        Act.loop ((Guard.ofCond cond).test oracle
          (Act.andThen (fun course => Act.settle (runAll oracle body course))
            (Act.askIf oracle update)) (Act.ends .leave)) := by
      refine Act.loop_congr fun course => Guard.settle_test_congr (fun course => ?_) course
      rw [← Tail.runAll_update]
      exact settle_runAll_round (runAll_lowerAll body _ course)
    rw [lower, Step.runAll_append, Step.runAll_singleton, Step.run, hloop, run,
      Tail.finish_of_ne_next]
    · cases init <;> rfl
    · cases init <;> exact Act.loop_ne_next _ _
  | .leave, tail, course => by
    rw [lower, Step.runAll_singleton, Step.run, run, Tail.finish_of_ne_next (by simp)]
  | .next, tail, course => by
    rw [lower, Step.runAll_append, Step.runAll_singleton, Step.run, run]
    rfl
  | .ret value, tail, course => by
    rw [lower, Step.runAll_singleton, Step.run, run, Tail.finish_of_ne_next]
    cases value <;> simp [Act.ret, Act.ask]

/-- The same of what follows the first branch of a choice. -/
theorem run_lower_rest : ∀ (rest : Alternative) (tail : Option Tail) (course : Course),
    (rest.lower tail).run oracle course = Tail.finish oracle tail (rest.run oracle course)
  | .nothing, tail, course => by
    rw [Alternative.lower, Rest.run, Alternative.run, Tail.finish_of_ne_next (by simp)]
  | .otherwise body, tail, course => by
    rw [Alternative.lower, Rest.run, Alternative.run, Step.runAll_orPass, runAll_lowerAll body]
  | .choose cond body rest, tail, course => by
    rw [Alternative.lower, Rest.run, Alternative.run, Guard.test]
    simp only [Act.ask]
    split
    · rw [Step.runAll_orPass, runAll_lowerAll body]
    · exact run_lower_rest rest tail _

/-- The same of statements one after another. -/
theorem runAll_lowerAll : ∀ (commands : List Command) (tail : Option Tail) (course : Course),
    Step.runAll oracle (lowerAll tail commands) course =
      Tail.finish oracle tail (runAll oracle commands course)
  | [], tail, course => by
    rw [lowerAll, runAll, Tail.finish_of_ne_next (by simp)]
    rfl
  | command :: commands, tail, course => by
    have hfirst := runAll_lower command tail course
    rw [lowerAll, runAll, Step.runAll_append]
    match hrun : command.run oracle course with
    | (.done, after) =>
      rw [Act.andThen_of_done hrun, Act.andThen_of_done (hfirst.trans (by rw [hrun]; rfl)),
        runAll_lowerAll commands]
    | (.next, after) =>
      have hne : (command.run oracle course).1 ≠ .done := by rw [hrun]; simp
      have hbody : Step.runAll oracle (command.lower tail) course =
          Act.andThen (Step.runAll oracle (Tail.stepsOf tail)) (Act.ends .next) after := by
        rw [hfirst, hrun]
        rfl
      rw [Act.andThen_of_ne_done hne, ← hfirst,
        Act.andThen_of_ne_done (by rw [hbody]; exact Act.andThen_next_ne_done _ _)]
    | (.leave, after) | (.returned _, after) | (.spent, after) =>
      have hne : (command.run oracle course).1 ≠ .done := by rw [hrun]; simp
      have hsame : Step.runAll oracle (command.lower tail) course = command.run oracle course := by
        rw [hfirst, Tail.finish_of_ne_next (by rw [hrun]; simp)]
      rw [Act.andThen_of_ne_done hne, ← hfirst, Act.andThen_of_ne_done (by rwa [hsame])]
end

/-- **A script does what its statements do**, outside of loops. -/
theorem runAll_script (oracle : Oracle) (commands : List Command) :
    Step.runAll oracle (lowerAll none commands) = runAll oracle commands := by
  funext course
  rw [runAll_lowerAll, Tail.finish_none]

end Command

end Interlingua
