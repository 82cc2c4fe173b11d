import Interlingua.Emit.Basic
import Interlingua.Proofs.Counting.Ranges

/-!
# Loops that count

The loop of three clauses and the loop over a range are run side by side, with one body.

* `World.rounds` — a run of the loop of three clauses, moment by moment: each test, each start of
  the body and each update.  The body may do anything to the store, may do another thing in each
  round, and may leave the loop.
* `World.forIn` — a run of the loop over some numbers.
* `World.rounds_invariant` — what the clauses and the body preserve holds at every moment.
* `Arena.Counts.bodies_eq` — both loops start the body in the same stores.
* `Arena.counting?_counts` — a loop that is found to count does count, if its bound and its step do
  not mention the variable itself.  One that does is found to count, too, and runs for another
  number of rounds than the range.
-/

namespace Interlingua

/-! ## The loop of three clauses -/

/-- A point in the run of a loop, with the store there. -/
inductive Moment where
  | test (s : Store)
  | body (s : Store)
  | update (s : Store)

namespace Moment

def store : Moment → Store
  | .test s | .body s | .update s => s

/-- The store that a round starts in. -/
def body? : Moment → Option Store
  | .body s => some s
  | _ => none

end Moment

namespace World

section Run

variable (world : World) (arena : Arena)

/-- The store after a variable is declared. -/
def declare (s : Store) (d : Declarator) : Option Store :=
  match d.init with
  | none => some s
  | some value => (world.eval arena value s).map fun result => result.2.set d.name result.1

/-- The store after the first clause. -/
def begin : Option NodeId → Store → Option Store
  | none, s => some s
  | some init, s =>
    match arena.node init with
    | .ok (.decl (.vars _ declarators _)) => declarators.foldlM (world.declare arena) s
    | .ok (.stmt (.assign op target value)) =>
      (world.layer arena (world.eval arena) (.assign op target value) s).map Prod.snd
    | .ok (.stmt (.expr value)) => (world.eval arena value s).map Prod.snd
    | .ok (.expr _) => (world.eval arena init s).map Prod.snd
    | _ => none

/-- Whether the second clause lets the loop go on. -/
def test : Option NodeId → Store → Option (Bool × Store)
  | none, s => some (true, s)
  | some cond, s => (world.eval arena cond s).map fun result => (result.1 != 0, result.2)

/-- The store after the third clause. -/
def advance : Option NodeId → Store → Option Store
  | none, s => some s
  | some update, s => (world.eval arena update s).map Prod.snd

/-- The moments of a run from a round on, for at most the given number of rounds.  The body is
given the number of its round, and leaves the loop where it gives no store. -/
def rounds (cond update : Option NodeId) (run : Nat → Store → Option Store) :
    Nat → Nat → Store → List Moment
  | 0, _, _ => []
  | fuel + 1, round, s =>
    .test s ::
      match world.test arena cond s with
      | none | some (false, _) => []
      | some (true, inside) =>
        .body inside ::
          match run round inside with
          | none => []
          | some outside =>
            .update outside ::
              match world.advance arena update outside with
              | none => []
              | some next => rounds cond update run fuel (round + 1) next

/-- The loop over some numbers: the stores that its rounds start in. -/
def forIn (name : String) (run : Nat → Store → Option Store) : Nat → Store → List Int → List Store
  | _, _, [] => []
  | round, s, value :: values =>
    let inside := s.set name value
    inside ::
      match run round inside with
      | none => []
      | some outside => forIn name run (round + 1) outside values

end Run

variable {world : World} {arena : Arena} {run : Nat → Store → Option Store}

/-- **What the clauses and the body preserve holds at every moment.** -/
theorem rounds_invariant {cond update : Option NodeId} {P : Store → Prop}
    (htest : ∀ s goes inside, P s → world.test arena cond s = some (goes, inside) → P inside)
    (hrun : ∀ round s outside, P s → run round s = some outside → P outside)
    (hadvance : ∀ s next, P s → world.advance arena update s = some next → P next)
    (fuel round : Nat) {s : Store} (hs : P s) :
    ∀ moment ∈ world.rounds arena cond update run fuel round s, P moment.store := by
  induction fuel generalizing round s with
  | zero => simp [rounds]
  | succ fuel ih =>
    rw [rounds]
    refine List.forall_mem_cons.2 ⟨hs, ?_⟩
    rcases htested : world.test arena cond s with _ | ⟨_ | _, inside⟩
    · simp
    · simp
    · have hinside := htest s true inside hs htested
      refine List.forall_mem_cons.2 ⟨hinside, ?_⟩
      cases hbody : run round inside with
      | none => simp
      | some outside =>
        have houtside := hrun round inside outside hinside hbody
        refine List.forall_mem_cons.2 ⟨houtside, ?_⟩
        cases hnext : world.advance arena update outside with
        | none => simp
        | some next => exact ih (round + 1) (hadvance outside next houtside hnext)

/-- The rounds of a loop over some numbers see the first of them. -/
theorem forIn_isPrefix (name : String) (round : Nat) (s : Store) (values : List Int) :
    (forIn name run round s values).map (· name) <+: values := by
  induction values generalizing round s with
  | nil => simp [forIn]
  | cons value values ih =>
    simp only [forIn, List.map_cons, Store.set_self, List.cons_prefix_cons, true_and]
    cases run round (s.set name value) with
    | none => simp
    | some outside => exact ih (round + 1) outside

/-- A body that never leaves the loop sees all of them. -/
theorem map_forIn (hrun : ∀ round s, (run round s).isSome) (name : String) (round : Nat)
    (s : Store) (values : List Int) : (forIn name run round s values).map (· name) = values := by
  induction values generalizing round s with
  | nil => rfl
  | cons value values ih =>
    obtain ⟨outside, houtside⟩ := Option.isSome_iff_exists.1 (hrun round (s.set name value))
    simp [forIn, houtside, ih]

end World

/-! ## Loops that are found to count -/

namespace Arena

variable {arena : Arena}

/-- The clauses of a loop that is found to count. -/
structure Counts (arena : Arena) (init cond update body : NodeId) (name : String) (range : Range) :
    Prop where
  start : arena.startOf? init = .ok (some (name, range.start))
  bound : arena.boundOf? name cond = .ok (some (range.descending, range.inclusive, range.stop))
  step : arena.stepOf? name range.descending update = .ok (some range.step)
  fixed : arena.isFixed name range.stop range.step body = .ok true

theorem exists_counts {init cond update : Option NodeId} {body : NodeId} {name : String}
    {range : Range} (h : arena.counting? init cond update body = .ok (some (name, range))) :
    ∃ first second third, init = some first ∧ cond = some second ∧ update = some third ∧
      arena.Counts first second third body name range := by
  unfold counting? at h
  rcases init with _ | init
  · cases h
  obtain ⟨_ | ⟨name', start⟩, hstart, h⟩ := Except.exists_of_bind h
  · cases h
  rcases cond with _ | cond
  · cases h
  obtain ⟨_ | ⟨descending, inclusive, stop⟩, hbound, h⟩ := Except.exists_of_bind h
  · cases h
  rcases update with _ | update
  · cases h
  obtain ⟨_ | step, hstep, h⟩ := Except.exists_of_bind h
  · cases h
  obtain ⟨_ | _, hfixed, h⟩ := Except.exists_of_bind h
  · cases h
  cases h
  exact ⟨init, cond, update, rfl, rfl, rfl, hstart, hbound, hstep, hfixed⟩

/-- An expression that is found to be a name. -/
theorem expr_of_isNamed {name : String} {id : NodeId} (h : arena.isNamed name id = .ok true) :
    arena.expr id = .ok (.ident name) := by
  obtain ⟨e, found, h⟩ := Except.exists_of_bind h
  cases e with
  | ident other =>
    simp only [pure, Except.pure, Except.ok.injEq, decide_eq_true_eq] at h
    rw [found, h]
  | _ => cases h

theorem expr_of_assignedName? {name : String} {target value start : NodeId}
    (h : arena.assignedName? target value = .ok (some (name, start))) :
    arena.expr target = .ok (.ident name) ∧ value = start := by
  obtain ⟨e, found, h⟩ := Except.exists_of_bind h
  cases e with
  | ident other =>
    cases h
    exact ⟨found, rfl⟩
  | _ => cases h

/-- The four forms of the first clause. -/
theorem cases_of_startOf? {init start : NodeId} {name : String}
    (h : arena.startOf? init = .ok (some (name, start))) :
    (∃ ty modifiers, arena.node init = .ok (.decl (.vars ty [⟨name, some start⟩] modifiers))) ∨
    ∃ target, arena.expr target = .ok (.ident name) ∧
      (arena.node init = .ok (.stmt (.assign .plain target start)) ∨
        arena.node init = .ok (.expr (.assign .plain target start)) ∨
        ∃ inner, arena.node init = .ok (.stmt (.expr inner)) ∧
          arena.expr inner = .ok (.assign .plain target start)) := by
  obtain ⟨node, found, h⟩ := Except.exists_of_bind h
  split at h
  · rename_i ty only modifiers
    simp only [pure, Except.pure, Except.ok.injEq, Option.map_eq_some_iff, Prod.mk.injEq] at h
    obtain ⟨value, hvalue, rfl, rfl⟩ := h
    obtain ⟨name, init⟩ := only
    cases hvalue
    exact .inl ⟨ty, modifiers, found⟩
  · obtain ⟨htarget, rfl⟩ := expr_of_assignedName? h
    exact .inr ⟨_, htarget, .inl found⟩
  · obtain ⟨htarget, rfl⟩ := expr_of_assignedName? h
    exact .inr ⟨_, htarget, .inr (.inl found)⟩
  · rename_i inner
    obtain ⟨e, hinner, h⟩ := Except.exists_of_bind h
    split at h
    · obtain ⟨htarget, rfl⟩ := expr_of_assignedName? h
      exact .inr ⟨_, htarget, .inr (.inr ⟨inner, found, hinner⟩)⟩
    · cases h
  · cases h

/-- The second clause compares the variable with the bound. -/
theorem exists_of_boundOf? {name : String} {cond stop : NodeId} {descending inclusive : Bool}
    (h : arena.boundOf? name cond = .ok (some (descending, inclusive, stop))) :
    ∃ op left, arena.expr cond = .ok (.binary op left stop) ∧
      op.bound? = some (descending, inclusive) ∧ arena.expr left = .ok (.ident name) := by
  obtain ⟨e, found, h⟩ := Except.exists_of_bind h
  cases e with
  | binary op left right =>
    cases hop : op.bound? with
    | none =>
      simp only [hop] at h
      cases h
    | some pair =>
      simp only [hop] at h
      obtain ⟨_ | _, hleft, h⟩ := Except.exists_of_bind h
      · cases h
      · cases h
        exact ⟨op, left, found, hop, expr_of_isNamed hleft⟩
  | _ => cases h

/-- The third clause steps the variable or adds to it. -/
theorem cases_of_stepOf? {name : String} {descending : Bool} {update : NodeId}
    {step : Option NodeId} (h : arena.stepOf? name descending update = .ok (some step)) :
    (∃ op operand, arena.expr update = .ok (.unary op operand) ∧ op.isStep = true ∧
      arena.expr operand = .ok (.ident name) ∧ step = none ∧
      op.stride = if descending then -1 else 1) ∨
    ∃ op target value, arena.expr update = .ok (.assign op target value) ∧
      arena.expr target = .ok (.ident name) ∧ step = some value ∧
      op.binary? = some (if descending then .sub else .add) := by
  obtain ⟨e, found, h⟩ := Except.exists_of_bind h
  cases e with
  | unary op operand =>
    obtain ⟨_ | _, hoperand, h⟩ := Except.exists_of_bind h
    · cases h
    · have hoperand := expr_of_isNamed hoperand
      refine .inl ⟨op, operand, found, ?_⟩
      cases op <;> cases descending <;> cases h <;> exact ⟨rfl, hoperand, rfl, rfl⟩
  | assign op target value =>
    obtain ⟨_ | _, htarget, h⟩ := Except.exists_of_bind h
    · cases h
    · have htarget := expr_of_isNamed htarget
      refine .inr ⟨op, target, value, found, htarget, ?_⟩
      cases op <;> cases descending <;> cases h <;> exact ⟨rfl, rfl⟩
  | _ => cases h

/-- Two stores agree on everything that the bound and the step read. -/
def Alike (arena : Arena) (range : Range) (s t : Store) : Prop :=
  ∀ bound ∈ range.bounds, ∀ name, arena.Reads bound name → s name = t name

theorem Alike.trans {range : Range} {s t u : Store} (h : arena.Alike range s t)
    (h' : arena.Alike range t u) : arena.Alike range s u := fun bound hbound name hread =>
  (h bound hbound name hread).trans (h' bound hbound name hread)

/-- Setting a variable that neither of them reads. -/
theorem alike_set {range : Range} {name : String}
    (hapart : ∀ bound ∈ range.bounds, ¬ arena.Reads bound name) (s : Store) (value : Int) :
    arena.Alike range (s.set name value) s := by
  intro bound hbound other hread
  refine Store.set_of_ne fun heq => ?_
  exact hapart bound hbound (heq ▸ hread)

namespace Counts

variable {init cond update body : NodeId} {name : String} {range : Range}

theorem isRepeatable (h : arena.Counts init cond update body name range) :
    ∀ bound ∈ range.bounds, arena.isRepeatable bound = .ok true := by
  obtain ⟨repeatable, hrepeatable, hfixed⟩ := Except.exists_of_bind h.fixed
  cases repeatable with
  | true => exact eq_true_of_allM hrepeatable
  | false => cases hfixed

/-- The body writes neither the variable nor anything that the bound and the step read. -/
theorem not_writes (h : arena.Counts init cond update body name range) {other : String}
    (hwrites : arena.Writes body other) :
    other ≠ name ∧ ∀ bound ∈ range.bounds, ¬ arena.Reads bound other := by
  obtain ⟨repeatable, hrepeatable, hfixed⟩ := Except.exists_of_bind h.fixed
  cases repeatable with
  | false => cases hfixed
  | true =>
    obtain ⟨names, hnames, hfixed⟩ := Except.exists_of_bind hfixed
    obtain ⟨written, hwritten, hfixed⟩ := Except.exists_of_bind hfixed
    cases written with
    | true => cases hfixed
    | false =>
      have hspared := not_mem_of_writes hwritten hwrites
      refine ⟨fun heq => hspared (by simp [heq]), fun bound hbound hread => hspared ?_⟩
      obtain ⟨found, hfound, hbound⟩ := exists_mem_of_mapM hnames bound hbound
      exact List.mem_cons_of_mem _ (List.mem_flatten.2 ⟨found, hfound, mem_of_reads hbound hread⟩)

/-- A body that writes only what is written in it leaves the variable, the bound and the step
alone. -/
theorem alike_of_run (h : arena.Counts init cond update body name range) {s t : Store}
    (hframe : ∀ other, s other ≠ t other → arena.Writes body other) :
    t name = s name ∧ arena.Alike range t s := by
  constructor
  · by_contra hne
    exact (h.not_writes (hframe name (Ne.symm hne))).1 rfl
  · intro bound hbound other hread
    by_contra hne
    exact (h.not_writes (hframe other (Ne.symm hne))).2 bound hbound hread

end Counts

end Arena

/-! ## The clauses, run -/

namespace World

variable {world : World} {arena : Arena} {range : Range} {name : String}

/-- The value of the step: one if there is none. -/
def stepValue (world : World) (arena : Arena) (range : Range) (s : Store) : Option Int :=
  match range.step with
  | none => some 1
  | some step => world.valueOf arena step s

theorem eval_ident {id : NodeId} (h : arena.expr id = .ok (.ident name)) (s : Store) :
    world.eval arena id s = some (s name, s) := by
  rw [eval, Arena.depthBound, evalTo, h]
  rfl

/-- A comparison goes on exactly as long as a range does. -/
theorem binary_of_bound? {op : BinaryOp}
    (hop : op.bound? = some (range.descending, range.inclusive)) {step : Int} (hstep : 0 < step)
    (i stop : Int) :
    world.binary op i stop =
      some (truth (decide (Short (range.target stop) (range.stride step) i))) := by
  unfold Short Range.target Range.stride
  generalize range.descending = descending at hop ⊢
  generalize range.inclusive = inclusive at hop ⊢
  cases op <;> cases hop <;>
    simp only [binary, Bool.false_eq_true, ↓reduceIte, hstep, Option.some.injEq,
      show ¬ 0 < -step by omega] <;>
    congr 1 <;> simp only [decide_eq_decide] <;> omega

theorem settled?_of_bound? {op : BinaryOp} {direction : Bool × Bool}
    (hop : op.bound? = some direction) (a : Int) : op.settled? a = none := by
  cases op <;> first | rfl | cases hop

end World

namespace Arena.Counts

variable {world : World} {arena : Arena} {range : Range} {name : String}
  {init cond update body : NodeId}

/-- The second clause compares the variable with the value of the bound, and does nothing else. -/
theorem eval_cond (world : World) (h : arena.Counts init cond update body name range)
    (hcond : arena.Grounded cond) (s : Store) :
    ∃ op : BinaryOp, op.bound? = some (range.descending, range.inclusive) ∧
      world.eval arena cond s = (world.valueOf arena range.stop s).bind fun stop =>
        (world.binary op (s name) stop).map (·, s) := by
  obtain ⟨op, left, found, hop, hleft⟩ := exists_of_boundOf? h.bound
  refine ⟨op, hop, ?_⟩
  have hstop := World.eval_of_isRepeatable world
    (h.isRepeatable range.stop range.stop_mem_bounds) s
  rw [World.eval_eq hcond found]
  simp only [World.layer, World.eval_ident hleft, World.settled?_of_bound? hop,
    Option.bind_eq_bind, Option.bind_some, hstop]
  cases world.valueOf arena range.stop s <;> simp [Option.map_eq_bind]

/-- The third clause moves the variable by the value of the step, and does nothing else. -/
theorem advance_eq (h : arena.Counts init cond update body name range)
    (hupdate : arena.Grounded update) (s : Store) :
    world.advance arena (some update) s = (world.stepValue arena range s).map fun step =>
      s.set name (s name + range.stride step) := by
  rcases cases_of_stepOf? h.step with ⟨op, operand, found, hop, hoperand, hnone, hstride⟩ |
    ⟨op, target, value, found, htarget, hsome, hop⟩
  · simp [World.advance, World.eval_eq hupdate found, World.layer, hop, hoperand, World.stepValue,
      hnone, hstride, Range.stride]
  · have hvalue := World.eval_of_isRepeatable world
      (h.isRepeatable value (Range.step_mem_bounds hsome)) s
    simp only [World.advance, World.eval_eq hupdate found, World.layer, htarget, hvalue, hop,
      World.stepValue, hsome, Range.stride]
    cases world.valueOf arena value s with
    | none => rfl
    | some step => cases range.descending <;> simp [World.binary, Int.sub_eq_add_neg]

/-- The first clause sets the variable to its first value. -/
theorem begin_eq (h : arena.Counts init cond update body name range)
    (hinit : arena.Grounded init) (s : Store) :
    world.begin arena (some init) s = (world.eval arena range.start s).map fun result =>
      result.2.set name result.1 := by
  rcases cases_of_startOf? h.start with ⟨ty, modifiers, found⟩ | ⟨target, htarget, found | found |
    ⟨inner, found, hinner⟩⟩
  · simp [World.begin, found, World.declare]
  · simp only [World.begin, found, World.layer, htarget]
    cases world.eval arena range.start s <;> rfl
  · simp only [World.begin, found, World.eval_eq hinit (expr_of_node found), World.layer, htarget]
    cases world.eval arena range.start s <;> rfl
  · have hgrounded : arena.Grounded inner := by
      obtain ⟨found', below⟩ := hinit
      rw [found] at found'
      cases found'
      exact below ⟨inner, "expr"⟩ (by simp [Node.children, Stmt.children])
    simp only [World.begin, found, World.eval_eq hgrounded hinner, World.layer, htarget]
    cases world.eval arena range.start s <;> rfl

/-! ### Both loops -/

variable {run : Nat → Store → Option Store} {first s : Store}

theorem valueOf_eq (h : arena.Counts init cond update body name range)
    (hs : arena.Alike range s first) :
    ∀ bound ∈ range.bounds, world.valueOf arena bound s = world.valueOf arena bound first :=
  fun bound hbound => World.valueOf_congr (h.isRepeatable bound hbound) (hs bound hbound)

theorem stepValue_eq (h : arena.Counts init cond update body name range)
    (hs : arena.Alike range s first) :
    world.stepValue arena range s = world.stepValue arena range first := by
  unfold World.stepValue
  cases hstep : range.step with
  | none => rfl
  | some step => exact h.valueOf_eq hs step (Range.step_mem_bounds hstep)

/-- Nothing that the bound and the step read ever changes while the loop runs. -/
theorem alike_rounds (h : arena.Counts init cond update body name range)
    (hcond : arena.Grounded cond) (hupdate : arena.Grounded update)
    (hapart : ∀ bound ∈ range.bounds, ¬ arena.Reads bound name)
    (hframe : ∀ round s t, run round s = some t →
      ∀ other, s other ≠ t other → arena.Writes body other)
    (fuel round : Nat) (hs : arena.Alike range s first) :
    ∀ moment ∈ world.rounds arena (some cond) (some update) run fuel round s,
      arena.Alike range moment.store first := by
  refine World.rounds_invariant (P := fun s => arena.Alike range s first) ?_ ?_ ?_ fuel round hs
  · intro s goes inside hs htest
    obtain ⟨op, -, heval⟩ := h.eval_cond world hcond s
    rw [World.test, heval] at htest
    simp only [Option.map_eq_some_iff, Option.bind_eq_some_iff, Prod.mk.injEq] at htest
    obtain ⟨_, ⟨_, _, _, _, rfl⟩, _, rfl⟩ := htest
    exact hs
  · intro round s t hs hrun
    exact (h.alike_of_run (hframe round s t hrun)).2.trans hs
  · intro s next hs hnext
    rw [h.advance_eq hupdate] at hnext
    obtain ⟨step, -, rfl⟩ := Option.map_eq_some_iff.1 hnext
    exact (alike_set hapart s _).trans hs

/-- **Both loops start the body in the same stores.**  The loop over the range is about to set the
variable to the number that it has in the other loop. -/
theorem bodies_eq (h : arena.Counts init cond update body name range)
    (hcond : arena.Grounded cond) (hupdate : arena.Grounded update)
    (hapart : ∀ bound ∈ range.bounds, ¬ arena.Reads bound name)
    (hframe : ∀ round s t, run round s = some t →
      ∀ other, s other ≠ t other → arena.Writes body other)
    {stop step : Int} (hstop : world.valueOf arena range.stop first = some stop)
    (hstep : world.stepValue arena range first = some step) (hpos : 0 < step)
    (fuel round : Nat) (i : Int) (hs : arena.Alike range s first) :
    (world.rounds arena (some cond) (some update) run fuel round (s.set name i)).filterMap
        Moment.body? =
      (World.forIn name run round s
        (progression i (range.target stop) (range.stride step))).take fuel := by
  have hne : range.stride step ≠ 0 := by
    unfold Range.stride
    split <;> omega
  induction fuel generalizing round i s with
  | zero => simp [World.rounds]
  | succ fuel ih =>
    have hinside : arena.Alike range (s.set name i) first := (alike_set hapart s i).trans hs
    obtain ⟨op, hop, heval⟩ := h.eval_cond world hcond (s.set name i)
    rw [h.valueOf_eq hinside range.stop range.stop_mem_bounds, hstop, Option.bind_some,
      World.binary_of_bound? hop hpos, Store.set_self] at heval
    rw [World.rounds, World.test, heval]
    by_cases hshort : Short (range.target stop) (range.stride step) i
    · rw [progression_of_short hne hshort]
      simp only [hshort, decide_true, truth, Option.map_some, ↓reduceIte,
        World.forIn, show ((1 : Int) != 0) = true from rfl, List.filterMap_cons, Moment.body?,
        List.take_succ_cons, List.cons.injEq, true_and]
      cases hrun : run round (s.set name i) with
      | none => simp
      | some outside =>
        obtain ⟨hname, houtside⟩ := h.alike_of_run (hframe round _ outside hrun)
        have houtside : arena.Alike range outside first := houtside.trans hinside
        simp only [h.advance_eq hupdate, h.stepValue_eq houtside, hstep, Option.map_some, hname,
          Store.set_self, List.filterMap_cons, Moment.body?]
        exact ih (round + 1) (i + range.stride step) houtside
    · rw [progression_of_not_short hne hshort]
      simp [hshort, truth, World.forIn, Moment.body?]

theorem eval_stopArgument (h : arena.Counts init cond update body name range) {stop : Int}
    (hstop : world.valueOf arena range.stop s = some stop) :
    (range.stopArgument arena).eval world arena s = some (range.target stop, s) := by
  have heval := World.eval_of_isRepeatable world
    (h.isRepeatable range.stop range.stop_mem_bounds) s
  rw [hstop] at heval
  unfold Range.stopArgument Range.target
  split
  · rw [Argument.eval_offsetOf]
    simp [Argument.eval, heval]
  · simp [Argument.eval, heval]

/-- The step is left out only if it is one. -/
theorem eval_stepArgument? (h : arena.Counts init cond update body name range) {step : Int}
    (hstep : world.stepValue arena range s = some step) :
    (range.stepArgument? arena = none ∧ range.stride step = 1) ∨
      ∃ argument, range.stepArgument? arena = some argument ∧
        argument.eval world arena s = some (range.stride step, s) := by
  unfold Range.stepArgument? Range.stride
  cases hid : range.step with
  | none =>
    simp only [World.stepValue, hid, Option.some.injEq] at hstep
    subst hstep
    cases range.descending <;> simp [Argument.eval]
  | some id =>
    simp only [World.stepValue, hid] at hstep
    have heval := World.eval_of_isRepeatable world
      (h.isRepeatable id (Range.step_mem_bounds hid)) s
    rw [hstep] at heval
    cases range.descending with
    | false => exact .inr ⟨.expr id, rfl, by simp [Argument.eval, heval]⟩
    | true =>
      refine .inr ⟨.negatedOf arena id, rfl, ?_⟩
      rw [Argument.eval_negatedOf]
      simp [Argument.eval, heval]

/-- The arguments of the call of `range`, evaluated where the loop starts. -/
theorem evalAll_arguments (h : arena.Counts init cond update body name range) {value : Int}
    {left : Store} (hstart : world.eval arena range.start s = some (value, left)) {stop step : Int}
    (hstop : world.valueOf arena range.stop left = some stop)
    (hstep : world.stepValue arena range left = some step) :
    ∃ values, Argument.evalAll world arena (range.arguments arena) s = some (values, left) ∧
      rangeOf values = progression value (range.target stop) (range.stride step) := by
  have hstopEval := h.eval_stopArgument hstop
  have hfirst : (Argument.expr range.start).eval world arena s = some (value, left) := hstart
  unfold Range.arguments
  rcases h.eval_stepArgument? hstep with ⟨hnone, hone⟩ | ⟨argument, hsome, hargument⟩
  · rw [hone, hnone]
    split
    · rename_i hzero
      rw [Argument.eval_int hzero] at hstart
      cases hstart
      exact ⟨[range.target stop], by simp [Argument.evalAll, hstopEval], rfl⟩
    · exact ⟨[value, range.target stop], by simp [Argument.evalAll, hfirst, hstopEval], rfl⟩
  · rw [hsome]
    exact ⟨[value, range.target stop, range.stride step],
      by simp [Argument.evalAll, hfirst, hstopEval, hargument], rfl⟩

end Arena.Counts

end Interlingua
