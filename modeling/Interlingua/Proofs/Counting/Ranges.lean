import Interlingua.Emit.Stmt.Python
import Interlingua.Proofs.Counting.Meaning
import Interlingua.Proofs.Jump.Fragments

/-!
# Ranges

* `progression` — the numbers of a range, with what it is before and after its stop.
* `Range.arguments` — what the call of `range` is given, with the value of each argument.
* `Python.rangeText_shown` — the text of the call shows exactly these arguments.
-/

namespace Interlingua

/-! ## Numbers -/

/-- How many strides cover a distance. -/
def strides (distance stride : Int) : Nat := ((distance + stride - 1) / stride).toNat

/-- The numbers of a range: those that are reached from the start before the stop. -/
def progression (start stop step : Int) : List Int :=
  let count := if 0 < step then strides (stop - start) step else strides (start - stop) (-step)
  (List.range count).map fun (i : Nat) => start + step * i

/-- A number is short of the stop. -/
def Short (stop step i : Int) : Prop := if 0 < step then i < stop else stop < i

instance (stop step i : Int) : Decidable (Short stop step i) :=
  inferInstanceAs (Decidable (if 0 < step then i < stop else stop < i))

theorem strides_of_nonpos {distance stride : Int} (hstride : 0 < stride) (h : distance ≤ 0) :
    strides distance stride = 0 := by
  have hlt : (distance + stride - 1) / stride < 1 := Int.ediv_lt_of_lt_mul hstride (by omega)
  simp only [strides]
  omega

theorem strides_of_pos {distance stride : Int} (hstride : 0 < stride) (h : 0 < distance) :
    strides distance stride = strides (distance - stride) stride + 1 := by
  have hshift : (distance + stride - 1) / stride =
      (distance - stride + stride - 1) / stride + 1 := by
    rw [← Int.add_mul_ediv_right _ 1 (by omega : stride ≠ 0)]
    congr 1
    omega
  have hnonneg : 0 ≤ (distance - stride + stride - 1) / stride :=
    Int.ediv_nonneg (by omega) (by omega)
  simp only [strides, hshift]
  omega

/-- A range goes on until its stop is reached. -/
theorem progression_of_short {start stop step : Int} (hstep : step ≠ 0)
    (h : Short stop step start) :
    progression start stop step = start :: progression (start + step) stop step := by
  have hcount : (if 0 < step then strides (stop - start) step else strides (start - stop) (-step)) =
      (if 0 < step then strides (stop - (start + step)) step
        else strides (start + step - stop) (-step)) + 1 := by
    unfold Short at h
    split at h
    · rename_i hpos
      rw [if_pos hpos, if_pos hpos, strides_of_pos hpos (by omega)]
      congr 2
      omega
    · rename_i hneg
      rw [if_neg hneg, if_neg hneg, strides_of_pos (by omega) (by omega)]
      congr 2
      omega
  simp only [progression, hcount, List.range_succ_eq_map, List.map_cons, List.map_map]
  refine congrArg₂ List.cons (by simp) (List.map_congr_left fun i _ => ?_)
  rw [Function.comp_apply, Int.natCast_succ, Int.mul_add, Int.mul_one]
  omega

theorem progression_of_not_short {start stop step : Int} (hstep : step ≠ 0)
    (h : ¬ Short stop step start) : progression start stop step = [] := by
  unfold Short at h
  split at h
  · rename_i hpos
    simp [progression, hpos, strides_of_nonpos hpos (show stop - start ≤ 0 by omega)]
  · rename_i hneg
    simp [progression, hneg,
      strides_of_nonpos (show 0 < -step by omega) (show start - stop ≤ 0 by omega)]

/-- The numbers that a call of `range` gives for the values of its arguments. -/
def rangeOf : List Int → List Int
  | [stop] => progression 0 stop 1
  | [start, stop] => progression start stop 1
  | [start, stop, step] => progression start stop step
  | _ => []

namespace Range

/-- The expressions that have to stay what they are while the loop runs. -/
def bounds (range : Range) : List NodeId := range.stop :: range.step.toList

theorem stop_mem_bounds (range : Range) : range.stop ∈ range.bounds := List.mem_cons_self

theorem step_mem_bounds {range : Range} {step : NodeId} (h : range.step = some step) :
    step ∈ range.bounds :=
  List.mem_cons_of_mem _ (Option.mem_toList.2 h)

/-- The first number past the end. -/
def target (range : Range) (stop : Int) : Int :=
  if range.inclusive then if range.descending then stop - 1 else stop + 1 else stop

/-- What is added to the variable in each round. -/
def stride (range : Range) (step : Int) : Int := if range.descending then -step else step

end Range

/-! ## Arguments -/

/-- An argument of a call of `range`. -/
inductive Argument where
  | literal (value : Int)
  | expr (id : NodeId)
  /-- An expression more or less one. -/
  | offset (id : NodeId) (less : Bool)
  | negated (id : NodeId)

namespace Argument

def offsetOf (arena : Arena) (id : NodeId) (less : Bool) : Argument :=
  match arena.expr id with
  | .ok (.int n) => .literal (if less then n - 1 else n + 1)
  | _ => .offset id less

def negatedOf (arena : Arena) (id : NodeId) : Argument :=
  match arena.expr id with
  | .ok (.int n) => .literal (-n)
  | _ => .negated id

/-- A text shows an argument: a number is written out, and of an expression it is what is printed
for it, somewhere, for its sum with one or for its negation. -/
def Shown (view : View) : Argument → String → Prop
  | .literal value, text => text = Text.numeral value
  | .expr id, text => ∃ before after, view.expr id before = .ok text after
  | .offset id less, text => ∃ form operand before after,
      Python.binary (if less then .sub else .add) = some form ∧
        view.site.operand form id .left before = .ok operand after ∧
        text = operand ++ " " ++ form.value ++ " 1"
  | .negated id, text => ∃ before after, view.site.unary .neg id before = .ok text after

/-- The value of an argument and the store it leaves. -/
def eval (world : World) (arena : Arena) : Argument → Store → Option (Int × Store)
  | .literal value, s => some (value, s)
  | .expr id, s => world.eval arena id s
  | .offset id less, s =>
    (world.eval arena id s).map fun result =>
      (if less then result.1 - 1 else result.1 + 1, result.2)
  | .negated id, s => (world.eval arena id s).map fun result => (-result.1, result.2)

/-- The values of arguments, each evaluated in the store that those before it leave. -/
def evalAll (world : World) (arena : Arena) : List Argument → Store → Option (List Int × Store)
  | [], s => some ([], s)
  | argument :: rest, s => do
    let (value, s) ← argument.eval world arena s
    let (values, s) ← evalAll world arena rest s
    return (value :: values, s)

variable {world : World} {arena : Arena}

theorem eval_int {id : NodeId} {n : Int} (h : arena.expr id = .ok (.int n)) (s : Store) :
    world.eval arena id s = some (n, s) := by
  rw [World.eval, Arena.depthBound, World.evalTo, h]
  rfl

/-- Computing with a whole number beforehand gives the same value. -/
theorem eval_offsetOf (id : NodeId) (less : Bool) (s : Store) :
    (offsetOf arena id less).eval world arena s = (offset id less).eval world arena s := by
  unfold offsetOf
  split
  · rename_i n hn
    simp [eval, eval_int hn]
  · rfl

theorem eval_negatedOf (id : NodeId) (s : Store) :
    (negatedOf arena id).eval world arena s = (negated id).eval world arena s := by
  unfold negatedOf
  split
  · rename_i n hn
    simp [eval, eval_int hn]
  · rfl

end Argument

namespace Range

def stopArgument (arena : Arena) (range : Range) : Argument :=
  if range.inclusive then .offsetOf arena range.stop range.descending else .expr range.stop

def stepArgument? (arena : Arena) (range : Range) : Option Argument :=
  match range.step, range.descending with
  | some step, true => some (.negatedOf arena step)
  | some step, false => some (.expr step)
  | none, true => some (.literal (-1))
  | none, false => none

/-- The arguments of the call of `range`: the start is left out where it is zero and the step is
one. -/
def arguments (arena : Arena) (range : Range) : List Argument :=
  match range.stepArgument? arena, arena.expr range.start with
  | none, .ok (.int 0) => [range.stopArgument arena]
  | step, _ => .expr range.start :: range.stopArgument arena :: step.toList

end Range

/-! ## The text of a range -/

namespace Python

variable {view : View} {range : Range} {text : String} {before after : Scope}

/-- A reference that is followed leaves the scope alone. -/
theorem eq_of_follow {α : Type} {found : Except Fault α} {a : α}
    (h : (liftM found : Render α) before = .ok a after) : found = .ok a ∧ before = after := by
  cases found with
  | error fault => cases h
  | ok found =>
    cases h
    exact ⟨rfl, rfl⟩

theorem offset_shown {id : NodeId} {less : Bool} (h : offset view id less before = .ok text after) :
    (Argument.offsetOf view.arena id less).Shown view text := by
  obtain ⟨e, between, he, h⟩ := exists_of_bind h
  obtain ⟨found, rfl⟩ := eq_of_follow he
  unfold Argument.offsetOf
  rw [found]
  split at h
  · cases h
    rfl
  · rename_i hne
    have hshown : (Argument.offset id less).Shown view text := by
      cases hform : binary (if less then .sub else .add) with
      | none =>
        simp only [hform] at h
        cases h
      | some form =>
        simp only [hform] at h
        obtain ⟨operand, between, hoperand, h⟩ := exists_of_bind h
        cases h
        exact ⟨form, operand, before, _, hform, hoperand, rfl⟩
    cases e with
    | int n => exact (hne n rfl).elim
    | _ => exact hshown

theorem negated_shown {id : NodeId} (h : negated view id before = .ok text after) :
    (Argument.negatedOf view.arena id).Shown view text := by
  obtain ⟨e, between, he, h⟩ := exists_of_bind h
  obtain ⟨found, rfl⟩ := eq_of_follow he
  unfold Argument.negatedOf
  rw [found]
  cases e with
  | int n =>
    cases h
    rfl
  | _ => exact ⟨before, after, h⟩

theorem rangeStop_shown (h : rangeStop view range before = .ok text after) :
    (range.stopArgument view.arena).Shown view text := by
  unfold rangeStop at h
  unfold Range.stopArgument
  split at h
  · rename_i hinclusive
    rw [if_pos hinclusive]
    exact offset_shown h
  · rename_i hexclusive
    rw [if_neg hexclusive]
    exact ⟨before, after, h⟩

theorem rangeStep_shown {text? : Option String}
    (h : rangeStep view range before = .ok text? after) :
    Option.Rel (Argument.Shown view) (range.stepArgument? view.arena) text? := by
  cases hstep : range.step <;> cases hdescending : range.descending <;>
    simp only [rangeStep, Range.stepArgument?, hstep, hdescending] at h ⊢
  case none.false =>
    cases h
    exact .none
  case none.true =>
    cases h
    exact .some (show "-1" = Text.numeral (-1) by decide)
  case some.false =>
    obtain ⟨text, between, htext, h⟩ := exists_of_bind h
    cases h
    exact .some ⟨before, _, htext⟩
  case some.true =>
    obtain ⟨text, between, htext, h⟩ := exists_of_bind h
    cases h
    exact .some (negated_shown htext)

theorem forall₂_toList {α β : Type} {related : α → β → Prop} {a : Option α} {b : Option β}
    (h : Option.Rel related a b) : List.Forall₂ related a.toList b.toList := by
  cases h with
  | some h => exact .cons h .nil
  | none => exact .nil

/-- **The call of `range` shows its arguments.** -/
theorem rangeText_shown (h : rangeText view range before = .ok text after) :
    ∃ texts, text = "range" ++ parenthesized (commas texts) ∧
      List.Forall₂ (Argument.Shown view) (range.arguments view.arena) texts := by
  obtain ⟨stop, afterStop, hstop, h⟩ := exists_of_bind h
  obtain ⟨step, afterStep, hstep, h⟩ := exists_of_bind h
  obtain ⟨start, between, hstart, h⟩ := exists_of_bind h
  obtain ⟨found, rfl⟩ := eq_of_follow hstart
  have hshownStop := rangeStop_shown hstop
  have hshownStep := rangeStep_shown hstep
  by_cases hshort : step = none ∧ start = .int 0
  · obtain ⟨rfl, rfl⟩ := hshort
    have hnone : range.stepArgument? view.arena = none := by
      cases harg : range.stepArgument? view.arena with
      | none => rfl
      | some argument =>
        rw [harg] at hshownStep
        cases hshownStep
    cases h
    refine ⟨[stop], by simp [commas], ?_⟩
    simp only [Range.arguments, hnone, found]
    exact .cons hshownStop .nil
  · have hlong : (do
        let first ← view.expr range.start
        return "range" ++ parenthesized (commas (first :: stop :: step.toList)) : Render String)
          afterStep = .ok text after := by
      split at h
      · exact (hshort ⟨rfl, rfl⟩).elim
      · exact h
    obtain ⟨first, between, hfirst, h⟩ := exists_of_bind hlong
    cases h
    refine ⟨first :: stop :: step.toList, rfl, ?_⟩
    have hall : List.Forall₂ (Argument.Shown view)
        (.expr range.start :: range.stopArgument view.arena ::
          (range.stepArgument? view.arena).toList) (first :: stop :: step.toList) :=
      .cons ⟨_, _, hfirst⟩ (.cons hshownStop (forall₂_toList hshownStep))
    unfold Range.arguments
    split
    · rename_i hnone hzero
      rw [found] at hzero
      cases hzero
      rw [hnone] at hshownStep
      cases hshownStep
      exact (hshort ⟨rfl, rfl⟩).elim
    · exact hall

end Python

end Interlingua
