import Interlingua.Scope.Basic

/-!
# What is done to a scope

Frames are opened and closed, and names are written, in any order; what is refused changes nothing.
All writing goes to the innermost frame, so a frame hides what is done inside it from the frames
around it.

* `Scope.Op`, `Scope.run` — operations, and a run of them.
* `Scope.Within` — a scope in which frames have been opened; `Within.step` is what one operation
  makes of it, and `Within.run` what a run does.
* `Scope.Counted` — the depth is the number of frames inside the root frame, in every scope that a
  run comes to.
* `Scope.run_returns` — a run inside a frame, once its frames are closed, leaves the scope that it
  began in.
-/

namespace Interlingua

namespace Scope

variable {base scope : Scope} {n remaining : Nat}

/-! ## Operations -/

/-- What can be done to a scope. -/
inductive Op where
  | enter
  | leave (mustHaveOuter : Bool)
  /-- A variable is declared, or given another type. -/
  | setVariable (name : String) (ty : Ty)
  | setMethod (name : String) (ret : Ty)
  | changeVariable (name : String) (ty : Ty) (create : Bool)
  deriving DecidableEq, Repr

namespace Op

/-- Does it, or refuses to. -/
def apply (op : Op) (scope : Scope) : Except ScopeError Scope :=
  match op with
  | .enter => .ok scope.enter
  | .leave mustHaveOuter => scope.leave mustHaveOuter
  | .setVariable name ty => .ok (scope.setVariable name ty)
  | .setMethod name ret => .ok (scope.setMethod name ret)
  | .changeVariable name ty create => scope.changeVariable name ty create

/-- The scope afterwards; what is refused leaves it as it was. -/
def after (op : Op) (scope : Scope) : Scope :=
  match op.apply scope with
  | .ok after => after
  | .error _ => scope

/-- Where some frames have been opened, the number of those that are open afterwards. -/
def opened (op : Op) (n : Nat) : Nat :=
  match op with
  | .enter => n + 1
  | .leave _ => n - 1
  | .setVariable .. | .setMethod .. | .changeVariable .. => n

/-- The number of frames open after some operations; nothing if one of them comes when all frames
are closed. -/
def openAfter? : Nat → List Op → Option Nat
  | n, [] => some n
  | 0, _ :: _ => none
  | n + 1, op :: rest => openAfter? (op.opened (n + 1)) rest

theorem after_of_ok (op : Op) {result : Scope} (h : op.apply scope = .ok result) :
    op.after scope = result := by
  unfold after
  rw [h]

/-- **What is refused changes nothing.** -/
theorem after_of_error (op : Op) {error : ScopeError} (h : op.apply scope = .error error) :
    op.after scope = scope := by
  unfold after
  rw [h]

/-- An operation opens a frame, or it closes one, or it writes the innermost one at most. -/
theorem after_cases (op : Op) (scope : Scope) :
    op = .enter ∨ (∃ mustHaveOuter, op = .leave mustHaveOuter) ∨
      (∀ n, op.opened n = n) ∧ (op.after scope).around = scope.around := by
  cases op with
  | enter => exact .inl rfl
  | leave mustHaveOuter => exact .inr (.inl ⟨mustHaveOuter, rfl⟩)
  | setVariable name ty => exact .inr (.inr ⟨fun _ => rfl, rfl⟩)
  | setMethod name ret => exact .inr (.inr ⟨fun _ => rfl, rfl⟩)
  | changeVariable name ty create =>
    refine .inr (.inr ⟨fun _ => rfl, ?_⟩)
    by_cases hallowed : (create || scope.hasVariable name) = true
    · rw [after_of_ok (changeVariable name ty create) (if_pos hallowed)]
      rfl
    · rw [after_of_error (changeVariable name ty create) (if_neg hallowed)]

end Op

/-- Does one thing after another. -/
def run (scope : Scope) (ops : List Op) : Scope := ops.foldl (fun scope op => op.after scope) scope

/-- Closes some frames. -/
def leaveAll : Nat → Scope → Except ScopeError Scope
  | 0, scope => .ok scope
  | n + 1, scope => scope.leave true >>= leaveAll n

/-! ## Frames inside a scope -/

/-- Some frames have been opened in a scope, each in what was then the scope; the innermost one may
have been written since. -/
inductive Within (base : Scope) : Nat → Scope → Prop
  | base : Within base 0 base
  | frame {n : Nat} {below inside : Scope} (h : Within base n below)
      (haround : inside.around = below.enter.around) : Within base (n + 1) inside

namespace Within

/-- Inside a frame, every operation leaves the frames around it alone. -/
theorem step (h : base.Within (n + 1) scope) (op : Op) :
    base.Within (op.opened (n + 1)) (op.after scope) := by
  obtain rfl | ⟨mustHaveOuter, rfl⟩ | ⟨hopened, hkeeps⟩ := op.after_cases scope
  · exact .frame h rfl
  · cases h with
    | @frame _ below _ hbelow haround =>
      rw [Op.after_of_ok (.leave mustHaveOuter) (leave_of_around haround mustHaveOuter)]
      exact hbelow
  · rw [hopened]
    cases h with
    | frame hbelow haround => exact .frame hbelow (hkeeps.trans haround)

/-- So does a run that does nothing after the last of the frames is closed. -/
theorem run {ops : List Op} (h : base.Within n scope)
    (hopen : Op.openAfter? n ops = some remaining) : base.Within remaining (scope.run ops) := by
  induction ops generalizing n scope with
  | nil =>
    cases hopen
    exact h
  | cons op rest ih =>
    cases n with
    | zero => cases hopen
    | succ n => exact ih (h.step op) hopen

/-- The frames that are open can be closed, which gives back the scope they were opened in. -/
theorem leaveAll (h : base.Within n scope) : Scope.leaveAll n scope = .ok base := by
  induction h with
  | base => rfl
  | frame _ haround ih =>
    rw [Scope.leaveAll, leave_of_around haround]
    exact ih

theorem depth_eq (h : base.Within n scope) : scope.depth = base.depth + n := by
  induction h with
  | base => rfl
  | @frame n below inside _ haround ih =>
    have hdepth : inside.depth = below.depth + 1 := congrArg Prod.snd haround
    omega

end Within

/-! ## The depth -/

/-- The depth counts the frames inside the root frame. -/
def Counted (scope : Scope) : Prop := scope.depth = scope.outer.length

namespace Counted

theorem step (h : scope.Counted) (op : Op) : (op.after scope).Counted := by
  unfold Counted at h
  obtain rfl | ⟨mustHaveOuter, rfl⟩ | ⟨-, hkeeps⟩ := op.after_cases scope
  · change scope.depth + 1 = scope.outer.length + 1
    rw [h]
  · unfold Op.after Op.apply Scope.leave
    cases houter : scope.outer with
    | nil => cases mustHaveOuter <;> exact h
    | cons frame rest =>
      rw [houter, List.length_cons] at h
      change scope.depth - 1 = rest.length
      omega
  · have hdepth : (op.after scope).depth = scope.depth := congrArg Prod.snd hkeeps
    have houter : (op.after scope).outer = scope.outer := congrArg Prod.fst hkeeps
    unfold Counted
    rw [hdepth, houter, h]

theorem run (h : scope.Counted) (ops : List Op) : (scope.run ops).Counted := by
  induction ops generalizing scope with
  | nil => exact h
  | cons op rest ih => exact ih (h.step op)

/-- The root frame is the only one that cannot be closed. -/
theorem leave_eq_error_iff (h : scope.Counted) :
    scope.leave true = .error .leaveRoot ↔ scope.depth = 0 := by
  unfold Counted at h
  unfold Scope.leave
  cases houter : scope.outer with
  | nil => simp [h, houter]
  | cons frame rest => simp [h, houter]

/-- An attempt to close the root frame changes nothing. -/
theorem after_leave (h : scope.Counted) (hroot : scope.depth = 0) (mustHaveOuter : Bool) :
    (Op.leave mustHaveOuter).after scope = scope := by
  have houter : scope.outer = [] := List.eq_nil_of_length_eq_zero (h.symm.trans hroot)
  unfold Op.after Op.apply Scope.leave
  rw [houter]
  cases mustHaveOuter <;> rfl

end Counted

/-! ## Runs -/

/-- **What is done inside a frame never reaches the frames around it.**  A run that begins by
opening a frame, and does nothing after that frame is closed, gives back the scope it began in when
the frames that are still open are closed.  In every scope that can be reached the depth is the
number of frames inside the root frame, and closing a frame fails at depth zero only, where it
changes nothing. -/
theorem run_returns :
    (∀ (scope : Scope) (ops : List Op) (remaining : Nat), Op.openAfter? 1 ops = some remaining →
      (scope.run (.enter :: ops)).depth = scope.depth + remaining ∧
        leaveAll remaining (scope.run (.enter :: ops)) = .ok scope) ∧
    ∀ ops : List Op,
      let reached := ({} : Scope).run ops
      reached.frames.length = reached.depth + 1 ∧
        (reached.leave true = .error .leaveRoot ↔ reached.depth = 0) ∧
        (∀ error, reached.leave true = .error error → error = .leaveRoot) ∧
        (reached.depth = 0 →
          ∀ mustHaveOuter, (Op.leave mustHaveOuter).after reached = reached) := by
  constructor
  · intro scope ops remaining hopen
    have hentered : scope.Within 1 scope.enter := .frame .base rfl
    have hwithin : scope.Within remaining (scope.enter.run ops) := hentered.run hopen
    exact ⟨hwithin.depth_eq, hwithin.leaveAll⟩
  · intro ops reached
    have hfresh : ({} : Scope).Counted := rfl
    have hcounted : reached.Counted := hfresh.run ops
    refine ⟨?_, hcounted.leave_eq_error_iff, fun error herror => ?_, hcounted.after_leave⟩
    · change reached.outer.length + 1 = reached.depth + 1
      rw [hcounted]
    · unfold Scope.leave at herror
      cases houter : reached.outer with
      | nil =>
        rw [houter] at herror
        cases herror
        rfl
      | cons frame rest =>
        rw [houter] at herror
        cases herror

/-- A variable is given another type two frames further in, and one that is not visible is refused;
the inner one of the frames is closed. -/
theorem run_returns_shadowed :
    let scope : Scope := Scope.setVariable {} "x" .unknown
    let ops : List Op := [.setMethod "f" .bool, .changeVariable "y" .str false, .enter,
      .changeVariable "x" .float false, .enter, .setVariable "x" .int, .leave true]
    Op.openAfter? 1 ops = some 2 ∧ (scope.run (.enter :: ops)).varType? "x" = some .float ∧
      leaveAll 2 (scope.run (.enter :: ops)) = .ok scope := by
  intro scope ops
  have hopen : Op.openAfter? 1 ops = some 2 := rfl
  have hseen : (scope.run (.enter :: ops)).varType? "x" = some .float := rfl
  exact ⟨hopen, hseen, (run_returns.1 scope ops 2 hopen).2⟩

end Scope

end Interlingua
