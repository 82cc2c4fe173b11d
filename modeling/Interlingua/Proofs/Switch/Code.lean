import Interlingua.Proofs.Loop.Layout
import Mathlib.Data.List.Forall2

/-!
# Switches, as a tree means them and as they are written

The bodies of a switch are sequences of calls.

* `Arm`, `Arm.run` — the cases of a switch in a tree, and the calls that a value of the subject
  leads to.
* `Mark` — what stands on the lines of a printed switch.  `Mark.jumped` is what Java and C++ do with
  them: they jump to the label of the value, or else to the default, and run on up to a `break`.
  `Mark.matched` is what Python does: it runs the suite of the first case that matches.
* `Mark.jumped_groups`, `Mark.matched_marksOf` — both do what the tree means, if the default is the
  last of the cases.
-/

namespace Interlingua.Switch

/-! ## Cases in a tree -/

/-- How a case is selected and left. -/
inductive Label where
  | leaves (value : Int)
  | falls (value : Int)
  | default
  deriving DecidableEq

def Label.value? : Label → Option Int
  | .leaves value | .falls value => some value
  | .default => none

@[simp] theorem Label.value?_leaves (value : Int) : (leaves value).value? = some value := rfl

@[simp] theorem Label.value?_falls (value : Int) : (falls value).value? = some value := rfl

@[simp] theorem Label.value?_default : Label.default.value? = none := rfl

/-- A case, with the calls in its body as they are written. -/
structure Arm where
  label : Label
  body : List String

namespace Arm

/-- The calls from a case on: after a case that falls through, those of the next one follow. -/
def onward : List Arm → List String
  | [] => []
  | arm :: rest =>
    arm.body ++
      match arm.label with
      | .falls _ => onward rest
      | .leaves _ | .default => []

/-- The calls from the first case on that has a label of some kind. -/
def startingAt? (kind : Label → Bool) : List Arm → Option (List String)
  | [] => none
  | arm :: rest => if kind arm.label then some (onward (arm :: rest)) else startingAt? kind rest

/-- The calls that a value leads to: from its case on, or else from the default on. -/
def run (arms : List Arm) (subject : Int) : List String :=
  match startingAt? (·.value? == some subject) arms, startingAt? (· == .default) arms with
  | some calls, _ => calls
  | none, some calls => calls
  | none, none => []

/-- The default is the last of the cases, if there is one. -/
def DefaultLast (arms : List Arm) : Prop := ∀ arm ∈ arms.dropLast, arm.label ≠ .default

theorem DefaultLast.tail {arm : Arm} {rest : List Arm} (h : DefaultLast (arm :: rest)) :
    DefaultLast rest := by
  intro other hother
  cases rest with
  | nil => cases hother
  | cons next rest => exact h other (by simp [List.dropLast, hother])

theorem DefaultLast.eq_nil {arm : Arm} {rest : List Arm} (h : DefaultLast (arm :: rest))
    (hdefault : arm.label = .default) : rest = [] := by
  cases rest with
  | nil => rfl
  | cons next rest => exact absurd hdefault (h arm (by simp [List.dropLast]))

end Arm

/-! ## Lines of a printed switch -/

/-- What stands on a line.  A label without values takes every value. -/
inductive Mark where
  | label (values : Option (List Int))
  | call (text : String)
  | leave
  /-- Nothing that does anything: a brace, an empty suite, the end of a header. -/
  | idle
  deriving DecidableEq

namespace Mark

/-- The calls from a line on, up to a `break`. -/
def onward : List Mark → List String
  | [] | .leave :: _ => []
  | .call text :: rest => text :: onward rest
  | .label _ :: rest | .idle :: rest => onward rest

@[simp] theorem onward_leave (rest : List Mark) : onward (.leave :: rest) = [] := rfl

@[simp] theorem onward_call (text : String) (rest : List Mark) :
    onward (.call text :: rest) = text :: onward rest := rfl

@[simp] theorem onward_label (values : Option (List Int)) (rest : List Mark) :
    onward (.label values :: rest) = onward rest := rfl

@[simp] theorem onward_idle (rest : List Mark) : onward (.idle :: rest) = onward rest := rfl

/-- The calls from the first label of some kind on. -/
def jumpedTo? (kind : Option (List Int) → Bool) : List Mark → Option (List String)
  | [] => none
  | .label values :: rest => if kind values then some (onward rest) else jumpedTo? kind rest
  | .call _ :: rest | .leave :: rest | .idle :: rest => jumpedTo? kind rest

/-- A jump to the label of a value, or else to the default. -/
def jumped (marks : List Mark) (subject : Int) : List String :=
  match jumpedTo? (·.any (·.contains subject)) marks, jumpedTo? (·.isNone) marks with
  | some calls, _ => calls
  | none, some calls => calls
  | none, none => []

/-- The calls of a suite, which ends where the next label stands. -/
def suite : List Mark → List String
  | [] | .label _ :: _ => []
  | .call text :: rest => text :: suite rest
  | .leave :: rest | .idle :: rest => suite rest

/-- The suite of the first label that matches a value. -/
def matched : List Mark → Int → List String
  | [], _ => []
  | .label values :: rest, subject =>
    if values.all (·.contains subject) then suite rest else matched rest subject
  | .call _ :: rest, subject | .leave :: rest, subject | .idle :: rest, subject =>
    matched rest subject

end Mark

/-! ## Jumps -/

/-- The `break` that a case ends with.  The default has none. -/
def Label.exit : Label → List Mark
  | .leaves _ => [.leave]
  | .falls _ | .default => []

@[simp] theorem Label.exit_leaves (value : Int) : (leaves value).exit = [.leave] := rfl

@[simp] theorem Label.exit_falls (value : Int) : (falls value).exit = [] := rfl

@[simp] theorem Label.exit_default : Label.default.exit = [] := rfl

/-- The lines of a case in a language with braces. -/
def Arm.Grouped (arm : Arm) (group : List Mark) : Prop :=
  ∃ closing, group = .label (arm.label.value?.map fun value => [value]) ::
    (arm.body.map .call ++ arm.label.exit ++ List.replicate closing .idle)

namespace Mark

theorem onward_calls (calls : List String) (rest : List Mark) :
    onward (calls.map .call ++ rest) = calls ++ onward rest := by
  induction calls with
  | nil => rfl
  | cons text calls ih => rw [List.map_cons, List.cons_append, onward_call, ih, List.cons_append]

theorem onward_idles (count : Nat) (rest : List Mark) :
    onward (List.replicate count .idle ++ rest) = onward rest := by
  induction count with
  | zero => rfl
  | succ count ih => rw [List.replicate_succ, List.cons_append, onward_idle, ih]

theorem onward_replicate_idle (count : Nat) : onward (List.replicate count .idle) = [] := by
  have h := onward_idles count []
  rwa [List.append_nil] at h

/-- Only labels are jumped to. -/
theorem jumpedTo?_of_not_label {kind : Option (List Int) → Bool} {skipped : List Mark}
    (h : ∀ values, .label values ∉ skipped) (rest : List Mark) :
    jumpedTo? kind (skipped ++ rest) = jumpedTo? kind rest := by
  induction skipped with
  | nil => rfl
  | cons mark skipped ih =>
    have hrest := ih fun values hmem => h values (List.mem_cons_of_mem _ hmem)
    cases mark with
    | label values => exact absurd (List.mem_cons_self ..) (h values)
    | _ => exact hrest

variable {arms : List Arm} {groups : List (List Mark)}

theorem onward_groups (h : List.Forall₂ Arm.Grouped arms groups) (hlast : Arm.DefaultLast arms)
    (closing : Nat) :
    onward (groups.flatten ++ List.replicate closing .idle) = Arm.onward arms := by
  induction h with
  | nil => exact onward_replicate_idle closing
  | @cons arm group arms groups hgroup hgroups ih =>
    obtain ⟨count, rfl⟩ := hgroup
    have hrest := ih hlast.tail
    cases hlabel : arm.label with
    | leaves value =>
      simp [Arm.onward, hlabel, onward_calls]
    | falls value =>
      simp [Arm.onward, hlabel, onward_calls, onward_idles, hrest]
    | default =>
      -- nothing follows the default, so it makes no difference that it runs on
      obtain rfl := hlast.eq_nil hlabel
      cases hgroups
      simp [Arm.onward, hlabel, onward_calls, onward_replicate_idle]

theorem jumpedTo?_groups {kind : Option (List Int) → Bool} (kind' : Label → Bool)
    (hkind : ∀ label : Label, kind (label.value?.map fun value => [value]) = kind' label)
    (h : List.Forall₂ Arm.Grouped arms groups) (hlast : Arm.DefaultLast arms) (closing : Nat) :
    jumpedTo? kind (groups.flatten ++ List.replicate closing .idle) =
      Arm.startingAt? kind' arms := by
  induction h with
  | nil =>
    have hidle : ∀ values, Mark.label values ∉ List.replicate closing Mark.idle := by simp
    simpa [jumpedTo?, Arm.startingAt?] using jumpedTo?_of_not_label hidle []
  | @cons arm group arms groups hgroup hgroups ih =>
    have honward := onward_groups (.cons hgroup hgroups) hlast closing
    obtain ⟨count, rfl⟩ := hgroup
    rw [List.flatten_cons, List.cons_append, List.cons_append, onward_label] at honward
    rw [List.flatten_cons, List.cons_append, List.cons_append, jumpedTo?, hkind, Arm.startingAt?,
      honward, List.append_assoc, jumpedTo?_of_not_label, ih hlast.tail]
    intro values
    cases arm.label <;> simp

/-- **Jumping does what the tree means.** -/
theorem jumped_groups (h : List.Forall₂ Arm.Grouped arms groups) (hlast : Arm.DefaultLast arms)
    (opening closing : Nat) (subject : Int) :
    jumped (List.replicate opening .idle ++ groups.flatten ++ List.replicate closing .idle)
      subject = Arm.run arms subject := by
  have hidle : ∀ values, Mark.label values ∉ List.replicate opening Mark.idle := by simp
  rw [jumped, List.append_assoc, jumpedTo?_of_not_label hidle, jumpedTo?_of_not_label hidle,
    jumpedTo?_groups (·.value? == some subject) ?_ h hlast,
    jumpedTo?_groups (· == .default) ?_ h hlast, Arm.run]
  · intro label
    cases label <;> simp
  · intro label
    cases label <;> simp [Bool.beq_eq_decide_eq, eq_comm]

end Mark

/-- The calls on the lines are those of the bodies. -/
theorem exists_arm_of_call_mem_groups {arms : List Arm} {groups : List (List Mark)}
    (h : List.Forall₂ Arm.Grouped arms groups) {text : String}
    (hmem : .call text ∈ groups.flatten) : ∃ arm ∈ arms, text ∈ arm.body := by
  induction h with
  | nil => cases hmem
  | @cons arm group arms groups hgroup _ ih =>
    rw [List.flatten_cons, List.mem_append] at hmem
    rcases hmem with hmem | hmem
    · obtain ⟨closing, rfl⟩ := hgroup
      refine ⟨arm, by simp, ?_⟩
      cases hlabel : arm.label <;> simpa [hlabel] using hmem
    · obtain ⟨found, hfound, htext⟩ := ih hmem
      exact ⟨found, by simp [hfound], htext⟩

/-! ## Matches -/

/-- The lines of a suite. -/
def suiteOf (body : List String) : List Mark :=
  if body.isEmpty then [.idle] else body.map .call

/-- The lines of cases, given the values that fall into the first of them. -/
def marksOf (pending : List Int) : List Arm → List Mark
  | [] => if pending.isEmpty then [] else [.label (some pending), .idle]
  | arm :: rest =>
    match arm.label with
    | .falls value => marksOf (pending ++ [value]) rest
    | .leaves value => .label (some (pending ++ [value])) :: (suiteOf arm.body ++ marksOf [] rest)
    | .default => .label none :: (suiteOf arm.body ++ marksOf [] rest)

theorem marksOf_cons (pending : List Int) (arm : Arm) (rest : List Arm) :
    marksOf pending (arm :: rest) =
      match arm.label with
      | .falls value => marksOf (pending ++ [value]) rest
      | .leaves value =>
        .label (some (pending ++ [value])) :: (suiteOf arm.body ++ marksOf [] rest)
      | .default => .label none :: (suiteOf arm.body ++ marksOf [] rest) := rfl

namespace Mark

theorem matched_suiteOf (body : List String) (rest : List Mark) (subject : Int) :
    matched (suiteOf body ++ rest) subject = matched rest subject := by
  unfold suiteOf
  split
  · rfl
  · rename_i hbody
    clear hbody
    induction body with
    | nil => rfl
    | cons text body ih => exact ih

theorem suite_marksOf (arms : List Arm) (pending : List Int) :
    suite (marksOf pending arms) = [] := by
  induction arms generalizing pending with
  | nil => cases pending <;> rfl
  | cons arm rest ih =>
    rw [marksOf_cons]
    split
    · exact ih _
    · rfl
    · rfl

/-- A suite is followed by a label or by nothing. -/
theorem suite_suiteOf (body : List String) (arms : List Arm) :
    suite (suiteOf body ++ marksOf [] arms) = body := by
  have hcalls : ∀ calls : List String,
      suite (calls.map .call ++ marksOf [] arms) = calls := by
    intro calls
    induction calls with
    | nil => exact suite_marksOf arms []
    | cons text calls ih => rw [List.map_cons, List.cons_append, suite, ih]
  unfold suiteOf
  split
  · rename_i hempty
    rw [List.isEmpty_iff.1 hempty]
    exact suite_marksOf arms []
  · exact hcalls body

/-- The calls on the lines are those of the bodies. -/
theorem exists_arm_of_call_mem_marksOf {arms : List Arm} {pending : List Int} {text : String}
    (hmem : .call text ∈ marksOf pending arms) : ∃ arm ∈ arms, text ∈ arm.body := by
  induction arms generalizing pending with
  | nil =>
    cases pending with
    | nil => cases hmem
    | cons first pending =>
      rcases List.mem_pair.1 hmem with hlabel | hidle
      · cases hlabel
      · cases hidle
  | cons arm rest ih =>
    have hsuite : ∀ values,
        .call text ∈ Mark.label values :: (suiteOf arm.body ++ marksOf [] rest) →
          ∃ arm' ∈ arm :: rest, text ∈ arm'.body := by
      intro values hmem
      simp only [List.mem_cons, reduceCtorEq, List.mem_append, false_or] at hmem
      rcases hmem with hmem | hmem
      · refine ⟨arm, by simp, ?_⟩
        unfold suiteOf at hmem
        split at hmem
        · simp at hmem
        · simpa using hmem
      · obtain ⟨found, hfound, htext⟩ := ih hmem
        exact ⟨found, by simp [hfound], htext⟩
    rw [marksOf_cons] at hmem
    cases hlabel : arm.label with
    | falls value =>
      simp only [hlabel] at hmem
      obtain ⟨found, hfound, htext⟩ := ih hmem
      exact ⟨found, by simp [hfound], htext⟩
    | leaves value | default =>
      simp only [hlabel] at hmem
      exact hsuite _ hmem

/-- **Matching does what the tree means.**  A value that fell into the first of the cases runs it,
whatever its label is. -/
theorem matched_marksOf {arms : List Arm} (pending : List Int) (hlast : Arm.DefaultLast arms)
    (hfalls : ∀ arm ∈ arms, ∀ value, arm.label = .falls value → arm.body = []) (subject : Int) :
    matched (marksOf pending arms) subject =
      if subject ∈ pending then Arm.onward arms else Arm.run arms subject := by
  induction arms generalizing pending with
  | nil =>
    cases pending with
    | nil => rfl
    | cons first pending =>
      have hmarks : marksOf (first :: pending) [] = [.label (some (first :: pending)), .idle] := rfl
      simp [hmarks, matched, suite, Arm.onward, Arm.run, Arm.startingAt?]
  | cons arm rest ih =>
    have hrest := fun pending => ih pending hlast.tail fun arm harm =>
      hfalls arm (List.mem_cons_of_mem _ harm)
    rw [marksOf_cons]
    cases hlabel : arm.label with
    | falls value =>
      have hbody := hfalls arm (by simp) value hlabel
      simp only [hrest, List.mem_append, List.mem_singleton, Arm.onward, hbody, hlabel,
        List.nil_append, Arm.run, Arm.startingAt?]
      by_cases hpending : subject ∈ pending
      · simp [hpending]
      · by_cases hvalue : subject = value
        · simp [hvalue]
        · have hne : value ≠ subject := fun h => hvalue h.symm
          simp [hpending, hvalue, hne]
    | leaves value =>
      simp only [matched, Option.all_some, List.contains_iff_mem, List.mem_append,
        List.mem_singleton, suite_suiteOf, matched_suiteOf, hrest, List.not_mem_nil, if_false,
        Arm.onward, hlabel, List.append_nil, Arm.run, Arm.startingAt?]
      by_cases hpending : subject ∈ pending
      · simp [hpending]
      · by_cases hvalue : subject = value
        · simp [hvalue]
        · have hne : value ≠ subject := fun h => hvalue h.symm
          simp [hpending, hvalue, hne]
    | default =>
      obtain rfl := hlast.eq_nil hlabel
      simp [matched, suite_suiteOf, Arm.onward, hlabel, Arm.run, Arm.startingAt?]

end Mark

end Interlingua.Switch
