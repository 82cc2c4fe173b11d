import Mathlib.Data.List.Forall2

/-!
# Two runs side by side

Two computations are run from related states and have to do the same: both succeed with related
values in related states, or both fail with related errors.

* `Concur` — for results without a state.
* `Lockstep` — for runs with a state, between a relation before and a relation after.
* `Keeps` — runs that end in the relation they started from, for every relation of a family.  The
  index of the family says what the states have in common, so what it names is left unchanged.

Each way of putting computations together has one rule.
-/

namespace Interlingua

variable {ε σ ι α β γ δ : Type}

/-! ## Lists and options -/

theorem rel_head? {related : α → β → Prop} {as : List α} {bs : List β}
    (h : List.Forall₂ related as bs) : Option.Rel related as.head? bs.head? := by
  cases h with
  | nil => exact .none
  | cons hfirst _ => exact .some hfirst

theorem rel_getLast? {related : α → β → Prop} {as : List α} {bs : List β}
    (h : List.Forall₂ related as bs) : Option.Rel related as.getLast? bs.getLast? := by
  rw [List.getLast?_eq_head?_reverse, List.getLast?_eq_head?_reverse]
  exact rel_head? (List.rel_reverse h)

theorem forall₂_dropLast {related : α → β → Prop} {as : List α} {bs : List β}
    (h : List.Forall₂ related as bs) : List.Forall₂ related as.dropLast bs.dropLast := by
  rw [List.dropLast_eq_take, List.dropLast_eq_take, h.length_eq]
  exact List.forall₂_take _ h

theorem forall₂_mapIdx {related : α → β → Prop} {next : γ → δ → Prop} {f : Nat → α → γ}
    {g : Nat → β → δ} {as : List α} {bs : List β} (h : List.Forall₂ related as bs)
    (hnext : ∀ i a b, related a b → next (f i a) (g i b)) :
    List.Forall₂ next (as.mapIdx f) (bs.mapIdx g) := by
  induction h generalizing f g with
  | nil => exact .nil
  | cons hab _ ih =>
    rw [List.mapIdx_cons, List.mapIdx_cons]
    exact .cons (hnext 0 _ _ hab) (ih fun i => hnext (i + 1))

/-! ## Results without a state -/

/-- Both succeed with related values, or both fail with related errors. -/
inductive Concur (error : ε → ε → Prop) (value : α → β → Prop) :
    Except ε α → Except ε β → Prop
  | ok {a : α} {b : β} (h : value a b) : Concur error value (.ok a) (.ok b)
  | error {e f : ε} (h : error e f) : Concur error value (.error e) (.error f)

namespace Concur

variable {error : ε → ε → Prop} {value : α → β → Prop} {next : γ → δ → Prop}
  {x : Except ε α} {y : Except ε β}

theorem bind {f : α → Except ε γ} {g : β → Except ε δ} (h : Concur error value x y)
    (hnext : ∀ a b, value a b → Concur error next (f a) (g b)) :
    Concur error next (x >>= f) (y >>= g) := by
  cases h with
  | ok h => exact hnext _ _ h
  | error h => exact .error h

/-- Both give the same value. -/
theorem bindEq {x y : Except ε α} {f : α → Except ε γ} {g : α → Except ε δ}
    (h : Concur error Eq x y) (hnext : ∀ a, Concur error next (f a) (g a)) :
    Concur error next (x >>= f) (y >>= g) :=
  h.bind fun a _ hab => hab ▸ hnext a

theorem mono {wider : α → β → Prop} (h : Concur error value x y)
    (himp : ∀ a b, value a b → wider a b) : Concur error wider x y := by
  cases h with
  | ok h => exact .ok (himp _ _ h)
  | error h => exact .error h

protected theorem refl {error : ε → ε → Prop} {value : α → α → Prop} (herror : ∀ e, error e e)
    (hvalue : ∀ a, value a a) (x : Except ε α) : Concur error value x x := by
  cases x with
  | error e => exact .error (herror e)
  | ok a => exact .ok (hvalue a)

/-- Two relations between the same results. -/
theorem and {other : α → β → Prop} (h : Concur error value x y) (h' : Concur error other x y) :
    Concur error (fun a b => value a b ∧ other a b) x y := by
  cases h with
  | error h => exact .error h
  | ok h =>
    cases h' with
    | ok h' => exact .ok ⟨h, h'⟩

protected theorem ite {condition : Prop} [Decidable condition] {x' : Except ε α} {y' : Except ε β}
    (h : Concur error value x y) (h' : Concur error value x' y') :
    Concur error value (if condition then x else x') (if condition then y else y') := by
  split
  · exact h
  · exact h'

theorem mapM {related : α → β → Prop} {f : α → Except ε γ} {g : β → Except ε δ}
    {as : List α} {bs : List β} (h : List.Forall₂ related as bs)
    (hnext : ∀ a b, related a b → Concur error next (f a) (g b)) :
    Concur error (List.Forall₂ next) (as.mapM f) (bs.mapM g) := by
  induction h with
  | nil => exact .ok .nil
  | cons hab _ ih =>
    rw [List.mapM_cons, List.mapM_cons]
    exact (hnext _ _ hab).bind fun _ _ hfirst => ih.bind fun _ _ hrest => .ok (.cons hfirst hrest)

/-- One result for each, the same on both sides. -/
theorem mapMEq {related : α → β → Prop} {f : α → Except ε γ} {g : β → Except ε γ}
    {as : List α} {bs : List β} (h : List.Forall₂ related as bs)
    (hnext : ∀ a b, related a b → Concur error Eq (f a) (g b)) :
    Concur error Eq (as.mapM f) (bs.mapM g) :=
  (mapM h hnext).mono fun _ _ heq => List.forall₂_eq_eq_eq ▸ heq

theorem allM {related : α → β → Prop} {f : α → Except ε Bool} {g : β → Except ε Bool}
    {as : List α} {bs : List β} (h : List.Forall₂ related as bs)
    (hnext : ∀ a b, related a b → Concur error Eq (f a) (g b)) :
    Concur error Eq (as.allM f) (bs.allM g) := by
  induction h with
  | nil => exact .ok rfl
  | cons hab _ ih =>
    refine (hnext _ _ hab).bindEq fun found => ?_
    cases found with
    | false => exact .ok rfl
    | true => exact ih

theorem anyM {related : α → β → Prop} {f : α → Except ε Bool} {g : β → Except ε Bool}
    {as : List α} {bs : List β} (h : List.Forall₂ related as bs)
    (hnext : ∀ a b, related a b → Concur error Eq (f a) (g b)) :
    Concur error Eq (as.anyM f) (bs.anyM g) := by
  induction h with
  | nil => exact .ok rfl
  | cons hab _ ih =>
    refine (hnext _ _ hab).bindEq fun found => ?_
    cases found with
    | false => exact ih
    | true => exact .ok rfl

end Concur

/-! ## Runs with a state -/

/-- Where two runs end: both succeed, with related values in related states, or both fail. -/
inductive Ends (error : ε → ε → Prop) (value : α → β → Prop) (state : σ → σ → Prop) :
    EStateM.Result ε σ α → EStateM.Result ε σ β → Prop
  | ok {a : α} {b : β} {s t : σ} (h : value a b) (hstate : state s t) :
      Ends error value state (.ok a s) (.ok b t)
  | error {e f : ε} {s t : σ} (h : error e f) : Ends error value state (.error e s) (.error f t)

theorem Ends.mono {error : ε → ε → Prop} {value wider : α → β → Prop} {state : σ → σ → Prop}
    {r : EStateM.Result ε σ α} {r' : EStateM.Result ε σ β} (h : Ends error value state r r')
    (himp : ∀ a b, value a b → wider a b) : Ends error wider state r r' := by
  cases h with
  | ok h hstate => exact .ok (himp _ _ h) hstate
  | error h => exact .error h

/-- From states related before, two runs do the same and end in states related after. -/
def Lockstep (error : ε → ε → Prop) (before after : σ → σ → Prop) (value : α → β → Prop)
    (x : EStateM ε σ α) (y : EStateM ε σ β) : Prop :=
  ∀ ⦃s t : σ⦄, before s t → Ends error value after (x s) (y t)

namespace Lockstep

variable {error : ε → ε → Prop} {before between after : σ → σ → Prop} {value : α → β → Prop}
  {next : γ → δ → Prop} {x : EStateM ε σ α} {y : EStateM ε σ β}

theorem bind {f : α → EStateM ε σ γ} {g : β → EStateM ε σ δ}
    (h : Lockstep error before between value x y)
    (hnext : ∀ a b, value a b → Lockstep error between after next (f a) (g b)) :
    Lockstep error before after next (x >>= f) (y >>= g) := by
  intro s t hst
  have hends := h hst
  simp only [Bind.bind, EStateM.bind]
  cases hx : x s <;> cases hy : y t <;> rw [hx, hy] at hends <;> cases hends
  · rename_i hvalue hstate
    exact hnext _ _ hvalue hstate
  · rename_i herror
    exact .error herror

/-- Both do a step that has no value. -/
theorem andThen {x y : EStateM ε σ PUnit} {f : PUnit → EStateM ε σ γ} {g : PUnit → EStateM ε σ δ}
    (h : Lockstep error before between Eq x y)
    (hnext : Lockstep error between after next (f ⟨⟩) (g ⟨⟩)) :
    Lockstep error before after next (x >>= f) (y >>= g) :=
  h.bind fun _ _ _ => hnext

/-- Steps that always succeed. -/
theorem of_ok {f g : σ → σ} (h : ∀ s t, before s t → after (f s) (g t)) :
    Lockstep error before after Eq (modify f : EStateM ε σ PUnit) (modify g) :=
  fun s t hst => .ok rfl (h s t hst)

end Lockstep

/-! ## Runs that keep a family of relations -/

/-- Two runs that end in the relation they started from, for each relation of a family. -/
def Keeps (error : ε → ε → Prop) (at_ : ι → σ → σ → Prop) (value : α → β → Prop)
    (x : EStateM ε σ α) (y : EStateM ε σ β) : Prop :=
  ∀ i, Lockstep error (at_ i) (at_ i) value x y

namespace Keeps

variable {error : ε → ε → Prop} {at_ : ι → σ → σ → Prop} {value : α → β → Prop}
  {next : γ → δ → Prop} {x : EStateM ε σ α} {y : EStateM ε σ β}

protected theorem pure {a : α} {b : β} (h : value a b) :
    Keeps error at_ value (pure a) (pure b) :=
  fun _ _ _ hst => .ok h hst

protected theorem throw {e f : ε} (h : error e f) :
    Keeps error at_ value (throw e) (throw f) :=
  fun _ _ _ _ => .error h

theorem bind {f : α → EStateM ε σ γ} {g : β → EStateM ε σ δ} (h : Keeps error at_ value x y)
    (hnext : ∀ a b, value a b → Keeps error at_ next (f a) (g b)) :
    Keeps error at_ next (x >>= f) (y >>= g) :=
  fun i => (h i).bind fun a b hab => hnext a b hab i

/-- Both give the same value. -/
theorem bindEq {x y : EStateM ε σ α} {f : α → EStateM ε σ γ} {g : α → EStateM ε σ δ}
    (h : Keeps error at_ Eq x y) (hnext : ∀ a, Keeps error at_ next (f a) (g a)) :
    Keeps error at_ next (x >>= f) (y >>= g) :=
  h.bind fun a _ hab => hab ▸ hnext a

/-- The first step of two runs whose states get into another relation. -/
theorem thenStep {after : σ → σ → Prop} {i : ι} {x y : EStateM ε σ α} {f : α → EStateM ε σ γ}
    {g : α → EStateM ε σ δ} (h : Keeps error at_ Eq x y)
    (hnext : ∀ a, Lockstep error (at_ i) after next (f a) (g a)) :
    Lockstep error (at_ i) after next (x >>= f) (y >>= g) :=
  (h i).bind fun a _ hab => hab ▸ hnext a

theorem mono {wider : α → β → Prop} (h : Keeps error at_ value x y)
    (himp : ∀ a b, value a b → wider a b) : Keeps error at_ wider x y := by
  intro i s t hst
  exact (h i hst).mono himp

protected theorem ite {condition : Prop} [Decidable condition] {x' : EStateM ε σ α}
    {y' : EStateM ε σ β} (h : Keeps error at_ value x y) (h' : Keeps error at_ value x' y') :
    Keeps error at_ value (if condition then x else x') (if condition then y else y') := by
  split
  · exact h
  · exact h'

theorem mapM {related : α → β → Prop} {f : α → EStateM ε σ γ} {g : β → EStateM ε σ δ}
    {as : List α} {bs : List β} (h : List.Forall₂ related as bs)
    (hnext : ∀ a b, related a b → Keeps error at_ next (f a) (g b)) :
    Keeps error at_ (List.Forall₂ next) (as.mapM f) (bs.mapM g) := by
  induction h with
  | nil => exact .pure .nil
  | cons hab _ ih =>
    rw [List.mapM_cons, List.mapM_cons]
    exact (hnext _ _ hab).bind fun _ _ hfirst => ih.bind fun _ _ hrest => .pure (.cons hfirst hrest)

/-- One value for each, the same on both sides. -/
theorem mapMEq {related : α → β → Prop} {f : α → EStateM ε σ γ} {g : β → EStateM ε σ γ}
    {as : List α} {bs : List β} (h : List.Forall₂ related as bs)
    (hnext : ∀ a b, related a b → Keeps error at_ Eq (f a) (g b)) :
    Keeps error at_ Eq (as.mapM f) (bs.mapM g) :=
  (mapM h hnext).mono fun _ _ heq => List.forall₂_eq_eq_eq ▸ heq

theorem forM {related : α → β → Prop} {f : α → EStateM ε σ PUnit} {g : β → EStateM ε σ PUnit}
    {as : List α} {bs : List β} (h : List.Forall₂ related as bs)
    (hnext : ∀ a b, related a b → Keeps error at_ Eq (f a) (g b)) :
    Keeps error at_ Eq (as.forM f) (bs.forM g) := by
  induction h with
  | nil => exact .pure rfl
  | cons hab _ ih => exact (hnext _ _ hab).bindEq fun _ => ih

theorem optionForM {related : α → β → Prop} {f : α → EStateM ε σ PUnit}
    {g : β → EStateM ε σ PUnit} {a : Option α} {b : Option β} (h : Option.Rel related a b)
    (hnext : ∀ a b, related a b → Keeps error at_ Eq (f a) (g b)) :
    Keeps error at_ Eq (a.forM f) (b.forM g) := by
  cases h with
  | none => exact .pure rfl
  | some h => exact hnext _ _ h

theorem optionMapM {related : α → β → Prop} {f : α → EStateM ε σ γ} {g : β → EStateM ε σ γ}
    {a : Option α} {b : Option β} (h : Option.Rel related a b)
    (hnext : ∀ a b, related a b → Keeps error at_ Eq (f a) (g b)) :
    Keeps error at_ Eq (a.mapM f) (b.mapM g) := by
  cases h with
  | none => exact .pure rfl
  | some h => exact (hnext _ _ h).bindEq fun _ => .pure rfl

end Keeps

end Interlingua
