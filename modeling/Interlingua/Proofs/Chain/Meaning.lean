import Interlingua.Emit.Expr.Python
import Interlingua.Proofs.Counting.Meaning

/-!
# What comparisons mean together

* `Chain` — operands with comparisons between them: `a < b <= c`.  It holds if each two neighbours
  compare.
* `Valuation` — values of operands, the same for operands that are the same, and what the
  comparisons say about values.
* `Valuation.Decides` — the truth of nested conjunctions of comparisons.
* `Arena.Conjuncts` — the operands of nested conjunctions.
* `Arena.Lines` — comparisons, each of which goes on from the right operand of the one before, line
  up to a chain.
* `Valuation.truth_eq` — **a chain holds if all comparisons do that line up to it.**
-/

namespace Interlingua

/-- Operands with comparisons between them. -/
structure Chain (α : Type) where
  first : α
  /-- Each comparison, and the operand after it. -/
  links : List (BinaryOp × α)
  deriving DecidableEq, Repr

namespace Chain

variable {α β : Type}

/-- Whether the neighbours compare, from an operand on. -/
def holdsFrom (holds : BinaryOp → α → α → Bool) : α → List (BinaryOp × α) → Bool
  | _, [] => true
  | left, (op, right) :: rest => holds op left right && holdsFrom holds right rest

/-- Whether each two neighbours compare. -/
def truth (holds : BinaryOp → α → α → Bool) (chain : Chain α) : Bool :=
  holdsFrom holds chain.first chain.links

def operands (chain : Chain α) : List α := chain.first :: chain.links.map Prod.snd

/-- Chains with the same comparisons, between operands that correspond. -/
structure Rel (rel : α → β → Prop) (chain : Chain α) (other : Chain β) : Prop where
  first : rel chain.first other.first
  links : List.Forall₂ (fun link next => link.1 = next.1 ∧ rel link.2 next.2) chain.links
    other.links

end Chain

/-- Values of operands, and what the comparisons say about values. -/
structure Valuation (arena : Arena) where
  Value : Type
  value : NodeId → Value
  holds : BinaryOp → Value → Value → Bool
  /-- Operands that are the same have the same value. -/
  same : ∀ a b, arena.same a arena b = .ok true → value a = value b

namespace Valuation

variable {arena : Arena} (v : Valuation arena)

/-- Whether two operands compare. -/
def compare (op : BinaryOp) (left right : NodeId) : Bool :=
  v.holds op (v.value left) (v.value right)

/-- The truth of a comparison. -/
def decides (item : NodeId) : Bool :=
  match arena.expr item with
  | .ok (.binary op left right) => v.compare op left right
  | _ => false

/-- The truth of nested conjunctions of comparisons. -/
inductive Decides : NodeId → Bool → Prop
  | comparison {id left right : NodeId} {op : BinaryOp}
      (he : arena.expr id = .ok (.binary op left right)) (hop : op.isComparison = true) :
      Decides id (v.compare op left right)
  | conjunction {id left right : NodeId} {a b : Bool}
      (he : arena.expr id = .ok (.binary .and left right)) (hl : Decides left a)
      (hr : Decides right b) : Decides id (a && b)

end Valuation

/-! ## Comparisons that line up -/

namespace Arena

variable {arena : Arena}

/-- The operands of nested conjunctions, in order. -/
inductive Conjuncts (arena : Arena) : NodeId → List NodeId → Prop
  | one {id : NodeId} : Conjuncts arena id [id]
  | both {id left right : NodeId} {lefts rights : List NodeId}
      (he : arena.expr id = .ok (.binary .and left right)) (hl : Conjuncts arena left lefts)
      (hr : Conjuncts arena right rights) : Conjuncts arena id (lefts ++ rights)

theorem conjuncts_of_conjunctsTo {depth : Nat} {id : NodeId} {items : List NodeId}
    (h : Python.conjunctsTo arena depth id = .ok items) : arena.Conjuncts id items := by
  induction depth generalizing id items with
  | zero => cases h
  | succ depth ih =>
    have hself : [id] = items → arena.Conjuncts id items := by
      rintro rfl
      exact .one
    unfold Python.conjunctsTo at h
    obtain ⟨e, he, h⟩ := Except.exists_of_bind h
    cases e with
    | binary op left right =>
      cases op with
      | and =>
        obtain ⟨lefts, hlefts, h⟩ := Except.exists_of_bind h
        obtain ⟨rights, hrights, h⟩ := Except.exists_of_bind h
        cases h
        exact .both he (ih hlefts) (ih hrights)
      | _ => exact hself (Except.ok.inj h)
    | _ => exact hself (Except.ok.inj h)

theorem Conjuncts.ne_nil {id : NodeId} {items : List NodeId} (h : arena.Conjuncts id items) :
    items ≠ [] := by
  induction h with
  | one => simp
  | both _ _ _ ihl => simp [ihl]

/-- Comparisons each of which goes on from the right operand of the one before, the first from the
given one. -/
inductive Follows (arena : Arena) : NodeId → List NodeId → List (BinaryOp × NodeId) → Prop
  | nil {previous : NodeId} : Follows arena previous [] []
  | cons {previous item left right : NodeId} {op : BinaryOp} {items : List NodeId}
      {links : List (BinaryOp × NodeId)} (he : arena.expr item = .ok (.binary op left right))
      (hop : op.isComparison = true) (hsame : arena.same previous arena left = .ok true)
      (rest : Follows arena right items links) :
      Follows arena previous (item :: items) ((op, right) :: links)

/-- Comparisons line up to a chain. -/
inductive Lines (arena : Arena) : List NodeId → Chain NodeId → Prop
  | intro {item left right : NodeId} {op : BinaryOp} {items : List NodeId}
      {links : List (BinaryOp × NodeId)} (he : arena.expr item = .ok (.binary op left right))
      (hop : op.isComparison = true) (rest : Follows arena right items links) :
      Lines arena (item :: items) ⟨left, (op, right) :: links⟩

/-- What is found to be a chain starts with a comparison, and goes on if there is more. -/
theorem isChain_cons {previous : Option NodeId} {item : NodeId} {items : List NodeId}
    (h : Python.isChain arena previous (item :: items) = .ok true) :
    ∃ op left right, arena.expr item = .ok (.binary op left right) ∧ op.isComparison = true ∧
      (∀ shared ∈ previous, arena.same shared arena left = .ok true) ∧
      Python.isChain arena (some right) items = .ok true := by
  unfold Python.isChain at h
  obtain ⟨e, he, h⟩ := Except.exists_of_bind h
  cases e with
  | binary op left right =>
    dsimp only at h
    split at h
    · rename_i hop
      cases previous with
      | none => exact ⟨op, left, right, he, hop, by simp, h⟩
      | some previous =>
        obtain ⟨connected, hconnected, h⟩ := Except.exists_of_bind h
        cases connected with
        | false => cases h
        | true =>
          refine ⟨op, left, right, he, hop, fun shared hshared => ?_, h⟩
          cases hshared
          exact hconnected
    · cases h
  | _ => cases h

theorem exists_follows {previous : NodeId} {items : List NodeId}
    (h : Python.isChain arena (some previous) items = .ok true) :
    ∃ links, arena.Follows previous items links := by
  induction items generalizing previous with
  | nil => exact ⟨[], .nil⟩
  | cons item items ih =>
    obtain ⟨op, left, right, he, hop, hsame, hrest⟩ := isChain_cons h
    obtain ⟨links, hlinks⟩ := ih hrest
    exact ⟨_, .cons he hop (hsame previous rfl) hlinks⟩

/-- **What is found to be a chain lines up.** -/
theorem exists_lines {items : List NodeId} (hne : items ≠ [])
    (h : Python.isChain arena none items = .ok true) : ∃ chain, arena.Lines items chain := by
  obtain ⟨item, items, rfl⟩ := List.exists_cons_of_ne_nil hne
  obtain ⟨op, left, right, he, hop, -, hrest⟩ := isChain_cons h
  obtain ⟨links, hlinks⟩ := exists_follows hrest
  exact ⟨_, .intro he hop hlinks⟩

/-- A comparison of two operands. -/
def IsComparison (arena : Arena) (item : NodeId) : Prop :=
  ∃ op left right, arena.expr item = .ok (.binary op left right) ∧ op.isComparison = true

theorem Follows.isComparison {previous : NodeId} {items : List NodeId}
    {links : List (BinaryOp × NodeId)} (h : arena.Follows previous items links) :
    ∀ item ∈ items, arena.IsComparison item := by
  induction h with
  | nil => simp
  | cons he hop _ _ ih => exact List.forall_mem_cons.2 ⟨⟨_, _, _, he, hop⟩, ih⟩

theorem Lines.isComparison {items : List NodeId} {chain : Chain NodeId}
    (h : arena.Lines items chain) : ∀ item ∈ items, arena.IsComparison item := by
  cases h with
  | intro he hop rest => exact List.forall_mem_cons.2 ⟨⟨_, _, _, he, hop⟩, rest.isComparison⟩

/-- A comparison ends with the operand of a link. -/
def Ends (arena : Arena) (item : NodeId) (link : BinaryOp × NodeId) : Prop :=
  ∃ left, arena.expr item = .ok (.binary link.1 left link.2) ∧ link.1.isComparison = true

theorem Follows.ends {previous : NodeId} {items : List NodeId} {links : List (BinaryOp × NodeId)}
    (h : arena.Follows previous items links) : List.Forall₂ arena.Ends items links := by
  induction h with
  | nil => exact .nil
  | cons he hop _ _ ih => exact .cons ⟨_, he, hop⟩ ih

theorem Lines.ends {items : List NodeId} {chain : Chain NodeId} (h : arena.Lines items chain) :
    List.Forall₂ arena.Ends items chain.links := by
  cases h with
  | intro he hop rest => exact .cons ⟨_, he, hop⟩ rest.ends

end Arena

namespace Valuation

variable {arena : Arena} (v : Valuation arena)

theorem decides_eq {item left right : NodeId} {op : BinaryOp}
    (he : arena.expr item = .ok (.binary op left right)) :
    v.decides item = v.compare op left right := by
  rw [decides, he]

theorem holdsFrom_eq {previous : NodeId} {items : List NodeId} {links : List (BinaryOp × NodeId)}
    (h : arena.Follows previous items links) :
    Chain.holdsFrom v.compare previous links = items.all v.decides := by
  induction h with
  | nil => rfl
  | @cons previous item left right op items links he hop hsame rest ih =>
    have hvalue : v.value previous = v.value left := v.same previous left hsame
    rw [Chain.holdsFrom, List.all_cons, ih, v.decides_eq he, compare, compare, hvalue]

/-- **A chain holds if all comparisons do that line up to it.** -/
theorem truth_eq {items : List NodeId} {chain : Chain NodeId} (h : arena.Lines items chain) :
    chain.truth v.compare = items.all v.decides := by
  cases h with
  | intro he hop rest =>
    rw [Chain.truth, Chain.holdsFrom, v.holdsFrom_eq rest, List.all_cons, v.decides_eq he]

/-- Nested conjunctions are true if all of their conjuncts are. -/
theorem decides_conjuncts {id : NodeId} {items : List NodeId} (h : arena.Conjuncts id items)
    (hitems : ∀ item ∈ items, arena.IsComparison item) : v.Decides id (items.all v.decides) := by
  induction h with
  | @one id =>
    obtain ⟨op, left, right, he, hop⟩ := hitems id (by simp)
    rw [List.all_cons, v.decides_eq he, List.all_nil, Bool.and_true]
    exact .comparison he hop
  | both he _ _ ihl ihr =>
    rw [List.all_append]
    exact .conjunction he (ihl fun item hitem => hitems item (by simp [hitem]))
      (ihr fun item hitem => hitems item (by simp [hitem]))

end Valuation

/-! ## Conjunctions that make a chain -/

namespace Arena

variable {arena : Arena} {id left right : NodeId} {items : List NodeId}

/-- The conjuncts of a conjunction that makes a chain line up to it. -/
theorem exists_lines_of_chainOf? (h : Python.chainOf? arena left right = .ok (some items)) :
    ∃ chain lefts rights, arena.Conjuncts left lefts ∧ arena.Conjuncts right rights ∧
      items = lefts ++ rights ∧ arena.Lines items chain := by
  unfold Python.chainOf? at h
  obtain ⟨lefts, hlefts, h⟩ := Except.exists_of_bind h
  obtain ⟨rights, hrights, h⟩ := Except.exists_of_bind h
  obtain ⟨chains, hchains, h⟩ := Except.exists_of_bind h
  cases chains with
  | false => cases h
  | true =>
    cases h
    have hl := conjuncts_of_conjunctsTo hlefts
    have hne : lefts ++ rights ≠ [] := by simp [hl.ne_nil]
    obtain ⟨chain, hlines⟩ := exists_lines hne hchains
    exact ⟨chain, lefts, rights, hl, conjuncts_of_conjunctsTo hrights, rfl, hlines⟩

/-- **A conjunction that makes a chain is as true as the chain**, however its conjunctions are
nested. -/
theorem decides_chain (he : arena.expr id = .ok (.binary .and left right))
    (h : Python.chainOf? arena left right = .ok (some items)) :
    ∃ chain, arena.Lines items chain ∧
      ∀ v : Valuation arena, v.Decides id (chain.truth v.compare) := by
  obtain ⟨chain, lefts, rights, hl, hr, rfl, hlines⟩ := exists_lines_of_chainOf? h
  refine ⟨chain, hlines, fun v => ?_⟩
  rw [v.truth_eq hlines]
  exact v.decides_conjuncts (.both he hl hr) hlines.isComparison

end Arena

end Interlingua
