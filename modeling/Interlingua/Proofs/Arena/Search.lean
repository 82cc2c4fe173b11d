import Interlingua.Arena.Edit
import Interlingua.Proofs.Arena.Grounded
import Mathlib.Algebra.Ring.Nat
import Mathlib.Data.Fintype.EquivFin
import Mathlib.Logic.Relation
import Mathlib.Order.RelClasses

/-!
# The search for a node below another

* `Arena.Owns` — one node owns another: the second is a child of the first.
* `Arena.Closed`, `Arena.Acyclic` — every child is a node of the arena; no node is below itself.
* `Arena.grounded_of_acyclic` — in a closed arena without cycles every subtree ends.
* `Arena.reaches_iff` — there the search answers, and it answers whether there is a path of
  ownership.  Every stack is given a bound on the visits it leads to: a node at whose children
  `depth` more levels begin is worth `(width + 1) ^ (depth + 1)` visits, which pays for itself and
  for all its children.
-/

namespace Interlingua

namespace Arena

variable {arena : Arena} {id parent child origin target : NodeId}

/-- The second node is a child of the first. -/
def Owns (arena : Arena) (parent child : NodeId) : Prop :=
  ∃ node, arena.node parent = .ok node ∧ ∃ c ∈ node.children, c.id = child

/-- The second node is the first or lies below it. -/
abbrev Above (arena : Arena) : NodeId → NodeId → Prop := Relation.ReflTransGen arena.Owns

/-- Every child is a node of the arena. -/
def Closed (arena : Arena) : Prop :=
  ∀ parent child, arena.Owns parent child → arena.contains child = true

/-- No node lies below itself. -/
def Acyclic (arena : Arena) : Prop := ∀ id, ¬ Relation.TransGen arena.Owns id id

theorem contains_iff : arena.contains id = true ↔ id.index < arena.size := by
  simp [contains]

theorem exists_node_iff : (∃ node, arena.node id = .ok node) ↔ arena.contains id = true := by
  rw [contains_iff]
  constructor
  · rintro ⟨node, found⟩
    exact index_lt_of_node found
  · intro hlt
    have hlt : id.index < arena.nodes.size := hlt
    refine ⟨arena.nodes[id.index], ?_⟩
    simp [Arena.node, Arena.node?, Array.getElem?_eq_getElem hlt]

theorem owns_of_mem {node : Node} {c : Child} (found : arena.node parent = .ok node)
    (hc : c ∈ node.children) : arena.Owns parent c.id :=
  ⟨node, found, c, hc, rfl⟩

/-! ## Subtrees of an arena without cycles end -/

/-- The nodes of an arena that has no cycle are ordered by what is below them, and there are
finitely many. -/
theorem Acyclic.wellFounded (h : arena.Acyclic) :
    WellFounded fun below above : Fin arena.size =>
      Relation.TransGen arena.Owns ⟨above⟩ ⟨below⟩ := by
  let below : Fin arena.size → Fin arena.size → Prop := fun b a =>
    Relation.TransGen arena.Owns ⟨a⟩ ⟨b⟩
  have : IsTrans (Fin arena.size) below := ⟨fun _ _ _ hab hbc => hbc.trans hab⟩
  have : Std.Irrefl below := ⟨fun a => h ⟨a⟩⟩
  exact Finite.wellFounded_of_trans_of_irrefl below

/-- **In a closed arena without cycles every subtree ends.** -/
theorem grounded_of_acyclic (hclosed : arena.Closed) (hacyclic : arena.Acyclic)
    (hid : arena.contains id = true) : arena.Grounded id := by
  have hall : ∀ position : Fin arena.size, arena.Grounded ⟨position⟩ := by
    intro position
    induction position using hacyclic.wellFounded.induction with
    | _ position ih =>
      have hposition : arena.contains ⟨position⟩ = true := contains_iff.2 position.isLt
      obtain ⟨node, found⟩ := exists_node_iff.2 hposition
      refine .intro found fun c hc => ?_
      have howns := owns_of_mem found hc
      have hlt := contains_iff.1 (hclosed _ _ howns)
      exact ih ⟨c.id.index, hlt⟩ (.single howns)
  exact hall ⟨id.index, contains_iff.1 hid⟩

/-- What lies below a subtree that ends does, too. -/
theorem Grounded.of_above (h : arena.Grounded origin) (habove : arena.Above origin id) :
    arena.Grounded id := by
  induction habove with
  | refl => exact h
  | tail _ howns ih =>
    obtain ⟨node, found, c, hc, rfl⟩ := howns
    cases ih with
    | intro found' below =>
      rw [found] at found'
      cases found'
      exact below c hc

/-! ## What the search needs and finds -/

theorem mem_of_node {node : Node} (found : arena.node id = .ok node) :
    node ∈ arena.nodes.toList := by
  unfold Arena.node Arena.node? at found
  split at found
  · rename_i other hother
    cases found
    exact Array.mem_toList_iff.2 (Array.mem_of_getElem? hother)
  · cases found

theorem length_children_le_width {node : Node} (found : arena.node id = .ok node) :
    node.children.length ≤ arena.width := by
  -- the maximum only grows along the nodes
  have hfold : ∀ (nodes : List Node) (most : Nat),
      most ≤ nodes.foldl (fun most node => max most node.children.length) most ∧
      ∀ node ∈ nodes, node.children.length ≤
        nodes.foldl (fun most node => max most node.children.length) most := by
    intro nodes
    induction nodes with
    | nil => exact fun most => ⟨le_refl _, by simp⟩
    | cons first rest ih =>
      intro most
      obtain ⟨hmost, hrest⟩ := ih (max most first.children.length)
      refine ⟨le_trans (le_max_left _ _) hmost, fun node hnode => ?_⟩
      rcases List.mem_cons.1 hnode with rfl | hnode
      · exact le_trans (le_max_right _ _) hmost
      · exact hrest node hnode
  rw [width, ← Array.foldl_toList]
  exact (hfold _ 0).2 node (mem_of_node found)

/-- The visits that a stack may lead to, where each identity is given with the depth of what is
below it. -/
def stackBound (arena : Arena) (stack : List (NodeId × Nat)) : Nat :=
  (stack.map fun entry => (arena.width + 1) ^ entry.2).sum

theorem stackBound_append (first second : List (NodeId × Nat)) :
    arena.stackBound (first ++ second) = arena.stackBound first + arena.stackBound second := by
  simp [stackBound]

/-- A visit and the visits to the children of the node visited cost no more than the node. -/
theorem stackBound_children_lt {ids : List NodeId} (depth : Nat)
    (hwidth : ids.length ≤ arena.width) :
    arena.stackBound (ids.map fun id => (id, depth)) < (arena.width + 1) ^ (depth + 1) := by
  have hsum : arena.stackBound (ids.map fun id => (id, depth)) =
      ids.length * (arena.width + 1) ^ depth := by
    simp [stackBound, List.map_map, Function.comp_def, List.map_const']
  have hpos : 0 < (arena.width + 1) ^ depth := Nat.pow_pos (Nat.succ_pos _)
  rw [hsum]
  calc ids.length * (arena.width + 1) ^ depth
      ≤ arena.width * (arena.width + 1) ^ depth := Nat.mul_le_mul_right _ hwidth
    _ < arena.width * (arena.width + 1) ^ depth + (arena.width + 1) ^ depth := by omega
    _ = (arena.width + 1) ^ (depth + 1) := by rw [Nat.pow_succ', Nat.succ_mul]

/-- Below a node other than the target, the target is below a child. -/
theorem above_iff_of_ne {node : Node} (found : arena.node id = .ok node) (hne : id ≠ target) :
    arena.Above id target ↔ ∃ c ∈ node.children, arena.Above c.id target := by
  unfold Above
  rw [Relation.ReflTransGen.cases_head_iff]
  constructor
  · rintro (rfl | ⟨next, ⟨node', found', c, hc, rfl⟩, hbelow⟩)
    · exact absurd rfl hne
    · rw [found] at found'
      cases found'
      exact ⟨c, hc, hbelow⟩
  · rintro ⟨c, hc, hbelow⟩
    exact .inr ⟨c.id, owns_of_mem found hc, hbelow⟩

/-- With enough fuel the search answers, and it answers whether the target is below one of the
identities on the stack. -/
theorem search_eq (arena : Arena) (target : NodeId) : ∀ (fuel : Nat) (stack : List (NodeId × Nat)),
    (∀ entry ∈ stack, arena.GroundedTo entry.2 entry.1) → arena.stackBound stack ≤ fuel →
    ∃ found, arena.search target fuel (stack.map Prod.fst) = .ok found ∧
      (found = true ↔ ∃ entry ∈ stack, arena.Above entry.1 target)
  | fuel, [], _, _ => ⟨false, by cases fuel <;> rfl, by simp⟩
  | 0, (id, depth) :: stack, _, hfuel => by
    have hpos : 0 < (arena.width + 1) ^ depth := Nat.pow_pos (Nat.succ_pos _)
    simp [stackBound] at hfuel
  | fuel + 1, (id, depth) :: stack, hdeep, hfuel => by
    by_cases heq : id = target
    · refine ⟨true, by simp [search, heq], ?_⟩
      simp only [List.exists_mem_cons_iff, true_iff]
      exact .inl (heq ▸ .refl)
    obtain ⟨less, rfl⟩ := (hdeep _ (List.mem_cons_self ..)).pos
    obtain ⟨node, found, hchildren⟩ := hdeep _ (List.mem_cons_self ..)
    let below : List (NodeId × Nat) := (node.children.map Child.id).reverse.map fun id => (id, less)
    have hstack : (node.children.map Child.id).reverse ++ stack.map Prod.fst =
        (below ++ stack).map Prod.fst := by
      simp [below, List.map_map, Function.comp_def]
    have hbound : arena.stackBound (below ++ stack) ≤ fuel := by
      have hwidth : (node.children.map Child.id).reverse.length ≤ arena.width := by
        simpa using length_children_le_width found
      have hlt := stackBound_children_lt less hwidth
      rw [stackBound_append]
      simp only [stackBound, List.map_cons, List.sum_cons, below] at hfuel hlt ⊢
      omega
    have hground : ∀ entry ∈ below ++ stack, arena.GroundedTo entry.2 entry.1 := by
      intro entry hentry
      rcases List.mem_append.1 hentry with hentry | hentry
      · simp only [below, List.mem_map, List.mem_reverse] at hentry
        obtain ⟨_, ⟨c, hc, rfl⟩, rfl⟩ := hentry
        exact hchildren c hc
      · exact hdeep _ (List.mem_cons_of_mem _ hentry)
    obtain ⟨answer, hsearch, hanswer⟩ := search_eq arena target fuel (below ++ stack) hground hbound
    refine ⟨answer, ?_, ?_⟩
    · simpa [search, heq, children, found, hstack] using hsearch
    · rw [hanswer, List.exists_mem_cons_iff, above_iff_of_ne found heq]
      simp [below, or_and_right, exists_or]

/-- **The search finds exactly what is below a node**, in a closed arena without cycles. -/
theorem reaches_iff (hclosed : arena.Closed) (hacyclic : arena.Acyclic)
    (horigin : arena.contains origin = true) :
    ∃ found, arena.reaches origin target = .ok found ∧
      (found = true ↔ arena.Above origin target) := by
  have hground := (grounded_of_acyclic hclosed hacyclic horigin).to_depthBound
  obtain ⟨found, hsearch, hfound⟩ := search_eq arena target arena.visitBound
    [(origin, arena.depthBound)] (by simpa using hground) (by simp [stackBound, visitBound])
  exact ⟨found, hsearch, by simpa using hfound⟩

end Arena

end Interlingua
