import Interlingua.Proofs.Arena.Search
import Interlingua.Tree.Walk

/-!
# What a walk meets

* `Arena.Walks` — a walk that ends, visit by visit.  It meets every child of every node it meets.
* `Tree.fault_trail` — the walk of a subtree that ends does.
* `Tree.Strict` — the walk ends, and it meets every node of the tree exactly once; that is, it
  meets no node twice (`Tree.strict_iff`).
* `Strict.place_unique`, `Strict.parent?_child` — a node of a strict tree has one place, and its
  parent is the node that holds it there.
-/

namespace Interlingua

namespace Arena

variable {arena : Arena} {pending visits : List Visit} {visit : Visit}

/-- The visits to the children of a node. -/
abbrev visitsBelow (id : NodeId) (node : Node) : List Visit :=
  node.children.mapIdx fun i c => .below id c i

theorem map_id_visitsBelow (id : NodeId) (node : Node) :
    (visitsBelow id node).map Visit.id = node.children.map Child.id :=
  List.ext_getElem (by simp) fun i _ _ => by simp [Visit.below]

/-- A walk that ends: the visits made from those that are pending. -/
inductive Walks (arena : Arena) : List Visit → List Visit → Prop
  | nil : Walks arena [] []
  | cons {visit : Visit} {node : Node} {rest visits : List Visit}
      (found : arena.node visit.id = .ok node)
      (onward : Walks arena (visitsBelow visit.id node ++ rest) visits) :
      Walks arena (visit :: rest) (visit :: visits)

/-- What is run without a fault has ended. -/
theorem Walks.of_run (fuel : Nat) (cursor : Cursor) (h : (cursor.run arena fuel).fault = none) :
    arena.Walks cursor.pending (cursor.run arena fuel).visits := by
  induction fuel generalizing cursor with
  | zero =>
    obtain ⟨pending⟩ := cursor
    cases pending with
    | nil => exact .nil
    | cons visit rest => cases h
  | succ fuel ih =>
    obtain ⟨pending⟩ := cursor
    cases pending with
    | nil => exact .nil
    | cons visit rest =>
      cases hnode : arena.node visit.id with
      | error fault => simp [Cursor.run, Cursor.next, children, hnode] at h
      | ok node =>
        simp only [Cursor.run, Cursor.next, children, hnode] at h ⊢
        exact .cons hnode (ih _ h)

/-- With enough fuel a walk ends, where each pending visit is given with the depth of what is below
it. -/
theorem fault_run (fuel : Nat) (stack : List (Visit × Nat))
    (hdeep : ∀ entry ∈ stack, arena.GroundedTo entry.2 entry.1.id)
    (hfuel : arena.stackBound (stack.map fun entry => (entry.1.id, entry.2)) ≤ fuel) :
    (Cursor.run arena fuel ⟨stack.map Prod.fst⟩).fault = none := by
  induction fuel generalizing stack with
  | zero =>
    cases stack with
    | nil => rfl
    | cons entry rest =>
      have hpos : 0 < (arena.width + 1) ^ entry.2 := Nat.pow_pos (Nat.succ_pos _)
      simp only [stackBound, List.map_cons, List.sum_cons] at hfuel
      omega
  | succ fuel ih =>
    cases stack with
    | nil => rfl
    | cons entry rest =>
      obtain ⟨visit, depth⟩ := entry
      obtain ⟨less, rfl⟩ := (hdeep _ List.mem_cons_self).pos
      obtain ⟨node, found, hchildren⟩ := hdeep _ List.mem_cons_self
      have hbelow := ih ((visitsBelow visit.id node).map (·, less) ++ rest) ?_ ?_
      · simpa [Cursor.run, Cursor.next, children, found, Function.comp_def] using hbelow
      · intro entry hentry
        rcases List.mem_append.1 hentry with hentry | hentry
        · obtain ⟨below, hbelow, rfl⟩ := List.mem_map.1 hentry
          obtain ⟨i, hi, rfl⟩ := List.mem_mapIdx.1 hbelow
          exact hchildren _ (List.getElem_mem hi)
        · exact hdeep _ (List.mem_cons_of_mem _ hentry)
      · have hwidth : (node.children.map Child.id).length ≤ arena.width := by
          simpa using length_children_le_width found
        have hlt := stackBound_children_lt less hwidth
        have hids : ((visitsBelow visit.id node).map (·, less)).map
            (fun entry => (entry.1.id, entry.2)) =
            (node.children.map Child.id).map fun id => (id, less) := by
          rw [← map_id_visitsBelow visit.id]
          simp only [List.map_map, Function.comp_def]
        rw [List.map_append, stackBound_append, hids]
        simp only [stackBound, List.map_cons, List.sum_cons] at hfuel hlt ⊢
        omega

namespace Walks

theorem mem_of_pending (h : arena.Walks pending visits) (hv : visit ∈ pending) :
    visit ∈ visits := by
  induction h with
  | nil => exact hv
  | cons _ _ ih =>
    rcases List.mem_cons.1 hv with rfl | hv
    · exact List.mem_cons_self
    · exact List.mem_cons_of_mem _ (ih (List.mem_append_right _ hv))

theorem mem_visitsBelow {id : NodeId} {node : Node} {c : Child} {i : Nat}
    (hc : node.children[i]? = some c) : .below id c i ∈ visitsBelow id node := by
  refine List.mem_of_getElem? (i := i) ?_
  simp [visitsBelow, List.getElem?_mapIdx, hc]

/-- A walk that ends meets the children of what it meets. -/
theorem below_mem (h : arena.Walks pending visits) (hv : visit ∈ visits) {node : Node}
    (found : arena.node visit.id = .ok node) {c : Child} {i : Nat}
    (hc : node.children[i]? = some c) : .below visit.id c i ∈ visits := by
  induction h with
  | nil => cases hv
  | cons found' onward ih =>
    refine List.mem_cons_of_mem _ ?_
    rcases List.mem_cons.1 hv with rfl | hv
    · rw [found] at found'
      cases found'
      exact onward.mem_of_pending (List.mem_append_left _ (mem_visitsBelow hc))
    · exact ih hv

/-- A walk that ends shows that the subtrees it walks do. -/
theorem grounded (h : arena.Walks pending visits) (hv : visit ∈ pending) :
    arena.Grounded visit.id := by
  induction h generalizing visit with
  | nil => cases hv
  | cons found _ ih =>
    rcases List.mem_cons.1 hv with rfl | hv
    · refine .intro found fun c hc => ?_
      obtain ⟨i, hi⟩ := List.getElem?_of_mem hc
      exact ih (List.mem_append_left _ (mem_visitsBelow hi))
    · exact ih (List.mem_append_right _ hv)

/-- What a walk meets lies below what was pending. -/
theorem exists_above (h : arena.Walks pending visits) (hv : visit ∈ visits) :
    ∃ origin ∈ pending, arena.Above origin.id visit.id := by
  induction h with
  | nil => cases hv
  | @cons first node rest _ found _ ih =>
    rcases List.mem_cons.1 hv with rfl | hv
    · exact ⟨_, List.mem_cons_self, .refl⟩
    · obtain ⟨origin, horigin, habove⟩ := ih hv
      rcases List.mem_append.1 horigin with hbelow | hrest
      · obtain ⟨i, hi, rfl⟩ := List.mem_mapIdx.1 hbelow
        exact ⟨first, List.mem_cons_self, .head (owns_of_mem found (List.getElem_mem hi)) habove⟩
      · exact ⟨origin, List.mem_cons_of_mem _ hrest, habove⟩

end Walks

end Arena

namespace Tree

variable {tree : Tree} {visits : List Visit}

theorem walk_eq_ok_iff :
    tree.walk = .ok visits ↔ tree.trail.fault = none ∧ tree.trail.visits = visits := by
  unfold walk Trail.toExcept
  split <;> simp [*]

theorem fault_trail (h : tree.arena.Grounded tree.root) : tree.trail.fault = none := by
  refine Arena.fault_run _ [(.root tree.root, tree.arena.depthBound)] ?_ ?_
  · simpa [Visit.root] using h.to_depthBound
  · simp [Arena.stackBound, Arena.visitBound]

/-- A walk that ends starts at the root. -/
theorem walks_root (h : tree.trail.fault = none) :
    tree.arena.Walks [.root tree.root] tree.trail.visits :=
  .of_run _ _ h

/-- The nodes of a tree are those that its walk meets. -/
theorem exists_visit_iff (h : tree.trail.fault = none) {id : NodeId} :
    (∃ visit ∈ tree.trail.visits, visit.id = id) ↔ tree.arena.Above tree.root id := by
  have hwalks := walks_root h
  constructor
  · rintro ⟨visit, hv, rfl⟩
    obtain ⟨origin, horigin, habove⟩ := hwalks.exists_above hv
    obtain rfl := List.mem_singleton.1 horigin
    exact habove
  · intro habove
    induction habove with
    | refl => exact ⟨_, hwalks.mem_of_pending List.mem_cons_self, rfl⟩
    | tail _ howns ih =>
      obtain ⟨visit, hv, rfl⟩ := ih
      obtain ⟨node, found, c, hc, rfl⟩ := howns
      obtain ⟨i, hi⟩ := List.getElem?_of_mem hc
      exact ⟨_, hwalks.below_mem hv found hi, rfl⟩

/-- The walk of a tree ends, and it meets every node of the tree exactly once. -/
def Strict (tree : Tree) : Prop :=
  ∃ visits, tree.walk = .ok visits ∧
    ∀ id, tree.arena.Above tree.root id → (visits.map Visit.id).count id = 1

/-- A tree is strict if its walk ends and meets no node twice. -/
theorem strict_iff :
    tree.Strict ↔ tree.trail.fault = none ∧ (tree.trail.visits.map Visit.id).Nodup := by
  constructor
  · rintro ⟨visits, hwalk, h⟩
    obtain ⟨hfault, rfl⟩ := walk_eq_ok_iff.1 hwalk
    refine ⟨hfault, List.nodup_iff_count_le_one.2 fun id => ?_⟩
    -- what the walk does not meet counts nothing, and what it meets is a node of the tree
    by_cases hmem : id ∈ tree.trail.visits.map Visit.id
    · exact (h id ((exists_visit_iff hfault).1 (List.mem_map.1 hmem))).le
    · rw [List.count_eq_zero_of_not_mem hmem]
      exact Nat.zero_le 1
  · rintro ⟨hfault, hnodup⟩
    refine ⟨_, walk_eq_ok_iff.2 ⟨hfault, rfl⟩, fun id habove => ?_⟩
    exact List.count_eq_one_of_mem hnodup (List.mem_map.2 ((exists_visit_iff hfault).2 habove))

instance (tree : Tree) : Decidable tree.Strict := decidable_of_iff _ strict_iff.symm

namespace Strict

theorem grounded (h : tree.Strict) : tree.arena.Grounded tree.root := by
  have hroot : Visit.root tree.root ∈ [Visit.root tree.root] := List.mem_cons_self
  exact (walks_root (strict_iff.1 h).1).grounded hroot

/-- A visit that the walk of a strict tree makes is the one that a search finds. -/
theorem find?_of_mem (h : tree.Strict) {visit : Visit} (hv : visit ∈ tree.trail.visits) :
    tree.find? visit.id = .ok (some visit) := by
  have hfind : tree.trail.visits.find? (·.id == visit.id) = some visit := by
    cases hsearch : tree.trail.visits.find? (·.id == visit.id) with
    | none => exact absurd (beq_self_eq_true visit.id) (List.find?_eq_none.1 hsearch visit hv)
    | some other =>
      have hid : other.id = visit.id := by simpa using List.find?_some hsearch
      have hother := List.mem_of_find?_eq_some hsearch
      rw [List.inj_on_of_nodup_map (strict_iff.1 h).2 hother hv hid]
  unfold Tree.find? Trail.find?
  rw [hfind]

theorem find?_root (h : tree.Strict) : tree.find? tree.root = .ok (some (.root tree.root)) :=
  h.find?_of_mem ((walks_root (strict_iff.1 h).1).mem_of_pending List.mem_cons_self)

section Place

variable {parent : NodeId} {x : Node} {c : Child} {i : Nat}

theorem find?_child (h : tree.Strict) (habove : tree.arena.Above tree.root parent)
    (found : tree.arena.node parent = .ok x) (hc : x.children[i]? = some c) :
    tree.find? c.id = .ok (some (.below parent c i)) := by
  obtain ⟨hfault, -⟩ := strict_iff.1 h
  obtain ⟨visit, hv, rfl⟩ := (exists_visit_iff hfault).2 habove
  exact h.find?_of_mem ((walks_root hfault).below_mem hv found hc)

theorem parent?_root (h : tree.Strict) : tree.parent? tree.root = .ok none := by
  unfold Tree.parent?
  rw [h.find?_root]
  rfl

/-- The parent of a child is the node that holds it. -/
theorem parent?_child (h : tree.Strict) (habove : tree.arena.Above tree.root parent)
    (found : tree.arena.node parent = .ok x) (hc : x.children[i]? = some c) :
    tree.parent? c.id = .ok (some parent) := by
  unfold Tree.parent?
  rw [h.find?_child habove found hc]
  rfl

/-- The root is no child. -/
theorem ne_root (h : tree.Strict) (habove : tree.arena.Above tree.root parent)
    (found : tree.arena.node parent = .ok x) (hc : x.children[i]? = some c) : c.id ≠ tree.root := by
  intro heq
  have hparent := h.parent?_child habove found hc
  rw [heq, h.parent?_root] at hparent
  cases hparent

/-- A child is held in one place. -/
theorem place_unique (h : tree.Strict) (habove : tree.arena.Above tree.root parent)
    (found : tree.arena.node parent = .ok x) (hc : x.children[i]? = some c) {parent' : NodeId}
    {x' : Node} {c' : Child} {i' : Nat} (habove' : tree.arena.Above tree.root parent')
    (found' : tree.arena.node parent' = .ok x') (hc' : x'.children[i']? = some c')
    (hid : c.id = c'.id) : parent = parent' ∧ i = i' := by
  have hfind := h.find?_child habove found hc
  rw [hid, h.find?_child habove' found' hc'] at hfind
  simp only [Visit.below, Except.ok.injEq, Option.some.injEq, Visit.mk.injEq] at hfind
  exact ⟨hfind.2.1.symm, hfind.2.2.1.symm⟩

end Place

end Strict

end Tree

end Interlingua
