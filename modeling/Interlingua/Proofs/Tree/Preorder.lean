import Interlingua.Proofs.Tree.Walk

/-!
# The walk is the listing in pre-order

A walk keeps the visits still to be made on one stack.  What it yields is what the recursion over
the tree lists: a node, then the listing of each of its children in turn.

* `Arena.InPreorder` — the recursive listing of some siblings, by the tree alone.
* `Arena.walks_iff_inPreorder` — a walk that ends yields the listing of what was pending, and every
  listing is yielded.  The stack of a walk at any time is what is left to list: the listing of the
  stack is the listing of its upper part followed by that of its lower part.
* `Walks.exists_segment` — the visits below a visit follow it without a gap.
* `Tree.walk_in_preorder` — the walk of a tree is its listing, a search finds what the tree owns,
  and the walk of a subtree is a segment of the walk of the tree.
-/

namespace Interlingua

namespace Arena

variable {arena : Arena} {pending visits : List Visit} {visit : Visit}

/-- The listing of siblings: each of them, followed by the listing of its own children. -/
inductive InPreorder (arena : Arena) : List Visit → List Visit → Prop
  | nil : InPreorder arena [] []
  | cons {visit : Visit} {node : Node} {rest below after : List Visit}
      (found : arena.node visit.id = .ok node)
      (children : InPreorder arena (visitsBelow visit.id node) below)
      (siblings : InPreorder arena rest after) :
      InPreorder arena (visit :: rest) (visit :: (below ++ after))

namespace InPreorder

/-- The listing of some siblings and others is that of the ones and then that of the others. -/
theorem exists_append {pending' : List Visit} (h : arena.InPreorder (pending ++ pending') visits) :
    ∃ first second, visits = first ++ second ∧ arena.InPreorder pending first ∧
      arena.InPreorder pending' second := by
  induction pending generalizing visits with
  | nil => exact ⟨[], visits, rfl, .nil, h⟩
  | cons visit rest ih =>
    cases h with
    | @cons _ node _ below after found children siblings =>
      obtain ⟨first, second, rfl, hfirst, hsecond⟩ := ih siblings
      refine ⟨visit :: (below ++ first), second, ?_, .cons found children hfirst, hsecond⟩
      rw [List.cons_append, List.append_assoc]

/-- Siblings have one listing. -/
theorem unique {visits' : List Visit} (h : arena.InPreorder pending visits)
    (h' : arena.InPreorder pending visits') : visits = visits' := by
  induction h generalizing visits' with
  | nil =>
    cases h'
    rfl
  | cons found _ _ ihchildren ihsiblings =>
    cases h' with
    | cons found' children' siblings' =>
      rw [found] at found'
      cases found'
      rw [ihchildren children', ihsiblings siblings']

end InPreorder

/-- **A walk that ends yields the listing of what was pending**, and it yields every listing. -/
theorem walks_iff_inPreorder : arena.Walks pending visits ↔ arena.InPreorder pending visits := by
  constructor
  · intro h
    induction h with
    | nil => exact .nil
    | cons found _ ih =>
      obtain ⟨below, after, rfl, hbelow, hafter⟩ := ih.exists_append
      exact .cons found hbelow hafter
  · intro h
    -- whatever is on the stack below the siblings is walked after them
    have hrest : ∀ {rest out : List Visit}, arena.Walks rest out →
        arena.Walks (pending ++ rest) (visits ++ out) := by
      induction h with
      | nil => exact fun hout => hout
      | @cons visit node rest below after found _ _ ihchildren ihsiblings =>
        intro stack out hout
        rw [List.cons_append, List.cons_append, List.append_assoc]
        exact .cons found (ihchildren (ihsiblings hout))
    simpa using hrest .nil

namespace Walks

/-- What a walk meets was pending, or is a child of what it meets. -/
theorem exists_place (h : arena.Walks pending visits) (hv : visit ∈ visits) :
    visit ∈ pending ∨ ∃ parent ∈ visits, ∃ node, arena.node parent.id = .ok node ∧
      visit ∈ visitsBelow parent.id node := by
  induction h with
  | nil => cases hv
  | @cons first node rest _ found _ ih =>
    rcases List.mem_cons.1 hv with rfl | hv
    · exact .inl List.mem_cons_self
    rcases ih hv with hpending | ⟨parent, hparent, hplace⟩
    · rcases List.mem_append.1 hpending with hbelow | hrest
      · exact .inr ⟨first, List.mem_cons_self, node, found, hbelow⟩
      · exact .inl (List.mem_cons_of_mem _ hrest)
    · exact .inr ⟨parent, List.mem_cons_of_mem _ hparent, hplace⟩

/-- The visits below a visit follow it without a gap. -/
theorem exists_segment {before after : List Visit}
    (h : arena.Walks pending (before ++ visit :: after)) :
    ∃ node segment rest, arena.node visit.id = .ok node ∧
      arena.InPreorder (visitsBelow visit.id node) segment ∧ after = segment ++ rest := by
  induction before generalizing pending with
  | nil =>
    cases h with
    | @cons _ node _ _ found onward =>
      obtain ⟨segment, rest, hafter, hsegment, -⟩ := (walks_iff_inPreorder.1 onward).exists_append
      exact ⟨node, segment, rest, found, hsegment, hafter⟩
  | cons _ _ ih =>
    cases h with
    | cons _ onward => exact ih onward

end Walks

end Arena

namespace Tree

variable {tree : Tree} {visits : List Visit}

/-- **The walk of a tree is its listing.** -/
theorem walk_eq_ok_iff_inPreorder :
    tree.walk = .ok visits ↔ tree.arena.InPreorder [.root tree.root] visits := by
  constructor
  · intro h
    obtain ⟨hfault, rfl⟩ := walk_eq_ok_iff.1 h
    exact Arena.walks_iff_inPreorder.1 (walks_root hfault)
  · intro h
    have hground : tree.arena.Grounded (Visit.root tree.root).id :=
      (Arena.walks_iff_inPreorder.2 h).grounded List.mem_cons_self
    have hfault := fault_trail hground
    have hlisted := Arena.walks_iff_inPreorder.1 (walks_root hfault)
    exact walk_eq_ok_iff.2 ⟨hfault, hlisted.unique h⟩

/-- A search reads the walk, if that ends. -/
theorem find?_of_walk (h : tree.walk = .ok visits) (id : NodeId) :
    tree.find? id = .ok (visits.find? (·.id == id)) := by
  obtain ⟨hfault, rfl⟩ := walk_eq_ok_iff.1 h
  unfold Tree.find? Trail.find?
  rw [hfault]
  cases tree.trail.visits.find? (·.id == id) <;> rfl

/-- The visit that a search finds, with what the walk yields before and after it. -/
theorem exists_split_of_above (h : tree.walk = .ok visits) {id : NodeId}
    (habove : tree.arena.Above tree.root id) :
    ∃ before first after, visits = before ++ first :: after ∧
      (∀ visit ∈ before, visit.id ≠ id) ∧ first.id = id ∧
      tree.find? id = .ok (some first) := by
  obtain ⟨hfault, hvisits⟩ := walk_eq_ok_iff.1 h
  obtain ⟨visit, hv, hid⟩ := (exists_visit_iff hfault).2 habove
  rw [hvisits] at hv
  cases hsearch : visits.find? fun visit => visit.id == id with
  | none => exact absurd (beq_iff_eq.2 hid) (List.find?_eq_none.1 hsearch visit hv)
  | some first =>
    obtain ⟨hfirst, before, after, hsplit, hbefore⟩ := List.find?_eq_some_iff_append.1 hsearch
    refine ⟨before, first, after, hsplit, fun visit hv => ?_, beq_iff_eq.1 hfirst, ?_⟩
    · simpa using hbefore visit hv
    · rw [find?_of_walk h, hsearch]

theorem find?_of_not_above (h : tree.walk = .ok visits) {id : NodeId}
    (hnot : ¬ tree.arena.Above tree.root id) : tree.find? id = .ok none := by
  obtain ⟨hfault, hvisits⟩ := walk_eq_ok_iff.1 h
  rw [find?_of_walk h, List.find?_eq_none.2]
  intro visit hv
  rw [beq_iff_eq]
  rintro rfl
  exact hnot ((exists_visit_iff hfault).1 ⟨visit, hvisits ▸ hv, rfl⟩)

/-- What the walk of a tree meets is its root, or is met below a node that it meets, at its place
among the children of that node. -/
theorem place_of_mem (h : tree.walk = .ok visits) {visit : Visit} (hv : visit ∈ visits) :
    visit = .root tree.root ∨ ∃ parent ∈ visits, ∃ children i, visit.parent = some parent.id ∧
      visit.index = some i ∧ tree.arena.children parent.id = .ok children ∧
      children[i]? = some ⟨visit.id, visit.field⟩ := by
  obtain ⟨hfault, rfl⟩ := walk_eq_ok_iff.1 h
  rcases (walks_root hfault).exists_place hv with hroot | ⟨parent, hparent, node, found, hplace⟩
  · exact .inl (List.mem_singleton.1 hroot)
  · obtain ⟨i, hi, rfl⟩ := List.mem_mapIdx.1 hplace
    refine .inr ⟨parent, hparent, node.children, i, rfl, rfl, ?_, List.getElem?_eq_getElem hi⟩
    simp only [Arena.children, found]

/-- The walk of a subtree, and where it stands in the walk of the tree. -/
theorem exists_segment_of_above (h : tree.walk = .ok visits) {id : NodeId}
    (habove : tree.arena.Above tree.root id) :
    ∃ before first segment rest, visits = before ++ first :: (segment ++ rest) ∧
      (∀ visit ∈ before, visit.id ≠ id) ∧ first.id = id ∧ tree.find? id = .ok (some first) ∧
      (⟨tree.arena, id⟩ : Tree).walk = .ok (.root id :: segment) := by
  obtain ⟨before, first, after, rfl, hbefore, rfl, hfind⟩ := exists_split_of_above h habove
  have hwalks := Arena.walks_iff_inPreorder.2 (walk_eq_ok_iff_inPreorder.1 h)
  obtain ⟨node, segment, rest, found, hsegment, rfl⟩ := hwalks.exists_segment
  refine ⟨before, first, segment, rest, rfl, hbefore, rfl, hfind, ?_⟩
  have hlisted : tree.arena.InPreorder [.root first.id] (.root first.id :: (segment ++ [])) :=
    .cons found hsegment .nil
  rw [List.append_nil] at hlisted
  exact walk_eq_ok_iff_inPreorder.2 hlisted

/-- **The walk is the unfolding of the tree in pre-order.**  The walk of a tree that is closed and
does not contain itself ends.  It is the listing of the root, and each visit is to the child that
the parent has at that place.  A search finds exactly the nodes that the root owns, directly or
not.  The walk of the subtree below such a node is a segment of the walk of the tree, from the first
visit to the node on; only that visit is then one to a root. -/
theorem walk_in_preorder (hroot : tree.arena.Grounded tree.root) :
    ∃ visits, tree.walk = .ok visits ∧ tree.arena.InPreorder [.root tree.root] visits ∧
      (∀ visit ∈ visits, visit = .root tree.root ∨ ∃ parent ∈ visits, ∃ children i,
        visit.parent = some parent.id ∧ visit.index = some i ∧
        tree.arena.children parent.id = .ok children ∧
        children[i]? = some ⟨visit.id, visit.field⟩) ∧
      (∀ id, ¬ tree.arena.Above tree.root id →
        tree.find? id = .ok none ∧ tree.subtree? id = .ok none) ∧
      ∀ id, tree.arena.Above tree.root id → ∃ subtree before first segment rest,
        tree.find? id = .ok (some first) ∧ tree.subtree? id = .ok (some subtree) ∧
        visits = before ++ first :: (segment ++ rest) ∧ (∀ visit ∈ before, visit.id ≠ id) ∧
        first.id = id ∧ subtree.walk =
          .ok ({ first with parent := none, index := none, field := "root" } :: segment) := by
  have hwalk : tree.walk = .ok tree.trail.visits := walk_eq_ok_iff.2 ⟨fault_trail hroot, rfl⟩
  refine ⟨_, hwalk, walk_eq_ok_iff_inPreorder.1 hwalk, fun visit hv => place_of_mem hwalk hv,
    fun id hnot => ?_, fun id habove => ?_⟩
  · have hfind := find?_of_not_above hwalk hnot
    refine ⟨hfind, ?_⟩
    unfold subtree?
    rw [hfind]
    rfl
  · obtain ⟨before, first, segment, rest, hsplit, hbefore, rfl, hfind, hsegment⟩ :=
      exists_segment_of_above hwalk habove
    refine ⟨⟨tree.arena, first.id⟩, before, first, segment, rest, hfind, ?_, hsplit, hbefore, rfl,
      hsegment⟩
    unfold subtree?
    rw [hfind]
    rfl

/-- A call with a sum and one of its operands for arguments.  The grouped operand is met twice, with
different fields; its subtree is the segment after the first visit. -/
theorem walk_in_preorder_shared :
    let tree : Tree := ⟨⟨#[.expr (.ident "x"), .expr (.paren ⟨0⟩), .expr (.binary .add ⟨1⟩ ⟨0⟩),
      .expr (.call ⟨0⟩ [⟨1⟩, ⟨2⟩])]⟩, ⟨3⟩⟩
    let visits : List Visit := [.root ⟨3⟩, ⟨⟨0⟩, some ⟨3⟩, some 0, "callee"⟩,
      ⟨⟨1⟩, some ⟨3⟩, some 1, "args"⟩, ⟨⟨0⟩, some ⟨1⟩, some 0, "inner"⟩,
      ⟨⟨2⟩, some ⟨3⟩, some 2, "args"⟩, ⟨⟨1⟩, some ⟨2⟩, some 0, "left"⟩,
      ⟨⟨0⟩, some ⟨1⟩, some 0, "inner"⟩, ⟨⟨0⟩, some ⟨2⟩, some 1, "right"⟩]
    tree.arena.Grounded tree.root ∧ tree.walk = .ok visits ∧
      tree.arena.InPreorder [.root ⟨3⟩] visits ∧
      ∃ subtree first segment, tree.find? ⟨1⟩ = .ok (some first) ∧
        tree.subtree? ⟨1⟩ = .ok (some subtree) ∧ subtree.walk =
          .ok ({ first with parent := none, index := none, field := "root" } :: segment) := by
  intro tree visits
  have hfacts : tree.arena.GroundedTo 5 tree.root ∧ tree.walk = .ok visits := by
    decide +revert
  have habove : tree.arena.Above tree.root ⟨1⟩ := by
    have hplace : (⟨⟨1⟩, "args"⟩ : Child) ∈ (Expr.call ⟨0⟩ [⟨1⟩, ⟨2⟩]).children := by decide
    have found : tree.arena.node ⟨3⟩ = .ok (.expr (.call ⟨0⟩ [⟨1⟩, ⟨2⟩])) := rfl
    exact .single (Arena.owns_of_mem found hplace)
  obtain ⟨_, hwalk, hlisted, -, -, hsegments⟩ := walk_in_preorder hfacts.1.grounded
  cases hwalk.symm.trans hfacts.2
  obtain ⟨subtree, -, first, segment, -, hfind, hsubtree, -, -, -, hsegment⟩ := hsegments ⟨1⟩ habove
  exact ⟨hfacts.1.grounded, hfacts.2, hlisted, subtree, first, segment, hfind, hsubtree, hsegment⟩

end Tree

end Interlingua
