import Interlingua.Arena.Basic
import Mathlib.Data.Fintype.Card

/-!
# Subtrees that end

A reference is *grounded* if everything below it can be followed and no path below it goes on for
ever: the subtree is closed and does not contain itself.

* `Arena.Grounded` — the property, by its paths.
* `Arena.GroundedTo` — the same with a bound on the length of the paths, in the shape of the
  functions that recurse over an arena with a depth.
* `Grounded.to_depthBound` — the number of nodes bounds the paths of every grounded subtree, so a
  recursion that starts with `Arena.depthBound` reaches its end.  Along the longest path the depths
  below the nodes are all different, so the nodes are, too.
-/

namespace Interlingua

namespace Arena

variable {arena : Arena} {id : NodeId} {depth : Nat}

/-- What an expression's identity names. -/
theorem node_of_expr {e : Expr} (h : arena.expr id = .ok e) : arena.node id = .ok (.expr e) := by
  unfold Arena.expr at h
  split at h
  · cases h
  · rename_i e' hn
    cases h
    exact hn
  · cases h

/-- What a statement's identity names. -/
theorem node_of_stmt {s : Stmt} (h : arena.stmt id = .ok s) : arena.node id = .ok (.stmt s) := by
  unfold Arena.stmt at h
  split at h
  · cases h
  · rename_i s' hn
    cases h
    exact hn
  · cases h

/-- What a declaration's identity names. -/
theorem node_of_decl {d : Decl} (h : arena.decl id = .ok d) : arena.node id = .ok (.decl d) := by
  unfold Arena.decl at h
  split at h
  · cases h
  · rename_i d' hn
    cases h
    exact hn
  · cases h

theorem expr_of_node {e : Expr} (h : arena.node id = .ok (.expr e)) : arena.expr id = .ok e := by
  simp only [Arena.expr, h]

theorem stmt_of_node {s : Stmt} (h : arena.node id = .ok (.stmt s)) : arena.stmt id = .ok s := by
  simp only [Arena.stmt, h]

theorem index_lt_of_node {node : Node} (h : arena.node id = .ok node) : id.index < arena.size := by
  unfold Arena.node Arena.node? at h
  split at h
  · rename_i found hf
    exact (Array.getElem?_eq_some_iff.1 hf).1
  · cases h

theorem isA_iff {node : Node} (found : arena.node id = .ok node) {category : Category} :
    arena.isA category id = true ↔ node.category = category := by
  unfold Arena.node at found
  split at found
  · rename_i hnode
    cases found
    simp only [isA, hnode, beq_iff_eq]
  · cases found

/-- The subtree is closed and does not contain itself. -/
inductive Grounded (arena : Arena) : NodeId → Prop
  | intro {id : NodeId} {node : Node} (found : arena.node id = .ok node)
      (below : ∀ child ∈ node.children, Grounded arena child.id) : Grounded arena id

/-- The subtree is closed, and a path down it has at most `depth` nodes. -/
def GroundedTo (arena : Arena) : Nat → NodeId → Prop
  | 0, _ => False
  | depth + 1, id =>
    ∃ node, arena.node id = .ok node ∧ ∀ child ∈ node.children, GroundedTo arena depth child.id

namespace GroundedTo

theorem succ : ∀ {depth : Nat} {id : NodeId},
    GroundedTo arena depth id → GroundedTo arena (depth + 1) id
  | 0, _, h => h.elim
  | _ + 1, _, ⟨node, found, below⟩ => ⟨node, found, fun child hc => succ (below child hc)⟩

theorem mono {more : Nat} (h : GroundedTo arena depth id) (hle : depth ≤ more) :
    GroundedTo arena more id := by
  induction hle with
  | refl => exact h
  | step _ ih => exact succ ih

/-- A path that starts at a child has a node less. -/
theorem child {node : Node} (h : GroundedTo arena (depth + 1) id)
    (found : arena.node id = .ok node) {c : Child} (hc : c ∈ node.children) :
    GroundedTo arena depth c.id := by
  obtain ⟨node', found', hall⟩ := h
  rw [found] at found'
  cases found'
  exact hall c hc

/-- The same for the children of an expression. -/
theorem belowExpr {e : Expr} (h : GroundedTo arena (depth + 1) id) (found : arena.expr id = .ok e) :
    ∀ c ∈ e.children, GroundedTo arena depth c.id := fun _ hc =>
  h.child (node_of_expr found) hc

theorem pos (h : GroundedTo arena depth id) : ∃ less, depth = less + 1 := by
  cases depth with
  | zero => exact h.elim
  | succ less => exact ⟨less, rfl⟩

theorem grounded : ∀ {depth : Nat} {id : NodeId}, GroundedTo arena depth id → Grounded arena id
  | 0, _, h => h.elim
  | _ + 1, _, ⟨_, found, below⟩ => .intro found fun child hc => grounded (below child hc)

end GroundedTo

instance decidableGroundedTo (arena : Arena) :
    (depth : Nat) → (id : NodeId) → Decidable (GroundedTo arena depth id)
  | 0, _ => isFalse fun h => h
  | depth + 1, id =>
    have := decidableGroundedTo arena depth
    match h : arena.node id with
    | .error _ => isFalse fun ⟨_, found, _⟩ => by
        rw [h] at found
        cases found
    | .ok node =>
      decidable_of_iff (∀ child ∈ node.children, GroundedTo arena depth child.id)
        ⟨fun below => ⟨node, h, below⟩, fun ⟨_, found, below⟩ => by
          rw [h] at found
          cases found
          exact below⟩

/-- The longest path down the subtree has exactly `depth` nodes. -/
def Deep (arena : Arena) (depth : Nat) (id : NodeId) : Prop :=
  GroundedTo arena depth id ∧ ∀ less < depth, ¬ GroundedTo arena less id

theorem GroundedTo.exists_deep (h : GroundedTo arena depth id) :
    ∃ exactly ≤ depth, Deep arena exactly id := by
  classical
  let exactly := Nat.find (p := fun n => GroundedTo arena n id) ⟨depth, h⟩
  refine ⟨exactly, Nat.find_min' _ h, Nat.find_spec (p := fun n => GroundedTo arena n id) _, ?_⟩
  intro less hless
  exact Nat.find_min (p := fun n => GroundedTo arena n id) _ hless

/-- A longest path goes on through some child. -/
theorem Deep.exists_below (h : Deep arena (depth + 2) id) : ∃ child, Deep arena (depth + 1) child := by
  obtain ⟨⟨node, found, hall⟩, hmin⟩ := h
  -- otherwise a shorter bound would hold of the node itself
  by_contra hnone
  refine hmin (depth + 1) (by omega) ⟨node, found, fun child hc => ?_⟩
  obtain ⟨exactly, hle, hdeep⟩ := (hall child hc).exists_deep
  have hne : exactly ≠ depth + 1 := fun he => hnone ⟨child.id, he ▸ hdeep⟩
  exact hdeep.1.mono (by omega)

/-- Every depth up to that of the whole subtree is the depth below some node. -/
theorem Deep.exists_of_le (h : Deep arena depth id) :
    ∀ k, 1 ≤ k → k ≤ depth → ∃ node, Deep arena k node := by
  intro k hk hle
  obtain ⟨gap, rfl⟩ : ∃ gap, depth = k + gap := ⟨depth - k, by omega⟩
  clear hle
  induction gap generalizing id with
  | zero => exact ⟨id, h⟩
  | succ gap ih =>
    obtain ⟨less, rfl⟩ : ∃ less, k = less + 1 := ⟨k - 1, by omega⟩
    rw [show less + 1 + (gap + 1) = less + gap + 2 by omega] at h
    obtain ⟨child, hchild⟩ := h.exists_below
    rw [show less + gap + 1 = less + 1 + gap by omega] at hchild
    exact ih hchild

theorem Deep.unique {other : Nat} (h : Deep arena depth id) (h' : Deep arena other id) :
    depth = other := by
  rcases Nat.lt_trichotomy depth other with hlt | heq | hgt
  · exact absurd h.1 (h'.2 depth hlt)
  · exact heq
  · exact absurd h'.1 (h.2 other hgt)

theorem Deep.le_size (h : Deep arena depth id) : depth ≤ arena.size := by
  have hex : ∀ k : Fin depth, ∃ node, Deep arena (k + 1) node := fun k =>
    h.exists_of_le (k + 1) (by omega) k.isLt
  choose at_ hat using hex
  have hlt : ∀ k, (at_ k).index < arena.size := fun k => by
    obtain ⟨node, found, _⟩ := (hat k).1
    exact index_lt_of_node found
  -- nodes of different depths are different nodes
  have hinj : Function.Injective fun k : Fin depth => (⟨(at_ k).index, hlt k⟩ : Fin arena.size) := by
    intro j k hjk
    have hid : at_ j = at_ k := by
      simp only [Fin.mk.injEq] at hjk
      cases hj : at_ j
      cases hk : at_ k
      simp_all
    have hdepth := (hat j).unique (hid ▸ hat k)
    exact Fin.ext (by omega)
  simpa using Fintype.card_le_of_injective _ hinj

namespace Grounded

theorem exists_depth (h : Grounded arena id) : ∃ depth, GroundedTo arena depth id := by
  induction h with
  | @intro id node found _ ih =>
    -- one bound for all children: the sum of theirs
    have hall : ∀ children : List Child, (∀ child ∈ children, ∃ depth, GroundedTo arena depth child.id) →
        ∃ depth, ∀ child ∈ children, GroundedTo arena depth child.id := by
      intro children
      induction children with
      | nil => exact fun _ => ⟨0, fun child hc => by cases hc⟩
      | cons first rest ihr =>
        intro hex
        obtain ⟨m, hm⟩ := hex first (List.mem_cons_self ..)
        obtain ⟨n, hn⟩ := ihr fun child hc => hex child (List.mem_cons_of_mem _ hc)
        refine ⟨m + n, fun child hc => ?_⟩
        rcases List.mem_cons.1 hc with rfl | hc
        · exact hm.mono (by omega)
        · exact (hn child hc).mono (by omega)
    obtain ⟨depth, hdepth⟩ := hall node.children ih
    exact ⟨depth + 1, node, found, hdepth⟩

/-- **No path down a grounded subtree is longer than the arena has nodes.** -/
theorem to_size (h : Grounded arena id) : GroundedTo arena arena.size id := by
  obtain ⟨depth, hdepth⟩ := h.exists_depth
  obtain ⟨exactly, _, hdeep⟩ := hdepth.exists_deep
  exact hdeep.1.mono hdeep.le_size

/-- A recursion that starts with the depth bound of the arena reaches the end of the subtree. -/
theorem to_depthBound (h : Grounded arena id) : GroundedTo arena arena.depthBound id :=
  h.to_size.succ

end Grounded

end Arena

end Interlingua
