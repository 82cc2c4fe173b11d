import Interlingua.Proofs.Arena.History
import Interlingua.Proofs.Tree.Walk
import Mathlib.Data.List.Nodup
import Mathlib.Data.List.Perm.Basic

/-!
# Exclusive ownership

A node that is given a place must be *detached*: no node owns it yet.  If all steps in the life of
an arena keep to this, every node has one place at most, whatever is attached, replaced or refused.

* `Arena.Holds` — what stands in the slots of an arena; `Arena.Exclusive` — nothing stands in two.
* `Arena.Exclusive.of_change` — one node gets other children; both kinds of step do that.
* `Arena.Exclusive.strict` — then the subtrees of two children of a node have nothing in common, so
  a walk meets every node once.
* `Arena.run_exclusive` — after any steps that attach detached nodes only, ownership is exclusive,
  and a node that is met below a root has its only owner for its parent.
-/

namespace Interlingua

namespace Arena

variable {arena : Arena} {parent child block node : NodeId} {index : Nat}

/-! ## Slots -/

/-- A slot of a node holds another one: the latter is the child at that position. -/
def Holds (arena : Arena) (parent : NodeId) (index : Nat) (child : NodeId) : Prop :=
  ∃ x, arena.node parent = .ok x ∧ (x.children.map Child.id)[index]? = some child

/-- Every node stands in one slot at most. -/
def Exclusive (arena : Arena) : Prop :=
  ∀ ⦃child parent parent' : NodeId⦄ ⦃index index' : Nat⦄,
    arena.Holds parent index child → arena.Holds parent' index' child →
      parent = parent' ∧ index = index'

theorem owns_iff_holds : arena.Owns parent child ↔ ∃ index, arena.Holds parent index child := by
  constructor
  · rintro ⟨x, found, c, hc, rfl⟩
    obtain ⟨index, hindex⟩ := List.getElem?_of_mem (List.mem_map_of_mem hc)
    exact ⟨index, x, found, hindex⟩
  · rintro ⟨index, x, found, hindex⟩
    exact ⟨x, found, List.mem_map.1 (List.mem_of_getElem? hindex)⟩

theorem Exclusive.owner_unique (h : arena.Exclusive) {parent' : NodeId}
    (howns : arena.Owns parent child) (howns' : arena.Owns parent' child) : parent = parent' := by
  obtain ⟨index, hholds⟩ := owns_iff_holds.1 howns
  obtain ⟨index', hholds'⟩ := owns_iff_holds.1 howns'
  exact (h hholds hholds').1

/-! ## Detached nodes -/

/-- No node owns it. -/
def Detached (arena : Arena) (id : NodeId) : Prop := ∀ parent, ¬ arena.Owns parent id

theorem detached_iff {id : NodeId} :
    arena.Detached id ↔ ∀ x ∈ arena.nodes.toList, ∀ c ∈ x.children, c.id ≠ id := by
  constructor
  · intro h x hx c hc heq
    obtain ⟨position, hposition⟩ := List.getElem?_of_mem hx
    refine h ⟨position⟩ ⟨x, ?_, c, hc, heq⟩
    simp only [Array.getElem?_toList] at hposition
    simp only [Arena.node, Arena.node?, hposition]
  · rintro h parent ⟨x, found, c, hc, heq⟩
    exact h x (mem_of_node found) c hc heq

instance (arena : Arena) (id : NodeId) : Decidable (arena.Detached id) :=
  decidable_of_iff _ detached_iff.symm

/-! ## One step -/

/-- One node gets other children, which have no place elsewhere. -/
theorem Exclusive.of_change {after : Arena} (site : NodeId) {ids : List NodeId}
    (h : arena.Exclusive)
    (hchange : ∀ parent index child, after.Holds parent index child ↔
      if parent = site then ids[index]? = some child else arena.Holds parent index child)
    (hnodup : ids.Nodup)
    (hfree : ∀ child ∈ ids, ∀ parent, arena.Owns parent child → parent = site) :
    after.Exclusive := by
  have hapart : ∀ {child parent : NodeId} {index index' : Nat}, parent ≠ site →
      arena.Holds parent index child → ids[index']? ≠ some child := by
    intro child parent index index' hne hholds hsome
    exact hne (hfree child (List.mem_of_getElem? hsome) parent (owns_iff_holds.2 ⟨index, hholds⟩))
  intro child parent parent' index index' hholds hholds'
  rw [hchange] at hholds hholds'
  -- two slots of the changed node, a slot there and one elsewhere, or two slots that were there
  split at hholds <;> rename_i hsite <;> split at hholds' <;> rename_i hsite'
  · refine ⟨hsite.trans hsite'.symm, ?_⟩
    obtain ⟨hlt, -⟩ := List.getElem?_eq_some_iff.1 hholds
    exact (List.getElem?_inj hlt hnodup).1 (hholds.trans hholds'.symm)
  · exact absurd hholds (hapart hsite' hholds')
  · exact absurd hholds' (hapart hsite hholds)
  · exact h hholds hholds'

namespace Step

/-- The nodes that a step gives a place. -/
def attaches : Step → List NodeId
  | .alloc node => node.children.map Child.id
  | .edit _ _ node => [node]

/-- What a step gives a place is there, has none yet, and gets one only. -/
def AdmittedDetached (step : Step) (arena : Arena) : Prop :=
  step.attaches.Nodup ∧ ∀ id ∈ step.attaches, arena.contains id = true ∧ arena.Detached id

instance (step : Step) (arena : Arena) : Decidable (step.AdmittedDetached arena) :=
  inferInstanceAs (Decidable (_ ∧ _))

theorem AdmittedDetached.admitted {step : Step} (h : step.AdmittedDetached arena) :
    step.Admitted arena := by
  cases step with
  | alloc x => exact fun c hc => (h.2 c.id (List.mem_map_of_mem hc)).1
  | edit _ _ node => exact (h.2 node (List.mem_singleton_self node)).1

end Step

theorem Exclusive.alloc {added : Node} (h : arena.Exclusive)
    (hadmitted : (Step.alloc added).AdmittedDetached arena) :
    (arena.alloc added).2.Exclusive := by
  refine h.of_change arena.nextId (fun parent index child => ?_) hadmitted.1 ?_
  · unfold Holds
    rw [node_alloc]
    by_cases heq : parent = arena.nextId <;> simp [heq, Step.attaches]
  · exact fun id hid parent howns => absurd howns ((hadmitted.2 id hid).2 parent)

theorem holds_block_iff {body : List NodeId} (h : arena.blockBody? block = some body) :
    arena.Holds block index child ↔ body[index]? = some child := by
  simp [Holds, node_of_blockBody? h, Node.children, Stmt.children, held]

/-- A block keeps its statements apart if it gets a detached one. -/
theorem Edit.nodup_newBody {edit : Edit} {body new : List NodeId} (hbody : body.Nodup)
    (hnode : node ∉ body) (hnew : edit.newBody? body node = some new) : new.Nodup := by
  cases edit with
  | insert index =>
    simp only [newBody?, Option.ite_none_right_eq_some, Option.some.injEq] at hnew
    obtain ⟨hle, rfl⟩ := hnew
    exact (List.perm_insertIdx node body hle).nodup_iff.2 (List.nodup_cons.2 ⟨hnode, hbody⟩)
  | substitute index =>
    simp only [newBody?, Option.ite_none_right_eq_some, Option.some.injEq] at hnew
    obtain ⟨-, rfl⟩ := hnew
    exact hbody.set hnode

theorem Exclusive.setBody {edit : Edit} {body new : List NodeId} (h : arena.Exclusive)
    (hbody : arena.blockBody? block = some body) (hnew : edit.newBody? body node = some new)
    (hdetached : arena.Detached node) : (arena.setBody block new).Exclusive := by
  have hold : ∀ id ∈ body, ∀ parent, arena.Owns parent id → parent = block :=
    fun id hid parent howns => h.owner_unique howns ((owns_block_iff hbody id).2 hid)
  have hnodup : body.Nodup := by
    refine List.nodup_iff_getElem?_ne_getElem?.2 fun i j hij hj heq => ?_
    have hi := (holds_block_iff hbody).2 (heq.trans (List.getElem?_eq_getElem hj))
    have hj := (holds_block_iff hbody).2 (List.getElem?_eq_getElem hj)
    exact absurd (h hi hj).2 (Nat.ne_of_lt hij)
  refine h.of_change block (fun parent index child => ?_) (Edit.nodup_newBody hnodup ?_ hnew) ?_
  · unfold Holds
    rw [node_setBody hbody]
    by_cases heq : parent = block <;> simp [heq, Node.children, Stmt.children, held]
  · exact fun hmem => hdetached block ((owns_block_iff hbody node).2 hmem)
  · intro id hid parent howns
    rcases Edit.eq_or_mem_of_mem_newBody hnew id hid with rfl | hid
    · exact absurd howns (hdetached parent)
    · exact hold id hid parent howns

/-- **One step keeps ownership exclusive**, be it made or refused. -/
theorem Step.apply_exclusive {step : Step} (hadmitted : step.AdmittedDetached arena)
    (hclosed : arena.Closed) (hacyclic : arena.Acyclic) (h : arena.Exclusive) :
    (step.apply arena).Exclusive := by
  cases step with
  | alloc added => exact h.alloc hadmitted
  | edit made block node =>
    cases hrun : made.run arena block node with
    | error error => simpa only [apply, hrun] using h
    | ok after =>
      simp only [apply, hrun]
      obtain ⟨hcontains, hdetached⟩ := hadmitted.2 node (List.mem_singleton_self node)
      obtain ⟨body, new, hbody, hnew⟩ := Edit.of_run_ok hrun
      rcases Edit.run_cases hclosed hacyclic hbody hcontains hnew with ⟨-, hmade⟩ | ⟨-, hmade⟩
      · rw [hrun] at hmade
        cases hmade
      · rw [hrun] at hmade
        cases hmade
        exact h.setBody hbody hnew hdetached

/-! ## Histories -/

/-- Each of some steps gives places to detached nodes of the arena that it is made in. -/
def AdmitsDetached (arena : Arena) : List Step → Prop
  | [] => True
  | step :: rest => step.AdmittedDetached arena ∧ (step.apply arena).AdmitsDetached rest

instance decidableAdmitsDetached :
    (arena : Arena) → (steps : List Step) → Decidable (arena.AdmitsDetached steps)
  | _, [] => inferInstanceAs (Decidable True)
  | arena, step :: rest =>
    have := decidableAdmitsDetached (step.apply arena) rest
    inferInstanceAs (Decidable (_ ∧ _))

theorem AdmitsDetached.of_prefix {made steps : List Step} (h : arena.AdmitsDetached steps)
    (hmade : made <+: steps) : arena.AdmitsDetached made := by
  induction made generalizing arena steps with
  | nil => trivial
  | cons step made ih =>
    obtain ⟨rest, rfl⟩ := hmade
    exact ⟨h.1, ih h.2 (List.prefix_append made rest)⟩

theorem AdmitsDetached.admits {steps : List Step} (h : arena.AdmitsDetached steps) :
    arena.Admits steps := by
  induction steps generalizing arena with
  | nil => trivial
  | cons step rest ih => exact ⟨h.1.admitted, ih h.2⟩

theorem run_keeps_exclusive (steps : List Step) (hadmits : arena.AdmitsDetached steps)
    (hclosed : arena.Closed) (hacyclic : arena.Acyclic) (h : arena.Exclusive) :
    (arena.run steps).Exclusive := by
  induction steps generalizing arena with
  | nil => exact h
  | cons step rest ih =>
    obtain ⟨hclosed', hacyclic'⟩ := step.apply_acyclic hadmits.1.admitted hclosed hacyclic
    exact ih hadmits.2 hclosed' hacyclic' (step.apply_exclusive hadmits.1 hclosed hacyclic h)

/-! ## Walks -/

/-- A child does not lie below another child of its owner: the way up from it goes through the
owner, which lies below neither. -/
theorem Exclusive.not_above_sibling (h : arena.Exclusive) (hacyclic : arena.Acyclic)
    {sibling : NodeId} {index' : Nat} (hholds : arena.Holds parent index child)
    (hholds' : arena.Holds parent index' sibling) (hne : index ≠ index') :
    ¬ arena.Above child sibling := by
  intro habove
  rcases habove.cases_tail with rfl | ⟨owner, howner, howns⟩
  · exact hne (h hholds hholds').2
  · have heq : owner = parent := h.owner_unique howns (owns_iff_holds.2 ⟨index', hholds'⟩)
    exact hacyclic parent (.head' (owns_iff_holds.2 ⟨index, hholds⟩) (heq ▸ howner))

/-- The owners of a node, their owners and so on stand above one another. -/
theorem Exclusive.above_total (h : arena.Exclusive) {first second below : NodeId}
    (hfirst : arena.Above first below) (hsecond : arena.Above second below) :
    arena.Above first second ∨ arena.Above second first := by
  have hunique : Relator.RightUnique (Function.swap arena.Owns) :=
    fun _ _ _ howns howns' => h.owner_unique howns howns'
  have htotal := Relation.ReflTransGen.total_of_right_unique hunique
    (Relation.reflTransGen_swap.2 hfirst) (Relation.reflTransGen_swap.2 hsecond)
  exact htotal.symm.imp Relation.reflTransGen_swap.1 Relation.reflTransGen_swap.1

/-- Nothing lies below both of two visits. -/
def Apart (arena : Arena) (first second : Visit) : Prop :=
  ∀ id, arena.Above first.id id → ¬ arena.Above second.id id

theorem Exclusive.pairwise_visitsBelow (h : arena.Exclusive) (hacyclic : arena.Acyclic)
    {id : NodeId} {x : Node} (found : arena.node id = .ok x) :
    (visitsBelow id x).Pairwise arena.Apart := by
  have hholds (i : Nat) (hi : i < (visitsBelow id x).length) :
      arena.Holds id i (visitsBelow id x)[i].id := by
    refine ⟨x, found, ?_⟩
    rw [← map_id_visitsBelow id, List.getElem?_map, List.getElem?_eq_getElem hi]
    rfl
  rw [List.pairwise_iff_getElem]
  intro i j hi hj hij below hfirst hsecond
  rcases h.above_total hfirst hsecond with habove | habove
  · exact h.not_above_sibling hacyclic (hholds i hi) (hholds j hj) (Nat.ne_of_lt hij) habove
  · exact h.not_above_sibling hacyclic (hholds j hj) (hholds i hi) (Nat.ne_of_gt hij) habove

/-- **A walk from visits that have nothing in common meets no node twice.** -/
theorem Exclusive.nodup_of_walks (h : arena.Exclusive) (hacyclic : arena.Acyclic)
    {pending visits : List Visit} (hwalks : arena.Walks pending visits)
    (hapart : pending.Pairwise arena.Apart) : (visits.map Visit.id).Nodup := by
  induction hwalks with
  | nil => exact List.nodup_nil
  | @cons visit x rest visits found onward ih =>
    obtain ⟨hvisit, hrest⟩ := List.pairwise_cons.1 hapart
    have howns : ∀ below ∈ visitsBelow visit.id x, arena.Owns visit.id below.id := by
      intro below hbelow
      obtain ⟨i, hi, rfl⟩ := List.mem_mapIdx.1 hbelow
      exact owns_of_mem found (List.getElem_mem hi)
    rw [List.map_cons, List.nodup_cons]
    refine ⟨fun hmem => ?_, ih (List.pairwise_append.2 ⟨?_, hrest, ?_⟩)⟩
    · -- the node would lie below one of its children, or below a visit that is apart from it
      obtain ⟨again, hagain, heq⟩ := List.mem_map.1 hmem
      obtain ⟨origin, horigin, habove⟩ := onward.exists_above hagain
      rw [heq] at habove
      rcases List.mem_append.1 horigin with hbelow | hother
      · exact hacyclic visit.id (.head' (howns origin hbelow) habove)
      · exact hvisit origin hother visit.id .refl habove
    · exact h.pairwise_visitsBelow hacyclic found
    · intro below hbelow other hother id hid
      exact hvisit other hother id (.head (howns below hbelow) hid)

theorem Exclusive.strict (h : arena.Exclusive) (hclosed : arena.Closed) (hacyclic : arena.Acyclic)
    {root : NodeId} (hroot : arena.contains root = true) : (Tree.mk arena root).Strict := by
  have hfault : (Tree.mk arena root).trail.fault = none :=
    Tree.fault_trail (grounded_of_acyclic hclosed hacyclic hroot)
  refine Tree.strict_iff.2 ⟨hfault, ?_⟩
  exact h.nodup_of_walks hacyclic (Tree.walks_root hfault) (List.pairwise_singleton _ _)

/-- **Exclusive ownership is kept.**  If all that is ever attached was detached before, then at
every moment every node stands in one slot at most; a walk meets no node twice, and the parent of a
node other than the root is the only node that owns it. -/
theorem run_exclusive (steps : List Step) (hadmits : ({} : Arena).AdmitsDetached steps) :
    ∀ made, made <+: steps →
      let arena := ({} : Arena).run made
      arena.Exclusive ∧
      ∀ root, arena.contains root = true →
        ∃ visits, (Tree.mk arena root).walk = .ok visits ∧ (visits.map Visit.id).Nodup ∧
          ∀ visit ∈ visits, visit.id ≠ root →
            ∃ parent, (Tree.mk arena root).parent? visit.id = .ok (some parent) ∧
              ∀ owner, arena.Owns owner visit.id ↔ owner = parent := by
  intro made hmade arena
  have hadmits := hadmits.of_prefix hmade
  have hempty : ({} : Arena).Exclusive := fun child parent _ index _ hholds _ =>
    absurd (owns_iff_holds.2 ⟨index, hholds⟩) (not_owns_empty parent child)
  have hstart := run_empty_keeps [] trivial
  obtain ⟨hclosed, hacyclic⟩ : arena.Closed ∧ arena.Acyclic :=
    run_empty_keeps made hadmits.admits
  have hexclusive : arena.Exclusive :=
    run_keeps_exclusive made hadmits hstart.1 hstart.2 hempty
  refine ⟨hexclusive, fun root hroot => ?_⟩
  have hstrict := hexclusive.strict hclosed hacyclic hroot
  obtain ⟨hfault, hnodup⟩ := Tree.strict_iff.1 hstrict
  refine ⟨_, Tree.walk_eq_ok_iff.2 ⟨hfault, rfl⟩, hnodup, fun visit hvisit hne => ?_⟩
  have habove := (Tree.exists_visit_iff hfault).1 ⟨visit, hvisit, rfl⟩
  rcases habove.cases_tail with heq | ⟨parent, hparent, howns⟩
  · exact absurd heq hne
  · refine ⟨parent, ?_, fun owner => ⟨fun howner => hexclusive.owner_unique howner howns, ?_⟩⟩
    · obtain ⟨x, found, c, hc, hid⟩ := howns
      obtain ⟨i, hi⟩ := List.getElem?_of_mem hc
      rw [← hid]
      exact hstrict.parent?_child hparent found hi
    · rintro rfl
      exact howns

/-- A block gets a statement, which is then replaced by another; the statement that was taken out
is attached again elsewhere, and putting the outer block into the inner one is refused. -/
theorem run_exclusive_moved :
    let steps : List Step := [.alloc (.stmt (.block [])), .alloc (.stmt (.breakTo none)),
      .alloc (.stmt (.continueTo none)), .edit (.insert 0) ⟨0⟩ ⟨1⟩, .edit (.substitute 0) ⟨0⟩ ⟨2⟩,
      .alloc (.stmt (.block [⟨0⟩, ⟨1⟩])), .edit (.insert 1) ⟨0⟩ ⟨3⟩]
    let arena := ({} : Arena).run steps
    ({} : Arena).AdmitsDetached steps ∧
      arena = ⟨#[.stmt (.block [⟨2⟩]), .stmt (.breakTo none), .stmt (.continueTo none),
        .stmt (.block [⟨0⟩, ⟨1⟩])]⟩ ∧
      arena.Exclusive ∧
      ∃ visits, (Tree.mk arena ⟨3⟩).walk = .ok visits ∧
        visits.map Visit.id = [⟨3⟩, ⟨0⟩, ⟨2⟩, ⟨1⟩] ∧ (visits.map Visit.id).Nodup ∧
        (Tree.mk arena ⟨3⟩).parent? ⟨2⟩ = .ok (some ⟨0⟩) ∧
        ∀ owner, arena.Owns owner ⟨2⟩ → owner = ⟨0⟩ := by
  intro steps arena
  have hadmits : ({} : Arena).AdmitsDetached steps := by decide
  have harena : arena = ⟨#[.stmt (.block [⟨2⟩]), .stmt (.breakTo none), .stmt (.continueTo none),
      .stmt (.block [⟨0⟩, ⟨1⟩])]⟩ := by
    decide
  obtain ⟨hexclusive, hwalks⟩ := run_exclusive steps hadmits steps List.prefix_rfl
  have hroot : arena.contains ⟨3⟩ = true := by rw [harena]; rfl
  obtain ⟨visits, hwalk, hnodup, hparents⟩ := hwalks ⟨3⟩ hroot
  have hids : visits.map Visit.id = [⟨3⟩, ⟨0⟩, ⟨2⟩, ⟨1⟩] := by
    have hwalk' : (Tree.mk arena ⟨3⟩).walk.map (·.map Visit.id) = .ok [⟨3⟩, ⟨0⟩, ⟨2⟩, ⟨1⟩] := by
      rw [harena]
      rfl
    rw [hwalk] at hwalk'
    exact Except.ok.inj hwalk'
  have hmem : ⟨2⟩ ∈ visits.map Visit.id := by rw [hids]; decide
  obtain ⟨visit, hvisit, hid⟩ := List.mem_map.1 hmem
  obtain ⟨parent, hparent, howners⟩ := hparents visit hvisit (by rw [hid]; decide)
  rw [hid] at hparent howners
  have howns : arena.Owns ⟨0⟩ ⟨2⟩ := by
    rw [harena]
    exact ⟨_, rfl, ⟨⟨2⟩, "body"⟩, List.mem_singleton_self _, rfl⟩
  obtain rfl := (howners ⟨0⟩).1 howns
  exact ⟨hadmits, harena, hexclusive, visits, hwalk, hids, hnodup, hparent,
    fun owner => (howners owner).1⟩

end Arena

end Interlingua
