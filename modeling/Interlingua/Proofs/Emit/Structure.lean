import Interlingua.Arena.Same
import Interlingua.Proofs.Lockstep.View
import Interlingua.Proofs.Tree.Walk

/-!
# Structure decides the text

Two strict trees that are structurally equal give the same text, wherever their nodes sit.

* `Tree.Twins` — nodes that hold the same place in two trees.  In strict trees a node has one twin,
  and the parents of twins are twins.
* `Tree.WellPlaced` — every reference names a node of the category that its place demands.
* `Tie.structural` — twins are tied.  What a parent compares identities for comes out the same: the
  child at hand is where its twin is.
* `Tree.emit_of_same` — so the emissions are the same.
-/

namespace Interlingua

/-! ## Structurally equal subtrees -/

namespace Arena

variable {left right : Arena}

theorem forall₂_of_sameAll {same : NodeId → NodeId → Except Fault Bool} {cs cs' : List Child}
    (h : sameAll same cs cs' = .ok true) :
    List.Forall₂ (fun c c' => same c.id c'.id = .ok true) cs cs' := by
  induction cs generalizing cs' with
  | nil =>
    cases cs' with
    | nil => exact .nil
    | cons _ _ => cases h
  | cons c cs ih =>
    cases cs' with
    | nil => cases h
    | cons c' cs' =>
      unfold sameAll at h
      split at h
      · split at h
        · rename_i hfirst
          exact .cons hfirst (ih h)
        · rename_i hother
          exact absurd h hother
      · cases h

/-- Subtrees that compare as equal: their nodes agree but for identities, and so do what their
children name. -/
theorem nodes_of_sameTo {depth : Nat} {a b : NodeId} (h : sameTo left right depth a b = .ok true) :
    ∃ less x y, left.node a = .ok x ∧ right.node b = .ok y ∧ x.skeleton = y.skeleton ∧
      List.Forall₂ (fun c c' => sameTo left right less c.id c'.id = .ok true) x.children
        y.children := by
  cases depth with
  | zero => cases h
  | succ less =>
    unfold sameTo at h
    cases hx : left.node a with
    | error fault => simp [hx, bind, Except.bind] at h
    | ok x =>
      cases hy : right.node b with
      | error fault => simp [hx, hy, bind, Except.bind] at h
      | ok y =>
        simp only [hx, hy, bind, Except.bind] at h
        split at h
        · rename_i hskeleton
          split at h
          · exact ⟨less, x, y, rfl, rfl, hskeleton, forall₂_of_sameAll h⟩
          · cases h
        · cases h

end Arena

/-! ## Twins -/

namespace Tree

/-- Nodes that hold the same place in two trees. -/
inductive Twins (left right : Tree) : NodeId → NodeId → Prop
  | root : Twins left right left.root right.root
  | child {a b : NodeId} {x y : Node} {i : Nat} {c c' : Child} (h : Twins left right a b)
      (hx : left.arena.node a = .ok x) (hy : right.arena.node b = .ok y)
      (hc : x.children[i]? = some c) (hc' : y.children[i]? = some c') :
      Twins left right c.id c'.id

namespace Twins

variable {left right : Tree} {a a' b b' : NodeId}

theorem symm (h : Twins left right a b) : Twins right left b a := by
  induction h with
  | root => exact .root
  | child _ hx hy hc hc' ih => exact .child ih hy hx hc' hc

theorem above (h : Twins left right a b) : left.arena.Above left.root a := by
  induction h with
  | root => exact .refl
  | child _ hx _ hc _ ih => exact ih.tail (Arena.owns_of_mem hx (List.mem_of_getElem? hc))

/-- A node of a strict tree has one twin. -/
theorem right_unique (hleft : left.Strict) (h : Twins left right a b)
    (h' : Twins left right a b') : b = b' := by
  induction h generalizing b' with
  | root =>
    generalize hroot : left.root = a at h'
    cases h' with
    | root => rfl
    | child hparent hx _ hc _ => exact absurd hroot.symm (hleft.ne_root hparent.above hx hc)
  | @child p q x y i c c' hparent hx hy hc hc' ih =>
    generalize hid : c.id = a at h'
    cases h' with
    | root => exact absurd hid (hleft.ne_root hparent.above hx hc)
    | child hparent' hx' hy' hd hd' =>
      -- one place, so one parent, whose twin is the only one by induction
      obtain ⟨rfl, rfl⟩ := hleft.place_unique hparent.above hx hc hparent'.above hx' hd hid
      obtain rfl := ih hparent'
      rw [hy] at hy'
      cases hy'
      rw [hc'] at hd'
      cases hd'
      rfl

theorem left_unique (hright : right.Strict) (h : Twins left right a b)
    (h' : Twins left right a' b) : a = a' :=
  right_unique hright h.symm h'.symm

/-- Of two pairs of twins, the first are the same node if the second are. -/
theorem eq_iff (hleft : left.Strict) (hright : right.Strict) (h : Twins left right a b)
    (h' : Twins left right a' b') : a' = a ↔ b' = b := by
  constructor
  · rintro rfl
    exact right_unique hleft h' h
  · rintro rfl
    exact left_unique hright h' h

variable (hsame : left.arena.same left.root right.arena right.root = .ok true)
include hsame

theorem sameTo (h : Twins left right a b) :
    ∃ depth, left.arena.sameTo right.arena depth a b = .ok true := by
  induction h with
  | root => exact ⟨_, hsame⟩
  | child _ hx hy hc hc' ih =>
    obtain ⟨depth, hdepth⟩ := ih
    obtain ⟨less, x, y, hx', hy', -, hchildren⟩ := Arena.nodes_of_sameTo hdepth
    rw [hx] at hx'
    cases hx'
    rw [hy] at hy'
    cases hy'
    obtain ⟨hi, rfl⟩ := List.getElem?_eq_some_iff.1 hc
    obtain ⟨hi', rfl⟩ := List.getElem?_eq_some_iff.1 hc'
    exact ⟨less, (List.forall₂_iff_get.1 hchildren).2 _ hi hi'⟩

/-- The nodes of twins agree but for identities, and their children are twins. -/
theorem nodes (h : Twins left right a b) :
    ∃ x y, left.arena.node a = .ok x ∧ right.arena.node b = .ok y ∧ x.skeleton = y.skeleton ∧
      List.Forall₂ (fun c c' => Twins left right c.id c'.id) x.children y.children := by
  obtain ⟨depth, hdepth⟩ := h.sameTo hsame
  obtain ⟨less, x, y, hx, hy, hskeleton, hchildren⟩ := Arena.nodes_of_sameTo hdepth
  refine ⟨x, y, hx, hy, hskeleton, List.forall₂_iff_get.2 ⟨hchildren.length_eq, fun i hi hi' => ?_⟩⟩
  exact .child h hx hy (List.getElem?_eq_getElem hi) (List.getElem?_eq_getElem hi')

/-- The parents of twins agree, and hold them in the same places only. -/
theorem parents (hleft : left.Strict) (hright : right.Strict) (h : Twins left right a b) :
    (left.parent? a = .ok none ∧ right.parent? b = .ok none) ∨
    ∃ p q x y, left.parent? a = .ok (some p) ∧ right.parent? b = .ok (some q) ∧
      left.arena.node p = .ok x ∧ right.arena.node q = .ok y ∧
      x.Tied (fun _ c c' => c = a ↔ c' = b) (fun _ _ => True) y := by
  have hself := h
  cases h with
  | root => exact .inl ⟨hleft.parent?_root, hright.parent?_root⟩
  | child hparent hx hy hc hc' =>
    refine .inr ⟨_, _, _, _, hleft.parent?_child hparent.above hx hc,
      hright.parent?_child hparent.symm.above hy hc', hx, hy, ?_⟩
    obtain ⟨x, y, hx', hy', hskeleton, hchildren⟩ := hparent.nodes hsame
    rw [hx] at hx'
    cases hx'
    rw [hy] at hy'
    cases hy'
    -- of the children that the parents hold, the twins at hand are the same on both sides
    refine .of_skeleton hskeleton (hchildren.imp fun c c' htwins => ?_) trivial
    exact eq_iff hleft hright hself htwins

end Twins

end Tree

/-! ## Where a parent compares identities -/

section Compare

variable {a b : NodeId}

theorem eq_some_iff_of_rel {id id' : Option NodeId}
    (h : Option.Rel (fun c c' => c = a ↔ c' = b) id id') : id = some a ↔ id' = some b := by
  cases h with
  | none => simp
  | some h => simpa using h

theorem any_cond_eq {branches branches' : List Branch}
    (h : List.Forall₂ (Branch.Tied fun _ c c' => c = a ↔ c' = b) branches branches') :
    branches.any (·.cond = a) = branches'.any (·.cond = b) := by
  induction h with
  | nil => rfl
  | cons hbranch _ ih => simp only [List.any_cons, ih, hbranch.cond]

end Compare

namespace Tree.Twins

variable {left right : Tree} {a b : NodeId} {lang : Language} {options : Options}
  {fault : Fault → Fault → Prop}
  (hsame : left.arena.same left.root right.arena right.root = .ok true) (hleft : left.Strict)
  (hright : right.Strict)
include hsame hleft hright

theorem isStatement (h : Twins left right a b) :
    Concur fault Eq (Python.isStatement ⟨left, lang, options⟩ a)
      (Python.isStatement ⟨right, lang, options⟩ b) := by
  unfold Python.isStatement
  obtain ⟨hp, hq⟩ | ⟨p, q, x, y, hp, hq, hx, hy, htied⟩ := h.parents hsame hleft hright
  · rw [hp, hq]
    exact .ok rfl
  · rw [hp, hq]
    change Concur _ _ (left.arena.node p >>= _) (right.arena.node q >>= _)
    rw [hx, hy]
    cases htied with
    | stmt hs =>
      cases hs with
      | forLoop hi _ hu _ =>
        refine .ok ?_
        simp only [eq_some_iff_of_rel hi, eq_some_iff_of_rel hu]
      | _ => exact .ok rfl
    | _ => exact .ok rfl

theorem isBare (h : Twins left right a b) :
    Concur fault Eq (Python.isBare ⟨left, lang, options⟩ a)
      (Python.isBare ⟨right, lang, options⟩ b) := by
  unfold Python.isBare
  obtain ⟨hp, hq⟩ | ⟨p, q, x, y, hp, hq, hx, hy, htied⟩ := h.parents hsame hleft hright
  · rw [hp, hq]
    exact .ok rfl
  · rw [hp, hq]
    change Concur _ _ (left.arena.node p >>= _) (right.arena.node q >>= _)
    rw [hx, hy]
    cases htied with
    | expr he =>
      cases he with
      | index ht _ => exact .ok (decide_eq_decide.2 ht)
      | _ => exact .ok rfl
    | stmt hs =>
      cases hs with
      | conditional hb _ => exact .ok (any_cond_eq hb)
      | whileLoop hc _ => exact .ok (decide_eq_decide.2 hc)
      | assign _ _ hv => exact .ok (decide_eq_decide.2 hv)
      | _ => exact .ok rfl
    | _ => exact .ok rfl

end Tree.Twins

/-! ## Twins are tied -/

namespace Tree

/-- Every reference of the tree names a node of the category that its place demands. -/
def WellPlaced (tree : Tree) : Prop :=
  ∀ id x, tree.arena.Above tree.root id → tree.arena.node id = .ok x →
    ∀ c ∈ x.children, ∀ category ∈ x.demand c.field, tree.arena.isA category c.id = true

/-- No jump of the tree names its loop, and no program its entry point. -/
def Untargeted (tree : Tree) : Prop :=
  ∀ id x, tree.arena.Above tree.root id → tree.arena.node id = .ok x → x.target? = none

end Tree

/-- Faults that are the same, but for the identity of a node of a wrong category. -/
def Fault.Alike (placed : Prop) (f g : Fault) : Prop :=
  f = g ∨ ¬ placed ∧ ∃ a b category, f = .miscast a category ∧ g = .miscast b category

namespace Tree

variable {left right : Tree}

/-- Twins with some depths left, where the category that the place demands is that of the node if
every reference is placed well. -/
structure TwinsTo (left right : Tree) (m n : Nat) (demand : Option Category) (a b : NodeId) :
    Prop where
  twins : Twins left right a b
  depth : left.arena.GroundedTo m a
  depth' : right.arena.GroundedTo n b
  placed : left.WellPlaced → ∀ category ∈ demand, left.arena.isA category a = true

/-- Strict trees without targets that are structurally equal. -/
structure Congruent (left right : Tree) : Prop where
  strict : left.Strict
  strict' : right.Strict
  same : left.arena.same left.root right.arena right.root = .ok true
  untargeted : left.Untargeted
  untargeted' : right.Untargeted

namespace Congruent

variable (h : left.Congruent right) {m n : Nat} {demand : Option Category} {a b : NodeId}
include h

theorem twinsTo_root :
    TwinsTo left right left.arena.depthBound right.arena.depthBound none left.root right.root where
  twins := .root
  depth := h.strict.grounded.to_depthBound
  depth' := h.strict'.grounded.to_depthBound
  placed _ := nofun

/-- The nodes of twins are tied, with the depths that their children have left. -/
theorem tied (htwins : Twins left right a b)
    (hdepth : ∀ x, left.arena.node a = .ok x → ∀ c ∈ x.children, left.arena.GroundedTo m c.id)
    (hdepth' : ∀ y, right.arena.node b = .ok y → ∀ c ∈ y.children, right.arena.GroundedTo n c.id) :
    Concur (Fault.Alike left.WellPlaced)
      (Node.Tied (TwinsTo left right m n) fun t t' => t = none ∧ t' = none)
      (left.arena.node a) (right.arena.node b) := by
  obtain ⟨x, y, hx, hy, hskeleton, hchildren⟩ := htwins.nodes h.same
  rw [hx, hy]
  refine .ok (.of_skeleton hskeleton ?_ ?_)
  · refine List.forall₂_iff_get.2 ⟨hchildren.length_eq, fun i hi hi' => ?_⟩
    have hmem := List.getElem_mem hi
    exact {
      twins := (List.forall₂_iff_get.1 hchildren).2 i hi hi'
      depth := hdepth x hx _ hmem
      depth' := hdepth' y hy _ (List.getElem_mem hi')
      placed := fun hplaced => hplaced a x htwins.above hx _ hmem }
  · exact ⟨h.untargeted a x htwins.above hx, h.untargeted' b y htwins.symm.above hy⟩

end Congruent

end Tree

/-- Congruent trees are tied, each node to its twin. -/
def Tie.structural {left right : Tree} (h : left.Congruent right) (lang : Language)
    (options : Options) : Tie ⟨left, lang, options⟩ ⟨right, lang, options⟩ where
  exact := True
  fault := Fault.Alike left.WellPlaced
  soft target target' := target = none ∧ target' = none
  pair := Tree.TwinsTo left right
  lang_eq := .refl lang
  isOn_eq _ _ := rfl
  soft_isSome hsoft := by rw [hsoft.1, hsoft.2]
  soft_jump _ hsoft := by rw [hsoft.1, hsoft.2]; rfl
  soft_entry hsoft := nomatch hsoft.1
  restart hpair := { hpair with
    depth := (h.strict.grounded.of_above hpair.twins.above).to_depthBound
    depth' := (h.strict'.grounded.of_above hpair.twins.symm.above).to_depthBound }
  recast hpair hx := { hpair with
    placed := fun _ _ hcategory => (Arena.isA_iff hx).2 (Option.some.inj hcategory) }
  found hpair := by
    obtain ⟨less, rfl⟩ := hpair.depth.pos
    obtain ⟨less', rfl⟩ := hpair.depth'.pos
    exact h.tied hpair.twins (fun x hx c hc => (hpair.depth.child hx hc).succ)
      fun y hy c hc => (hpair.depth'.child hy hc).succ
  descend hpair := by
    obtain ⟨less, rfl⟩ := hpair.depth.pos
    obtain ⟨less', rfl⟩ := hpair.depth'.pos
    refine .inr ⟨less, less', rfl, rfl, ?_⟩
    exact h.tied hpair.twins (fun x hx c hc => hpair.depth.child hx hc)
      fun y hy c hc => hpair.depth'.child hy hc
  miscast hpair hx hne := by
    refine .inr ⟨fun hplaced => hne ?_, _, _, _, rfl, rfl⟩
    exact (Arena.isA_iff hx).1 (hpair.placed hplaced _ rfl)
  statement hpair := hpair.twins.isStatement h.same h.strict h.strict'
  bare hpair := hpair.twins.isBare h.same h.strict h.strict'

/-! ## Emissions -/

namespace Tree

/-- **Structure decides the text.**  Two strict trees that are structurally equal and name no
targets give the same text or the same error, wherever their nodes sit.  Only a reference to a node
of another category than its place demands can tell them apart: there both emissions break off, and
each fault names the identity that its own tree has. -/
theorem emit_of_same (left right : Tree) (lang : Language) (options : Options)
    (hleft : left.Strict) (hright : right.Strict)
    (hsame : left.arena.same left.root right.arena right.root = .ok true)
    (hfree : left.Untargeted) (hfree' : right.Untargeted) :
    left.emit lang options = right.emit lang options ∨
    ¬ left.WellPlaced ∧ ∃ a b category,
      left.emit lang options = .error (.ofFault (.miscast a category)) ∧
      right.emit lang options = .error (.ofFault (.miscast b category)) := by
  have hcongruent : left.Congruent right := ⟨hleft, hright, hsame, hfree, hfree'⟩
  let tie : Tie (View.make left lang options) (View.make right lang options) :=
    .structural hcongruent lang _
  have hpair : tie.pair _ _ none left.root right.root := hcongruent.twinsTo_root
  have hemit := Tie.emit hpair fun _ => rfl
  unfold Tree.emit
  generalize (View.make left lang options).emit = result at hemit
  generalize (View.make right lang options).emit = result' at hemit
  cases hemit with
  | ok htexts => exact .inl (congrArg _ (htexts.2 trivial))
  | error herror =>
    cases herror with
    | unsupported language construct => exact .inl rfl
    | malformed node reason => exact .inl rfl
    | fault halike =>
      obtain rfl | ⟨hplaced, a, b, category, rfl, rfl⟩ := halike
      · exact .inl rfl
      · exact .inr ⟨hplaced, a, b, category, rfl, rfl⟩

/-- A loop whose condition assigns, as does its body: once allocated from the leaves up, and once
from the root down after a node that belongs to nothing. -/
theorem emit_of_same_walrus :
    let left : Tree := ⟨⟨#[.expr (.ident "x"), .expr (.int 1), .expr (.assign .plain ⟨0⟩ ⟨1⟩),
      .expr (.ident "x"), .expr (.int 2), .expr (.assign .plain ⟨3⟩ ⟨4⟩), .stmt (.expr ⟨5⟩),
      .stmt (.block [⟨6⟩]), .stmt (.whileLoop ⟨2⟩ ⟨7⟩)]⟩, ⟨8⟩⟩
    let right : Tree := ⟨⟨#[.expr .null, .stmt (.whileLoop ⟨2⟩ ⟨5⟩),
      .expr (.assign .plain ⟨3⟩ ⟨4⟩), .expr (.ident "x"), .expr (.int 1), .stmt (.block [⟨6⟩]),
      .stmt (.expr ⟨7⟩), .expr (.assign .plain ⟨8⟩ ⟨9⟩), .expr (.ident "x"), .expr (.int 2)]⟩, ⟨1⟩⟩
    left.WellPlaced ∧ left.emit .python {} = .ok "while x := 1:\n    x = 2\n" ∧
      left.emit .python {} = right.emit .python {} := by
  intro left right
  have hfacts : left.Strict ∧ right.Strict ∧
      left.arena.same left.root right.arena right.root = .ok true ∧
      (∀ x ∈ left.arena.nodes.toList ++ right.arena.nodes.toList, x.target? = none) ∧
      (∀ x ∈ left.arena.nodes.toList, ∀ c ∈ x.children, ∀ category ∈ x.demand c.field,
        left.arena.isA category c.id = true) ∧
      left.emit .python {} = .ok "while x := 1:\n    x = 2\n" := by
    decide +kernel +revert
  obtain ⟨hleft, hright, hsame, hfree, hplaced, htext⟩ := hfacts
  have hplaced : left.WellPlaced := fun _ x _ found => hplaced x (Arena.mem_of_node found)
  refine ⟨hplaced, htext, ?_⟩
  refine (emit_of_same left right .python {} hleft hright hsame ?_ ?_).resolve_right
    fun hmiscast => hmiscast.1 hplaced
  · exact fun _ x _ found => hfree x (List.mem_append_left _ (Arena.mem_of_node found))
  · exact fun _ x _ found => hfree x (List.mem_append_right _ (Arena.mem_of_node found))

end Tree

end Interlingua
