import Interlingua.Proofs.Arena.Unfolding

/-!
# The listing of a subtree is a code

A hash of a subtree is fed with its listing: the skeleton of its node, then for each child the name
of the field that holds it and the child's own listing.  There are no closing marks.

* `Node.children_mapIds` — a skeleton has the fields of its node, so it says how many children
  follow and which fields hold them.
* `Arena.listTo_append_inj` — hence a listing ends where it does: what begins with the listings of
  two subtrees begins with the same one, and they unfold to the same tree.
* `Arena.hashTo_eq` — whatever a hasher does with a value, it goes through the listing once.
* `Arena.code_faithful` — two listings are the same exactly if the subtrees compare as equal, and
  none goes on where another ends.
-/

namespace Interlingua

/-! ## Skeletons and children -/

section Children

variable (f : NodeId → NodeId)

theorem held_map (field : String) (ids : List NodeId) :
    held field (ids.map f) = (held field ids).map fun c => ⟨f c.id, c.field⟩ := by
  simp [held]

theorem heldIf_map (field : String) (id : Option NodeId) :
    heldIf field (id.map f) = (heldIf field id).map fun c => ⟨f c.id, c.field⟩ := by
  cases id <;> rfl

theorem Expr.children_mapIds (e : Expr) :
    (e.mapIds f).children = e.children.map fun c => ⟨f c.id, c.field⟩ := by
  cases e <;> simp [mapIds, children, held_map, heldIf_map, List.map_flatMap, List.flatMap_map]

theorem CaseLabel.value?_mapIds (label : CaseLabel) :
    (label.mapIds f).value? = label.value?.map f := by
  cases label <;> rfl

theorem Stmt.children_mapIds (s : Stmt) :
    (s.mapIds f).children = s.children.map fun c => ⟨f c.id, c.field⟩ := by
  cases s <;> simp [mapIds, children, held_map, heldIf_map, List.map_flatMap, List.flatMap_map,
    Range.mapIds, CaseLabel.value?_mapIds]

theorem Decl.children_mapIds (d : Decl) :
    (d.mapIds f).children = d.children.map fun c => ⟨f c.id, c.field⟩ := by
  cases d <;> simp [mapIds, children, held, heldIf_map, List.map_flatMap, List.flatMap_map]

theorem Def.children_mapIds (d : Def) :
    (d.mapIds f).children = d.children.map fun c => ⟨f c.id, c.field⟩ := by
  cases d <;> simp [mapIds, children, held_map]

/-- Replacing identities leaves the fields as they are. -/
theorem Node.children_mapIds (x : Node) :
    (x.mapIds f).children = x.children.map fun c => ⟨f c.id, c.field⟩ := by
  cases x with
  | expr e => exact e.children_mapIds f
  | stmt s => exact s.children_mapIds f
  | decl d => exact d.children_mapIds f
  | defn d => exact d.children_mapIds f
  | type ty => rfl

/-- A skeleton says which fields hold the children. -/
theorem Node.fields_eq_of_skeleton {x y : Node} (h : x.skeleton = y.skeleton) :
    x.children.map Child.field = y.children.map Child.field := by
  have hchildren := congrArg (fun z : Node => z.children.map Child.field) h
  simpa [skeleton, children_mapIds, Function.comp_def] using hchildren

end Children

namespace Arena

variable {arena left right : Arena} {id a b : NodeId} {depth depth' : Nat}

/-! ## Listings -/

/-- The listing of a subtree of at most the given depth; a reference that cannot be followed lists
nothing. -/
def listTo (arena : Arena) : Nat → NodeId → List CodeItem
  | 0, _ => []
  | depth + 1, id =>
    match arena.node id with
    | .ok node =>
      .node node.skeleton ::
        node.children.flatMap fun c => .field c.field :: arena.listTo depth c.id
    | .error _ => []

theorem listTo_succ {node : Node} (depth : Nat) (found : arena.node id = .ok node) :
    arena.listTo (depth + 1) id = .node node.skeleton ::
      node.children.flatMap fun c => .field c.field :: arena.listTo depth c.id := by
  rw [listTo, found]

/-- The children of a node are listed one after another. -/
theorem mapM_code {children : List Child} {below : NodeId → Except Fault (List CodeItem)}
    {listing : NodeId → List CodeItem} (h : ∀ c ∈ children, below c.id = .ok (listing c.id)) :
    (children.mapM fun c => do
      let code ← below c.id
      return CodeItem.field c.field :: code) =
      .ok (children.map fun c => .field c.field :: listing c.id) := by
  induction children with
  | nil => rfl
  | cons c children ih =>
    rw [List.mapM_cons, h c List.mem_cons_self, ih fun d hd => h d (List.mem_cons_of_mem _ hd)]
    rfl

/-- Of a subtree that ends, the listing is found. -/
theorem codeTo_eq : ∀ {depth : Nat} {id : NodeId}, arena.GroundedTo depth id →
    arena.codeTo depth id = .ok (arena.listTo depth id)
  | 0, _, h => h.elim
  | depth + 1, id, ⟨node, found, below⟩ => by
    have hchildren := mapM_code fun c hc => codeTo_eq (below c hc)
    rw [listTo_succ depth found, codeTo, found]
    simp only [bind, Except.bind] at hchildren ⊢
    rw [hchildren, List.flatMap_def]
    rfl

/-! ## Where a listing ends -/

/-- Children that are held by the same fields: if the listing of each ends where it does, so does
that of all of them. -/
theorem children_append_inj {cs cs' : List Child} {listing listing' : NodeId → List CodeItem}
    {f g : NodeId → Unfolded} (hfields : cs.map Child.field = cs'.map Child.field)
    (hbelow : ∀ c ∈ cs, ∀ c' ∈ cs', ∀ rest rest', listing c.id ++ rest = listing' c'.id ++ rest' →
      f c.id = g c'.id ∧ rest = rest')
    {rest rest' : List CodeItem}
    (h : (cs.flatMap fun c => CodeItem.field c.field :: listing c.id) ++ rest =
      (cs'.flatMap fun c => CodeItem.field c.field :: listing' c.id) ++ rest') :
    AlikeChildren f g cs cs' ∧ rest = rest' := by
  induction cs generalizing cs' with
  | nil =>
    cases cs' with
    | nil => exact ⟨.nil, h⟩
    | cons c' cs' => cases hfields
  | cons c cs ih =>
    cases cs' with
    | nil => cases hfields
    | cons c' cs' =>
      obtain ⟨hfield, hfields⟩ := List.cons_eq_cons.1 hfields
      rw [List.flatMap_cons, List.flatMap_cons, List.append_assoc, List.append_assoc,
        List.cons_append, List.cons_append] at h
      obtain ⟨hfirst, hrest⟩ := hbelow c List.mem_cons_self c' List.mem_cons_self _ _
        (List.cons_eq_cons.1 h).2
      obtain ⟨hall, hend⟩ := ih hfields (fun d hd d' hd' => hbelow d (List.mem_cons_of_mem _ hd) d'
        (List.mem_cons_of_mem _ hd')) hrest
      exact ⟨.cons ⟨hfield, hfirst⟩ hall, hend⟩

/-- **A listing ends where it does.**  If the listings of two subtrees, with anything after them,
are the same, then the subtrees unfold to the same tree and what comes after them is the same. -/
theorem listTo_append_inj : ∀ {depth depth' : Nat} {a b : NodeId}, left.GroundedTo depth a →
    right.GroundedTo depth' b → ∀ rest rest' : List CodeItem,
      left.listTo depth a ++ rest = right.listTo depth' b ++ rest' →
        left.unfoldTo depth a = right.unfoldTo depth' b ∧ rest = rest'
  | 0, _, _, _, ha, _ => ha.elim
  | _, 0, _, _, _, hb => hb.elim
  | depth + 1, depth' + 1, a, b, ⟨x, hx, hbelow⟩, ⟨y, hy, hbelow'⟩ => by
    intro rest rest' h
    rw [listTo_succ depth hx, listTo_succ depth' hy, List.cons_append, List.cons_append,
      List.cons_eq_cons] at h
    obtain ⟨hnode, hchildren⟩ := h
    have hskeleton : x.skeleton = y.skeleton := CodeItem.node.inj hnode
    -- the skeletons are the same, so the same fields follow; what each holds ends by induction
    obtain ⟨halike, hrest⟩ := children_append_inj (Node.fields_eq_of_skeleton hskeleton)
      (fun c hc c' hc' => listTo_append_inj (hbelow c hc) (hbelow' c' hc')) hchildren
    rw [unfoldTo_succ depth hx, unfoldTo_succ depth' hy, Node.unfoldWith_eq_iff]
    exact ⟨⟨hskeleton, halike⟩, hrest⟩

/-- Subtrees that unfold to the same tree have the same listing. -/
theorem listTo_eq_of_unfoldTo_eq : ∀ {depth depth' : Nat} {a b : NodeId}, left.GroundedTo depth a →
    right.GroundedTo depth' b → left.unfoldTo depth a = right.unfoldTo depth' b →
      left.listTo depth a = right.listTo depth' b
  | 0, _, _, _, ha, _, _ => ha.elim
  | _, 0, _, _, _, hb, _ => hb.elim
  | depth + 1, depth' + 1, a, b, ⟨x, hx, hbelow⟩, ⟨y, hy, hbelow'⟩, h => by
    rw [unfoldTo_succ depth hx, unfoldTo_succ depth' hy, Node.unfoldWith_eq_iff] at h
    obtain ⟨hskeleton, halike⟩ := h
    have hall : ∀ {cs cs' : List Child},
        AlikeChildren (left.unfoldTo depth) (right.unfoldTo depth') cs cs' →
        (∀ c ∈ cs, left.GroundedTo depth c.id) → (∀ c ∈ cs', right.GroundedTo depth' c.id) →
        (cs.flatMap fun c => CodeItem.field c.field :: left.listTo depth c.id) =
          cs'.flatMap fun c => CodeItem.field c.field :: right.listTo depth' c.id := by
      intro cs cs' halike hcs hcs'
      induction halike with
      | nil => rfl
      | @cons c c' cs cs' hfirst _ ih =>
        rw [List.flatMap_cons, List.flatMap_cons, hfirst.1,
          listTo_eq_of_unfoldTo_eq (hcs c List.mem_cons_self) (hcs' c' List.mem_cons_self) hfirst.2,
          ih (fun d hd => hcs d (List.mem_cons_of_mem _ hd))
            fun d hd => hcs' d (List.mem_cons_of_mem _ hd)]
    rw [listTo_succ depth hx, listTo_succ depth' hy, hskeleton, hall halike hbelow hbelow']

/-! ## Hashers -/

section Hash

variable {σ : Type} (feed : σ → CodeItem → σ)

/-- Feeds a hasher with a subtree of at most the given depth: its skeleton, then for each child the
name of its field and the child. -/
def hashTo (arena : Arena) : Nat → NodeId → σ → Except Fault σ
  | 0, _, _ => .error .endless
  | depth + 1, id, state => do
    let node ← arena.node id
    node.children.foldlM (fun state c => arena.hashTo depth c.id (feed state (.field c.field)))
      (feed state (.node node.skeleton))

/-- Feeds a hasher with a subtree. -/
def hash (arena : Arena) (id : NodeId) (start : σ) : Except Fault σ :=
  arena.hashTo feed arena.depthBound id start

/-- A hasher that is fed with a subtree is fed with its listing. -/
theorem hashTo_eq : ∀ {depth : Nat} {id : NodeId}, arena.GroundedTo depth id → ∀ state : σ,
    arena.hashTo feed depth id state = .ok ((arena.listTo depth id).foldl feed state)
  | 0, _, h, _ => h.elim
  | depth + 1, id, ⟨node, found, below⟩, state => by
    have hall : ∀ {children : List Child}, (∀ c ∈ children, arena.GroundedTo depth c.id) →
        ∀ state, children.foldlM
          (fun state c => arena.hashTo feed depth c.id (feed state (.field c.field))) state =
          Except.ok ((children.flatMap fun c =>
            CodeItem.field c.field :: arena.listTo depth c.id).foldl feed state) := by
      intro children hchildren
      induction children with
      | nil => exact fun _ => rfl
      | cons c children ih =>
        intro state
        rw [List.foldlM_cons, hashTo_eq (hchildren c List.mem_cons_self), List.flatMap_cons,
          List.foldl_append, List.foldl_cons]
        exact ih (fun d hd => hchildren d (List.mem_cons_of_mem _ hd)) _
    rw [hashTo, found, listTo_succ depth found, List.foldl_cons]
    exact hall below _

end Hash

/-! ## Faithfulness -/

/-- **The listing of a subtree is a faithful code.**  Closed subtrees without cycles, such as all
those of a closed arena without cycles, have listings.  Two listings are the same exactly if the
subtrees compare as equal, and then every hasher ends in the same state after both.  No listing is a
beginning of another one. -/
theorem code_faithful {left right : Arena} {a b : NodeId} (ha : left.Grounded a)
    (hb : right.Grounded b) :
    ∃ code other, left.code a = .ok code ∧ right.code b = .ok other ∧
      (code = other ↔ left.same a right b = .ok true) ∧
      (code <+: other → code = other) ∧
      ∀ {σ : Type} (feed : σ → CodeItem → σ) (start : σ),
        left.hash feed a start = .ok (code.foldl feed start) ∧
        (left.same a right b = .ok true → left.hash feed a start = right.hash feed b start) := by
  have ha' := ha.to_depthBound
  have hb' := hb.to_depthBound
  have hsame : left.same a right b = .ok true ↔ left.unfold a = right.unfold b := by
    obtain ⟨verdict, hverdict, hiff⟩ := same_eq ha hb
    rw [hverdict, Except.ok.injEq, hiff]
  have hcode : left.unfold a = right.unfold b →
      left.listTo left.depthBound a = right.listTo right.depthBound b :=
    listTo_eq_of_unfoldTo_eq ha' hb'
  refine ⟨_, _, codeTo_eq ha', codeTo_eq hb', ⟨fun h => ?_, fun h => ?_⟩, fun h => ?_,
    fun feed start => ⟨hashTo_eq feed ha' start, fun h => ?_⟩⟩
  · have happend := congrArg (· ++ []) h
    exact hsame.2 (listTo_append_inj ha' hb' [] [] happend).1
  · exact hcode (hsame.1 h)
  · obtain ⟨rest, hrest⟩ := h
    exact hcode (listTo_append_inj ha' hb' rest [] (by simpa using hrest)).1
  · rw [hash, hash, hashTo_eq feed ha', hashTo_eq feed hb', hcode (hsame.1 h)]

/-- A sum of two nodes and the sum of one node with itself, in arenas of their own. -/
theorem code_faithful_shared :
    Subtree.spreadSum.arena.Grounded Subtree.spreadSum.root ∧
      Subtree.sharedSum.arena.Grounded Subtree.sharedSum.root ∧
      Subtree.spreadSum.arena.code Subtree.spreadSum.root =
        Subtree.sharedSum.arena.code Subtree.sharedSum.root := by
  refine ⟨Subtree.spreadSum.grounded, Subtree.sharedSum.grounded, ?_⟩
  obtain ⟨code, other, hcode, hother, hiff, -, -⟩ :=
    code_faithful Subtree.spreadSum.grounded Subtree.sharedSum.grounded
  have hsame : Subtree.spreadSum.arena.same Subtree.spreadSum.root Subtree.sharedSum.arena
      Subtree.sharedSum.root = .ok true := by decide
  rw [hcode, hother, hiff.2 hsame]

end Arena

end Interlingua
