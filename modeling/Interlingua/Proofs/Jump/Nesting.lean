import Interlingua.Emit.Basic
import Interlingua.Proofs.Arena.Grounded
import Mathlib.Data.Set.Lattice

/-!
# Jumps and what is around them

* `Construct` — a loop or a switch, which a jump can concern; `Construct.innermost` finds the one
  that an unlabelled jump concerns.
* `Jump.designated`, `Language.destination` — what a jump of a tree means, and what a jump that is
  written in a language does.
* `View.jumps` — the jumps below a node that are written in a language, each with the constructs
  around it.  These are all jumps, but in Python a `break` that ends a case is not written: a case
  ends there anyway.
* `Language.expresses` — a language can write a jump: what is innermost there is what it means.
-/

namespace Interlingua

/-- What a jump can leave, or start the next round of. -/
inductive Construct where
  | loop (id : NodeId)
  | switch (id : NodeId)
  deriving DecidableEq, Repr

namespace Construct

def id : Construct → NodeId
  | .loop id | .switch id => id

def isLoop : Construct → Bool
  | .loop _ => true
  | .switch _ => false

/-- The innermost loop, or switch if these count too. -/
def innermost (switches : Bool) (around : List Construct) : Option NodeId :=
  (around.find? fun construct => construct.isLoop || switches).map id

/-- The loops among some constructs. -/
def loopIds (around : List Construct) : List NodeId := (around.filter isLoop).map id

theorem head?_loopIds (around : List Construct) :
    (loopIds around).head? = innermost false around := by
  simp [loopIds, innermost, List.head?_map, List.head?_filter]

end Construct

/-! ## Jumps -/

inductive JumpKind where
  /-- A `break`. -/
  | leave
  /-- A `continue`. -/
  | next
  deriving DecidableEq, Repr

structure Jump where
  kind : JumpKind
  /-- The construct that it names. -/
  target : Option NodeId
  deriving DecidableEq, Repr

def Node.jump? : Node → Option Jump
  | .stmt (.breakTo target) => some ⟨.leave, target⟩
  | .stmt (.continueTo target) => some ⟨.next, target⟩
  | _ => none

/-- What a jump of a tree means: the construct that it names, or else the innermost loop, or switch
if it leaves. -/
def Jump.designated (jump : Jump) (around : List Construct) : Option NodeId :=
  jump.target.or (Construct.innermost (jump.kind = .leave) around)

/-- What a jump does that is written in a language.  In Python, a switch is no construct that a
jump could leave. -/
def Language.destination (lang : Language) (kind : JumpKind) (around : List Construct) :
    Option NodeId :=
  Construct.innermost (kind = .leave && lang ≠ .python) around

/-- Whether a jump can be written: what is innermost is what it means.  Python looks this up for a
`continue`, which only has to be in a loop. -/
def Language.expresses (lang : Language) (jump : Jump) (around : List Construct) : Bool :=
  match lang, jump.kind with
  | .python, .next => (Construct.innermost false around).isSome
  | _, _ => jump.designated around = lang.destination jump.kind around

/-! ## What statements are nested in -/

/-- What a node puts around the statements that it holds. -/
inductive Nesting where
  | plain
  | loop (id : NodeId)
  | switch (id : NodeId)
  /-- No jump leads out of a definition. -/
  | definition
  deriving DecidableEq, Repr

/-- The constructs around what is nested. -/
def Nesting.inside : Nesting → List Construct → List Construct
  | .plain, around => around
  | .loop id, around => .loop id :: around
  | .switch id, around => .switch id :: around
  | .definition, _ => []

/-- A jump at one of its places. -/
structure Occurrence where
  kind : JumpKind
  id : NodeId
  around : List Construct

namespace View

variable (view : View)

def jump? (id : NodeId) : Option Jump :=
  match view.arena.node id with
  | .ok node => node.jump?
  | .error _ => none

/-- The statements of a body. -/
def bodyItems (body : NodeId) : List NodeId :=
  match view.arena.stmt body with
  | .ok (.block items) => items
  | _ => [body]

/-- The statements of a case.  Python does not write a last one that leaves the switch. -/
def caseItems (body : NodeId) : List NodeId :=
  let items := view.bodyItems body
  if view.lang = .python ∧ items.getLast?.any (view.jump? · = some ⟨.leave, none⟩) then
    items.dropLast
  else items

/-- Whether the statements of a program are put into a function. -/
def isWrapped (mainClass entryPoint : Option NodeId) : Bool :=
  view.isOn .unitMode && (if view.lang = .java then mainClass else entryPoint).isNone

/-- The statements that a node holds, and what it puts around them. -/
def parts (id : NodeId) : Node → List (Nesting × List NodeId)
  | .stmt (.block items) | .stmt (.multiAssign items) => [(.plain, items)]
  | .stmt (.conditional branches otherwise) =>
    [(.plain, branches.map Branch.body ++ otherwise.toList)]
  | .stmt (.switch _ cases) =>
    [(.switch id, cases.flatMap fun case => view.caseItems case.body)]
  | .stmt (.whileLoop _ body) | .stmt (.doWhile body _) | .stmt (.rangeFor _ _ body)
  | .stmt (.forEach _ _ _ body) | .stmt (.infinite body) => [(.loop id, [body])]
  | .stmt (.forLoop init _ _ body) => [(.plain, init.toList), (.loop id, [body])]
  | .defn (.program items mainClass entryPoint) =>
    [(if view.isWrapped mainClass entryPoint then .definition else .plain, items)]
  | .defn (.function _ body) => [(.definition, [body])]
  | .defn (.classBody _ members) => [(.definition, members)]
  | _ => []

/-- A node holds a statement, with some constructs around each. -/
inductive Holds : List Construct → NodeId → List Construct → NodeId → Prop
  | self {around : List Construct} {id : NodeId} : Holds around id around id
  | part {around inner : List Construct} {id child target : NodeId} {node : Node}
      {nesting : Nesting} {items : List NodeId} (found : view.arena.node id = .ok node)
      (hpart : (nesting, items) ∈ view.parts id node) (hchild : child ∈ items)
      (below : Holds (nesting.inside around) child inner target) : Holds around id inner target

/-- The jumps that a node holds. -/
def jumps (around : List Construct) (id : NodeId) : Set Occurrence :=
  {found | view.Holds around id found.around found.id ∧
    ∃ jump ∈ view.jump? found.id, jump.kind = found.kind}

/-- The jumps that some nodes hold. -/
def jumpsAll (around : List Construct) (items : List NodeId) : Set Occurrence :=
  {found | ∃ item ∈ items, found ∈ view.jumps around item}

variable {view} {around : List Construct} {id : NodeId} {node : Node}

/-! ## The jumps of each kind of statement -/

theorem jump?_eq (found : view.arena.node id = .ok node) : view.jump? id = node.jump? := by
  simp [jump?, found]

theorem bodyItems_block {items : List NodeId} (found : view.arena.stmt id = .ok (.block items)) :
    view.bodyItems id = items := by
  simp [bodyItems, found]

@[simp] theorem jumpsAll_nil : view.jumpsAll around [] = ∅ := by
  simp [jumpsAll]

@[simp] theorem jumpsAll_singleton : view.jumpsAll around [id] = view.jumps around id := by
  simp [jumpsAll]

theorem jumpsAll_append (items more : List NodeId) :
    view.jumpsAll around (items ++ more) =
      view.jumpsAll around items ∪ view.jumpsAll around more := by
  ext found
  constructor
  · rintro ⟨item, hitem, hfound⟩
    rcases List.mem_append.1 hitem with hitem | hitem
    · exact .inl ⟨item, hitem, hfound⟩
    · exact .inr ⟨item, hitem, hfound⟩
  · rintro (⟨item, hitem, hfound⟩ | ⟨item, hitem, hfound⟩)
    · exact ⟨item, List.mem_append_left _ hitem, hfound⟩
    · exact ⟨item, List.mem_append_right _ hitem, hfound⟩

theorem jumpsAll_cons (item : NodeId) (rest : List NodeId) :
    view.jumpsAll around (item :: rest) = view.jumps around item ∪ view.jumpsAll around rest := by
  rw [← List.singleton_append, jumpsAll_append, jumpsAll_singleton]

theorem jumpsAll_eq_empty {items : List NodeId} (h : ∀ item ∈ items, view.jumps around item = ∅) :
    view.jumpsAll around items = ∅ := by
  refine Set.eq_empty_of_forall_notMem fun place ⟨item, hitem, hplace⟩ => ?_
  rw [h item hitem] at hplace
  exact hplace

/-- The jumps that a node holds are its own and those of its parts. -/
theorem mem_jumps_iff (found : view.arena.node id = .ok node) {place : Occurrence} :
    place ∈ view.jumps around id ↔
      (place.id = id ∧ place.around = around ∧ ∃ jump ∈ node.jump?, jump.kind = place.kind) ∨
        ∃ part ∈ view.parts id node, place ∈ view.jumpsAll (part.1.inside around) part.2 := by
  constructor
  · rintro ⟨hholds, hjump⟩
    cases hholds with
    | self =>
      rw [jump?_eq found] at hjump
      exact .inl ⟨rfl, rfl, hjump⟩
    | part found' hpart hchild below =>
      cases found.symm.trans found'
      exact .inr ⟨_, hpart, _, hchild, below, hjump⟩
  · rintro (⟨rfl, rfl, hjump⟩ | ⟨part, hpart, child, hchild, hholds, hjump⟩)
    · rw [← jump?_eq found] at hjump
      exact ⟨.self, hjump⟩
    · exact ⟨.part found hpart hchild hholds, hjump⟩

theorem jumps_of_jump {kind : JumpKind} {target : Option NodeId}
    (found : view.arena.node id = .ok node) (hjump : node.jump? = some ⟨kind, target⟩) :
    view.jumps around id = {⟨kind, id, around⟩} := by
  have hparts : view.parts id node = [] := by
    unfold Node.jump? at hjump
    split at hjump
    · rfl
    · rfl
    · cases hjump
  ext ⟨kind, other, inner⟩
  rw [mem_jumps_iff found, hparts, hjump]
  simp [eq_comm, and_comm, and_left_comm]

/-- A node that is no jump holds the jumps of its parts. -/
theorem jumps_of_parts (found : view.arena.node id = .ok node) (hjump : node.jump? = none) :
    view.jumps around id =
      {place | ∃ part ∈ view.parts id node,
        place ∈ view.jumpsAll (part.1.inside around) part.2} := by
  ext place
  rw [mem_jumps_iff found, hjump]
  simp

theorem jumps_of_part {nesting : Nesting} {items : List NodeId}
    (found : view.arena.node id = .ok node) (hjump : node.jump? = none)
    (hparts : view.parts id node = [(nesting, items)]) :
    view.jumps around id = view.jumpsAll (nesting.inside around) items := by
  rw [jumps_of_parts found hjump, hparts]
  simp

theorem jumps_of_none (found : view.arena.node id = .ok node) (hjump : node.jump? = none)
    (hparts : view.parts id node = []) : view.jumps around id = ∅ := by
  rw [jumps_of_parts found hjump, hparts]
  simp

theorem jumps_forLoop {init cond update : Option NodeId} {body : NodeId}
    (found : view.arena.node id = .ok (.stmt (.forLoop init cond update body))) :
    view.jumps around id =
      view.jumpsAll around init.toList ∪ view.jumps (.loop id :: around) body := by
  rw [jumps_of_parts found rfl]
  ext place
  simp [parts, Nesting.inside]

/-- The jumps of a body are those of its statements. -/
theorem jumps_body (body : NodeId) :
    view.jumps around body = view.jumpsAll around (view.bodyItems body) := by
  unfold bodyItems
  split
  · rename_i items found
    exact jumps_of_part (Arena.node_of_stmt found) rfl rfl
  · exact jumpsAll_singleton.symm

theorem caseItems_eq (hlang : view.lang ≠ .python) (body : NodeId) :
    view.caseItems body = view.bodyItems body := by
  simp [caseItems, hlang]

end View

end Interlingua
