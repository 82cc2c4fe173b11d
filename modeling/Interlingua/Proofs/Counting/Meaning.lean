import Interlingua.Emit.Counting
import Interlingua.Proofs.Arena.Search

/-!
# What an expression reads and what a subtree writes

An expression is evaluated over a store of whole numbers.  The operators a loop compares and counts
with are those of the whole numbers; what the others do, and the expressions that are no arithmetic
at all, is left to a `World`.

* `World.eval` — the value of an expression and the store it leaves.
* `Arena.Reads`, `Arena.Writes` — the names that a subtree reads, assigns, steps or rebinds.
* `World.evalTo_of_isRepeatableTo` — a repeatable expression leaves the store alone, and its value
  depends on the names it reads only.
* `Arena.mem_of_reads`, `Arena.not_mem_of_writes` — the two scans over a subtree miss no name.
-/

namespace Interlingua

/-- The values of the variables. -/
abbrev Store := String → Int

/-- A store after one variable is given a value. -/
def Store.set (s : Store) (name : String) (value : Int) : Store :=
  fun other => if other = name then value else s other

namespace Store

@[simp] theorem set_self (s : Store) (name : String) (value : Int) :
    s.set name value name = value := by
  simp [set]

theorem set_of_ne {s : Store} {name other : String} {value : Int} (h : other ≠ name) :
    s.set name value other = s other := by
  simp [set, h]

end Store

/-- What evaluation leaves open: the operators that no counting loop is made of, the constants that
are no whole numbers, and everything that is neither a name nor an operator.  The last may do
whatever it likes to the store. -/
structure World where
  operator : BinaryOp → Int → Int → Option Int
  unary : UnaryOp → Int → Option Int
  member : String → Int → Option Int
  constant : Expr → Option Int
  other : Expr → Store → Option (Int × Store)

/-- A truth value as a number. -/
def truth (holds : Bool) : Int := if holds then 1 else 0

/-- The value of an operation whose second operand is not evaluated. -/
def BinaryOp.settled? : BinaryOp → Int → Option Int
  | .and, a => if a = 0 then some 0 else none
  | .or, a => if a = 0 then none else some 1
  | _, _ => none

/-- What a step adds to its operand. -/
def UnaryOp.stride : UnaryOp → Int
  | .preDec | .postDec => -1
  | _ => 1

namespace World

def binary (world : World) : BinaryOp → Int → Int → Option Int
  | .add, a, b => some (a + b)
  | .sub, a, b => some (a - b)
  | .lt, a, b => some (truth (a < b))
  | .ltEq, a, b => some (truth (a ≤ b))
  | .gt, a, b => some (truth (b < a))
  | .gtEq, a, b => some (truth (b ≤ a))
  | op, a, b => world.operator op a b

/-- The value of an expression and the store it leaves, given the same for what is below it. -/
def layer (world : World) (arena : Arena) (below : NodeId → Store → Option (Int × Store))
    (e : Expr) (s : Store) : Option (Int × Store) :=
  match e with
  | .int value => some (value, s)
  | .ident name => some (s name, s)
  | .paren inner => below inner s
  | .member target name => do
    let (value, after) ← below target s
    return (← world.member name value, after)
  | .binary op left right => do
    let (a, after) ← below left s
    match op.settled? a with
    | some value => return (value, after)
    | none =>
      let (b, after) ← below right after
      return (← world.binary op a b, after)
  | .unary op operand =>
    if op.isStep then
      match arena.expr operand with
      | .ok (.ident name) =>
        let next := s name + op.stride
        some (if op.isPost then s name else next, s.set name next)
      | _ => world.other e s
    else do
      let (value, after) ← below operand s
      return (← world.unary op value, after)
  | .assign op target value =>
    match arena.expr target with
    | .ok (.ident name) => do
      let (given, after) ← below value s
      let result ← match op.binary? with
        | none => some given
        | some op => world.binary op (s name) given
      return (result, after.set name result)
    | _ => world.other e s
  | .float _ | .bool _ | .char _ | .str .. | .null | .scoped _ | .selfRef =>
    (world.constant e).map (·, s)
  | .interpolated _ | .collection .. | .dict _ | .superRef | .ternary .. | .compound _ | .call ..
  | .method .. | .index .. | .cast .. | .sizeOf _ | .new .. | .newArray .. | .sequence _ =>
    world.other e s

/-- `eval` for an expression of at most the given depth. -/
def evalTo (world : World) (arena : Arena) : Nat → NodeId → Store → Option (Int × Store)
  | 0, _, _ => none
  | depth + 1, id, s =>
    match arena.expr id with
    | .ok e => world.layer arena (evalTo world arena depth) e s
    | .error _ => none

/-- The value of an expression and the store it leaves. -/
def eval (world : World) (arena : Arena) (id : NodeId) (s : Store) : Option (Int × Store) :=
  world.evalTo arena arena.depthBound id s

variable {world : World} {arena : Arena}

theorem layer_congr {f g : NodeId → Store → Option (Int × Store)} {e : Expr}
    (h : ∀ c ∈ e.children, f c.id = g c.id) : world.layer arena f e = world.layer arena g e := by
  funext s
  cases e with
  | paren inner => exact congrFun (h ⟨inner, "inner"⟩ (by simp [Expr.children])) s
  | member target name => simp [layer, h ⟨target, "target"⟩ (by simp [Expr.children])]
  | binary op left right =>
    simp [layer, h ⟨left, "left"⟩ (by simp [Expr.children]),
      h ⟨right, "right"⟩ (by simp [Expr.children])]
  | unary op operand => simp [layer, h ⟨operand, "operand"⟩ (by simp [Expr.children])]
  | assign op target value => simp [layer, h ⟨value, "value"⟩ (by simp [Expr.children])]
  | _ => rfl

/-- More depth than the paths of a subtree need changes no value. -/
theorem evalTo_eq_of_le {depth more : Nat} (hle : depth ≤ more) {id : NodeId}
    (h : arena.GroundedTo depth id) : world.evalTo arena more id = world.evalTo arena depth id := by
  induction depth generalizing more id with
  | zero => exact h.elim
  | succ depth ih =>
    obtain ⟨more, rfl⟩ : ∃ m, more = m + 1 := ⟨more - 1, by omega⟩
    funext s
    simp only [evalTo]
    cases hexpr : arena.expr id with
    | error fault => rfl
    | ok e =>
      exact congrFun (layer_congr fun c hc => ih (by omega) (h.belowExpr hexpr c hc)) s

/-- A grounded expression is evaluated layer by layer. -/
theorem eval_eq {id : NodeId} {e : Expr} (h : arena.Grounded id) (found : arena.expr id = .ok e) :
    world.eval arena id = world.layer arena (world.eval arena) e := by
  obtain ⟨size, hsize⟩ := h.to_size.pos
  have hbelow := (hsize ▸ h.to_size).belowExpr found
  funext s
  rw [eval, Arena.depthBound, evalTo, found]
  refine congrFun (layer_congr fun c hc => ?_) s
  rw [evalTo_eq_of_le (by omega) (hbelow c hc)]
  exact (evalTo_eq_of_le (by simp only [Arena.depthBound]; omega) (hbelow c hc)).symm

end World

/-! ## Results of searches -/

theorem Except.exists_of_bind {ε α β : Type} {result : Except ε α} {next : α → Except ε β} {b : β}
    (h : (result >>= next) = .ok b) : ∃ a, result = .ok a ∧ next a = .ok b := by
  cases result with
  | error e => cases h
  | ok a => exact ⟨a, rfl, h⟩

section Search

variable {ε α β : Type}

/-- A search that found nothing asked of every item. -/
theorem eq_false_of_anyM {f : α → Except ε Bool} {items : List α} (h : items.anyM f = .ok false) :
    ∀ item ∈ items, f item = .ok false := by
  induction items with
  | nil => simp
  | cons first rest ih =>
    rw [List.anyM_cons] at h
    obtain ⟨found, hfound, h⟩ := Except.exists_of_bind h
    cases found with
    | true => cases h
    | false => exact List.forall_mem_cons.2 ⟨hfound, ih h⟩

theorem eq_true_of_allM {f : α → Except ε Bool} {items : List α} (h : items.allM f = .ok true) :
    ∀ item ∈ items, f item = .ok true := by
  induction items with
  | nil => simp
  | cons first rest ih =>
    rw [List.allM_cons] at h
    obtain ⟨found, hfound, h⟩ := Except.exists_of_bind h
    cases found with
    | false => cases h
    | true => exact List.forall_mem_cons.2 ⟨hfound, ih h⟩

theorem exists_mem_of_mapM {f : α → Except ε β} {items : List α} {results : List β}
    (h : items.mapM f = .ok results) : ∀ item ∈ items, ∃ result ∈ results, f item = .ok result := by
  induction items generalizing results with
  | nil => simp
  | cons first rest ih =>
    rw [List.mapM_cons] at h
    obtain ⟨result, hresult, h⟩ := Except.exists_of_bind h
    obtain ⟨others, hothers, h⟩ := Except.exists_of_bind h
    cases h
    refine List.forall_mem_cons.2 ⟨⟨result, by simp, hresult⟩, fun item hitem => ?_⟩
    obtain ⟨found, hfound, hf⟩ := ih hothers item hitem
    exact ⟨found, by simp [hfound], hf⟩

end Search

namespace Arena

variable {arena : Arena} {id : NodeId} {name : String}

/-- A name is read somewhere in a subtree. -/
def Reads (arena : Arena) (root : NodeId) (name : String) : Prop :=
  ∃ id, arena.Above root id ∧ arena.expr id = .ok (.ident name)

/-- A node itself assigns, steps or rebinds a name. -/
inductive WritesHere (arena : Arena) (name : String) : Node → Prop
  | assign {op : AssignOp} {target value : NodeId} (h : arena.expr target = .ok (.ident name)) :
      WritesHere arena name (.expr (.assign op target value))
  | statement {op : AssignOp} {target value : NodeId} (h : arena.expr target = .ok (.ident name)) :
      WritesHere arena name (.stmt (.assign op target value))
  | step {op : UnaryOp} {operand : NodeId} (hop : op.isStep = true)
      (h : arena.expr operand = .ok (.ident name)) :
      WritesHere arena name (.expr (.unary op operand))
  | vars {ty : NodeId} {declarators : List Declarator} {modifiers : Modifiers} {d : Declarator}
      (hd : d ∈ declarators) (h : d.name = name) :
      WritesHere arena name (.decl (.vars ty declarators modifiers))
  | rangeFor {range : Range} {body : NodeId} :
      WritesHere arena name (.stmt (.rangeFor name range body))
  | forEach {ty iterable body : NodeId} :
      WritesHere arena name (.stmt (.forEach name ty iterable body))

/-- A name is assigned, stepped or rebound somewhere in a subtree. -/
def Writes (arena : Arena) (root : NodeId) (name : String) : Prop :=
  ∃ id node, arena.Above root id ∧ arena.node id = .ok node ∧ arena.WritesHere name node

theorem Reads.of_child {node : Node} {c : Child} (found : arena.node id = .ok node)
    (hc : c ∈ node.children) (h : arena.Reads c.id name) : arena.Reads id name := by
  obtain ⟨at_, habove, hat⟩ := h
  exact ⟨at_, .head (owns_of_mem found hc) habove, hat⟩

/-- A child that a node's subtree goes on through. -/
theorem eq_or_exists_child {node : Node} {below : NodeId} (found : arena.node id = .ok node)
    (h : arena.Above id below) : id = below ∨ ∃ c ∈ node.children, arena.Above c.id below := by
  rcases h.cases_head with rfl | ⟨child, ⟨node', found', c, hc, rfl⟩, hbelow⟩
  · exact .inl rfl
  · rw [found] at found'
    cases found'
    exact .inr ⟨c, hc, hbelow⟩

/-- **No name that is read is missed.** -/
theorem mem_of_reads {depth : Nat} {names : List String}
    (hnames : arena.namesReadTo depth id = .ok names) (h : arena.Reads id name) : name ∈ names := by
  induction depth generalizing id names with
  | zero => cases hnames
  | succ depth ih =>
    obtain ⟨node, found, hnames⟩ := Except.exists_of_bind hnames
    obtain ⟨below, hbelow, hnames⟩ := Except.exists_of_bind hnames
    cases hnames
    obtain ⟨at_, habove, hat⟩ := h
    rcases eq_or_exists_child found habove with rfl | ⟨c, hc, hbelow'⟩
    · rw [node_of_expr hat] at found
      cases found
      simp
    · obtain ⟨names, hmem, hchild⟩ := exists_mem_of_mapM hbelow c hc
      have hname := ih hchild ⟨at_, hbelow', hat⟩
      exact List.mem_append_right _ (List.mem_flatten.2 ⟨names, hmem, hname⟩)

theorem not_mem_of_isOneOf {names : List String} (h : arena.isOneOf names id = .ok false)
    (hid : arena.expr id = .ok (.ident name)) : name ∉ names := by
  rw [isOneOf, hid] at h
  simpa [bind, Except.bind, pure, Except.pure] using h

/-- A node that is found to write none of some names writes none of them. -/
theorem not_mem_of_writesHere {names : List String} {node : Node}
    (hnode : arena.assignsHere names node = .ok false) (h : arena.WritesHere name node) :
    name ∉ names := by
  cases h with
  | assign h | statement h => exact not_mem_of_isOneOf hnode h
  | step hop h =>
    rw [assignsHere, if_pos hop] at hnode
    exact not_mem_of_isOneOf hnode h
  | vars hd h =>
    subst h
    simp only [assignsHere, Except.ok.injEq, List.any_eq_false, List.contains_iff_mem] at hnode
    exact hnode _ hd
  | rangeFor | forEach => simpa [assignsHere] using hnode

/-- **No name that is written is missed.** -/
theorem not_mem_of_writes {depth : Nat} {names : List String}
    (hnames : arena.assignsOneOfTo names depth id = .ok false) (h : arena.Writes id name) :
    name ∉ names := by
  induction depth generalizing id with
  | zero => cases hnames
  | succ depth ih =>
    obtain ⟨node, found, hnames⟩ := Except.exists_of_bind hnames
    obtain ⟨here, hhere, hnames⟩ := Except.exists_of_bind hnames
    cases here with
    | true => cases hnames
    | false =>
      obtain ⟨at_, node', habove, found', hwrites⟩ := h
      rcases eq_or_exists_child found habove with rfl | ⟨c, hc, hbelow⟩
      · rw [found] at found'
        cases found'
        exact not_mem_of_writesHere hhere hwrites
      · exact ih (eq_false_of_anyM hnames c hc) ⟨at_, node', hbelow, found', hwrites⟩

end Arena

/-! ## Expressions that can be evaluated again -/

namespace World

variable {world : World} {arena : Arena}

/-- **A repeatable expression leaves the store alone, and its value depends on the names it reads
only.** -/
theorem evalTo_of_isRepeatableTo (world : World) {depth : Nat} {id : NodeId} {s t : Store}
    (h : arena.isRepeatableTo depth id = .ok true)
    (hagree : ∀ name, arena.Reads id name → s name = t name) :
    ∃ value : Option Int, world.evalTo arena depth id s = value.map (·, s) ∧
      world.evalTo arena depth id t = value.map (·, t) := by
  induction depth generalizing id with
  | zero => cases h
  | succ depth ih =>
    obtain ⟨e, found, h⟩ := Except.exists_of_bind h
    have hbelow : ∀ c ∈ e.children, arena.isRepeatableTo depth c.id = .ok true →
        ∃ value : Option Int, world.evalTo arena depth c.id s = value.map (·, s) ∧
          world.evalTo arena depth c.id t = value.map (·, t) := fun c hc hrepeat =>
      ih hrepeat fun name hread => hagree name (hread.of_child (Arena.node_of_expr found) hc)
    simp only [evalTo, found]
    cases e with
    | int value => exact ⟨some value, rfl, rfl⟩
    | ident name =>
      have hname := hagree name ⟨id, .refl, found⟩
      exact ⟨some (s name), rfl, by simp [layer, hname]⟩
    | paren inner => exact hbelow ⟨inner, "inner"⟩ (by simp [Expr.children]) h
    | member target name =>
      obtain ⟨value, hs, ht⟩ := hbelow ⟨target, "target"⟩ (by simp [Expr.children]) h
      refine ⟨value.bind (world.member name), ?_, ?_⟩ <;>
        cases value <;> simp [layer, hs, ht, Option.map_eq_bind]
    | binary op left right =>
      have hall := eq_true_of_allM h
      obtain ⟨a, has, hat⟩ := hbelow ⟨left, "left"⟩ (by simp [Expr.children]) (hall left (by simp))
      obtain ⟨b, hbs, hbt⟩ :=
        hbelow ⟨right, "right"⟩ (by simp [Expr.children]) (hall right (by simp))
      refine ⟨a.bind fun a => match op.settled? a with
        | some value => some value
        | none => b.bind (world.binary op a), ?_, ?_⟩ <;>
        rcases a with _ | a <;> simp [layer, has, hat] <;>
        cases op.settled? a <;> cases b <;>
          simp [hbs, hbt, Option.map_eq_bind]
    | unary op operand =>
      simp only at h
      cases hstep : op.isStep with
      | true =>
        rw [if_pos hstep] at h
        cases h
      | false =>
        rw [if_neg (by simp [hstep])] at h
        obtain ⟨value, hs, ht⟩ := hbelow ⟨operand, "operand"⟩ (by simp [Expr.children]) h
        refine ⟨value.bind (world.unary op), ?_, ?_⟩ <;>
          cases value <;> simp [layer, hs, ht, hstep, Option.map_eq_bind]
    | interpolated | collection | dict | superRef | assign | ternary | compound | call | method
    | index | cast | sizeOf | new | newArray | sequence => cases h
    | _ => exact ⟨world.constant _, rfl, rfl⟩

/-- The value of an expression. -/
def valueOf (world : World) (arena : Arena) (id : NodeId) (s : Store) : Option Int :=
  (world.eval arena id s).map Prod.fst

/-- A repeatable expression is its value. -/
theorem eval_of_isRepeatable (world : World) {id : NodeId} (h : arena.isRepeatable id = .ok true)
    (s : Store) : world.eval arena id s = (world.valueOf arena id s).map (·, s) := by
  obtain ⟨value, hs, -⟩ := evalTo_of_isRepeatableTo world (s := s) h fun _ _ => rfl
  simp [valueOf, eval, hs, Option.map_map, Function.comp_def]

/-- Stores that agree on what a repeatable expression reads give it one value. -/
theorem valueOf_congr {id : NodeId} {s t : Store} (h : arena.isRepeatable id = .ok true)
    (hagree : ∀ name, arena.Reads id name → s name = t name) :
    world.valueOf arena id s = world.valueOf arena id t := by
  obtain ⟨value, hs, ht⟩ := evalTo_of_isRepeatableTo world h hagree
  simp [valueOf, eval, hs, ht, Option.map_map, Function.comp_def]

end World

end Interlingua
