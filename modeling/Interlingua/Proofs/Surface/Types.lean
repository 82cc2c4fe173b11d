import Interlingua.Emit.Expr.Basic
import Interlingua.Proofs.Surface.Words

/-!
# Names of types

* `Yields` — a run keeps a property of its state, and its result has another one.
* `Ty.isPlain` — every name in a type is a path of names; `Scope.Plain` — every type that a scope
  knows is plain.
* `Ty.names` — the names in a type; `Infer.yields_named` — inference finds no others than those that
  the tree and the scope have, so where all types are plain it finds plain types only.
* `TypeSpelling` — what the names of types are made of, in each language.
* `Surface.TypeText` — how a plain type is written is one word in each language.
-/

namespace Interlingua

/-! ## Runs that keep a property -/

/-- From a state with a property, a run that succeeds ends in such a state with a result that has
another property. -/
def Yields {ε σ α : Type} (inv : σ → Prop) (action : EStateM ε σ α) (post : α → Prop) : Prop :=
  ∀ s a s', inv s → action s = .ok a s' → inv s' ∧ post a

namespace Yields

variable {ε σ α β : Type} {inv : σ → Prop} {action : EStateM ε σ α} {post : α → Prop}
  {next : α → EStateM ε σ β} {goal : β → Prop}

protected theorem pure {a : α} (h : post a) :
    Yields inv (pure a : EStateM ε σ α) post := by
  intro s a' s' hs hrun
  cases hrun
  exact ⟨hs, h⟩

protected theorem throw (e : ε) : Yields inv (throw e : EStateM ε σ α) post := by
  intro s a s' _ hrun
  cases hrun

theorem bind (h : Yields inv action post) (hnext : ∀ a, post a → Yields inv (next a) goal) :
    Yields inv (action >>= next) goal := by
  intro s b s'' hs hrun
  simp only [Bind.bind, EStateM.bind] at hrun
  cases haction : action s with
  | error e s' =>
    rw [haction] at hrun
    cases hrun
  | ok a s' =>
    rw [haction] at hrun
    obtain ⟨hs', ha⟩ := h s a s' hs haction
    exact hnext a ha s' b s'' hs' hrun

theorem mono {wider : α → Prop} (h : Yields inv action post) (himp : ∀ a, post a → wider a) :
    Yields inv action wider := by
  intro s a s' hs hrun
  obtain ⟨hs', ha⟩ := h s a s' hs hrun
  exact ⟨hs', himp a ha⟩

protected theorem get : Yields inv (get : EStateM ε σ σ) inv := by
  intro s a s' hs hrun
  cases hrun
  exact ⟨hs, hs⟩

protected theorem modify {f : σ → σ} (h : ∀ s, inv s → inv (f s)) :
    Yields inv (modify f : EStateM ε σ PUnit) fun _ => True := by
  intro s a s' hs hrun
  cases hrun
  exact ⟨h s hs, trivial⟩

protected theorem ite {condition : Prop} [Decidable condition] {other : EStateM ε σ α}
    (h : Yields inv action post) (h' : Yields inv other post) :
    Yields inv (if condition then action else other) post := by
  split
  · exact h
  · exact h'

/-- One result an item. -/
theorem mapM_length {γ : Type} {f : γ → EStateM ε σ α} {items : List γ}
    (h : ∀ item ∈ items, Yields inv (f item) post) :
    Yields inv (items.mapM f) fun results =>
      results.length = items.length ∧ ∀ a ∈ results, post a := by
  induction items with
  | nil => exact .pure ⟨rfl, fun a ha => by cases ha⟩
  | cons item rest ih =>
    rw [List.mapM_cons]
    refine (h item (by simp)).bind fun a ha => ?_
    refine (ih fun item hitem => h item (by simp [hitem])).bind fun results hresults => ?_
    exact .pure ⟨by simp [hresults.1], List.forall_mem_cons.2 ⟨ha, hresults.2⟩⟩

theorem mapM {γ : Type} {f : γ → EStateM ε σ α} {items : List γ}
    (h : ∀ item ∈ items, Yields inv (f item) post) :
    Yields inv (items.mapM f) fun results => ∀ a ∈ results, post a :=
  (mapM_length h).mono fun _ hresults => hresults.2

/-- Each result with its item. -/
theorem mapM_rel {γ : Type} {f : γ → EStateM ε σ α} {items : List γ} {related : γ → α → Prop}
    (h : ∀ item ∈ items, Yields inv (f item) (related item)) :
    Yields inv (items.mapM f) (List.Forall₂ related items) := by
  induction items with
  | nil => exact .pure .nil
  | cons item rest ih =>
    rw [List.mapM_cons]
    refine (h item (by simp)).bind fun a ha => ?_
    exact (ih fun item hitem => h item (by simp [hitem])).bind fun _ hrest => .pure (.cons ha hrest)

/-- What each item shows by getting through. -/
theorem mapM_items {γ : Type} {f : γ → EStateM ε σ α} {items : List γ} {shown : γ → Prop}
    (h : ∀ item ∈ items, Yields inv (f item) fun _ => shown item) :
    Yields inv (items.mapM f) fun _ => ∀ item ∈ items, shown item := by
  induction items with
  | nil => exact .pure fun item hitem => by cases hitem
  | cons item rest ih =>
    rw [List.mapM_cons]
    refine (h item (by simp)).bind fun _ hitem => ?_
    refine (ih fun item hitem => h item (by simp [hitem])).bind fun _ hrest => .pure ?_
    exact List.forall_mem_cons.2 ⟨hitem, hrest⟩

end Yields

/-! ## Plain types -/

/-- Names with dots or colons between them. -/
def Text.isPath (name : String) : Bool :=
  name.toList.all (fun c => Surface.isNameChar c || c == '.' || c == ':') &&
    name.toList.getLast?.any Surface.isNameChar

mutual
/-- Every name in the type is a path of names. -/
def Ty.isPlain : Ty → Bool
  | .user name => Text.isPath name
  | .generic name args => Text.isPath name && Ty.allPlain args
  | .pointer target | .reference target => target.isPlain
  | .array item | .list item | .set item => item.isPlain
  | .dict key value => key.isPlain && value.isPlain
  | .tuple items => Ty.allPlain items
  | .int | .float | .bool | .char | .str | .void | .unknown => true

def Ty.allPlain : List Ty → Bool
  | [] => true
  | ty :: rest => ty.isPlain && Ty.allPlain rest
end

/-- Every type that the scope knows is plain. -/
structure Scope.Plain (scope : Scope) : Prop where
  vars : ∀ name, ∀ ty ∈ scope.varType? name, ty.isPlain = true
  methods : ∀ name, ∀ ty ∈ scope.returnType? name, ty.isPlain = true

theorem Scope.Plain.empty : ({} : Scope).Plain := by
  constructor <;> (intro name ty hty; cases hty)

/-! ## Names in types -/

mutual
/-- The names that a type is made of. -/
def Ty.names : Ty → List String
  | .user name => [name]
  | .generic name args => name :: Ty.namesAll args
  | .pointer target | .reference target => target.names
  | .array item | .list item | .set item => item.names
  | .dict key value => key.names ++ value.names
  | .tuple items => Ty.namesAll items
  | .int | .float | .bool | .char | .str | .void | .unknown => []

def Ty.namesAll : List Ty → List String
  | [] => []
  | ty :: rest => ty.names ++ Ty.namesAll rest
end

/-- Every name in the type has a property. -/
def Ty.Named (named : String → Prop) (ty : Ty) : Prop := ∀ name ∈ ty.names, named name

variable {named : String → Prop}

theorem Ty.mem_namesAll {types : List Ty} {name : String} :
    name ∈ Ty.namesAll types ↔ ∃ ty ∈ types, name ∈ ty.names := by
  induction types with
  | nil => simp [namesAll]
  | cons ty rest ih => simp [namesAll, ih]

mutual
theorem Ty.isPlain_iff : ∀ ty : Ty, ty.isPlain = true ↔ ty.Named (Text.isPath · = true)
  | .int | .float | .bool | .char | .str | .void | .unknown => by simp [isPlain, Named, names]
  | .user name => by simp [isPlain, Named, names]
  | .pointer target | .reference target => isPlain_iff target
  | .array item | .list item | .set item => isPlain_iff item
  | .dict key value => by
    simp [isPlain, Named, names, isPlain_iff key, isPlain_iff value, or_imp, forall_and]
  | .tuple items => by simpa [isPlain, Named, names] using allPlain_iff_names items
  | .generic name args => by simp [isPlain, Named, names, allPlain_iff_names args]

theorem Ty.allPlain_iff_names : ∀ types : List Ty,
    Ty.allPlain types = true ↔ ∀ name ∈ Ty.namesAll types, Text.isPath name = true
  | [] => by simp [allPlain, namesAll]
  | ty :: rest => by
    have hty := isPlain_iff ty
    rw [Named] at hty
    simp [allPlain, namesAll, hty, allPlain_iff_names rest, or_imp, forall_and]
end

/-- Every name in a type that the scope knows has a property. -/
structure Scope.Named (named : String → Prop) (scope : Scope) : Prop where
  vars : ∀ name, ∀ ty ∈ scope.varType? name, ty.Named named
  methods : ∀ name, ∀ ty ∈ scope.returnType? name, ty.Named named

theorem Scope.plain_eq : Scope.Plain = Scope.Named (Text.isPath · = true) := by
  funext scope
  refine propext ⟨fun h => ⟨?_, ?_⟩, fun h => ⟨?_, ?_⟩⟩
  · exact fun name ty hty => (Ty.isPlain_iff ty).1 (h.vars name ty hty)
  · exact fun name ty hty => (Ty.isPlain_iff ty).1 (h.methods name ty hty)
  · exact fun name ty hty => (Ty.isPlain_iff ty).2 (h.vars name ty hty)
  · exact fun name ty hty => (Ty.isPlain_iff ty).2 (h.methods name ty hty)

namespace Scope.Named

variable {scope : Scope}

theorem setVariable (h : scope.Named named) (name : String) {ty : Ty} (hty : ty.Named named) :
    (scope.setVariable name ty).Named named := by
  refine ⟨fun other found hfound => ?_, h.methods⟩
  have hlookup : (scope.setVariable name ty).varType? other =
      if other = name then some ty else scope.varType? other := by
    simp only [varType?, frames, Scope.setVariable, List.findSome?_cons, Table.find?_insert]
    by_cases hname : other = name
    · rw [if_pos hname, if_pos hname]
    · rw [if_neg hname, if_neg hname]
  rw [hlookup] at hfound
  split at hfound
  · cases hfound
    exact hty
  · exact h.vars other found hfound

theorem register (h : scope.Named named) (name : String) {ty : Ty} (hty : ty.Named named) :
    (scope.register name ty).Named named := by
  unfold Scope.register
  split
  · exact h
  · exact h.setVariable name hty

theorem varType (h : scope.Named named) (name : String) :
    ((scope.varType? name).getD .unknown).Named named := by
  cases hfound : scope.varType? name with
  | none => exact fun name hname => by cases hname
  | some ty => exact h.vars name ty hfound

theorem returnType (h : scope.Named named) (name : String) :
    (scope.returnType name).Named named := by
  unfold Scope.returnType
  cases hfound : scope.returnType? name with
  | none => exact fun name hname => by cases hname
  | some ty => exact h.methods name ty hfound

end Scope.Named

/-! ## Inference invents no names -/

namespace Ty

variable {a b : Ty}

theorem named_wider : ((a.wider? b).getD .unknown).Named named := by
  unfold wider?
  split <;> exact fun name hname => by cases hname

theorem named_unify (ha : a.Named named) : (a.unify b).Named named := by
  unfold unify
  split
  · exact ha
  · exact named_wider

theorem named_unifyAll {types : List Ty} (h : ∀ ty ∈ types, ty.Named named) :
    (unifyAll types).Named named := by
  cases types with
  | nil => exact fun name hname => by cases hname
  | cons first rest =>
    have hfold : ∀ (rest : List Ty) (first : Ty), first.Named named →
        (rest.foldl unify first).Named named := by
      intro rest
      induction rest with
      | nil => exact fun first hfirst => hfirst
      | cons next rest ih => exact fun first hfirst => ih _ (named_unify hfirst)
    exact hfold rest first (h first (by simp))

theorem named_element (ha : a.Named named) : (a.element?.getD .unknown).Named named := by
  cases a with
  | dict key value => exact fun name hname => ha name (List.mem_append_right _ hname)
  | array item | list item | pointer item => exact ha
  | _ => exact fun name hname => by cases hname

theorem named_namesAll {types : List Ty} (h : ∀ ty ∈ types, ty.Named named) :
    ∀ name ∈ namesAll types, named name := by
  intro name hname
  obtain ⟨ty, hty, hmem⟩ := mem_namesAll.1 hname
  exact h ty hty name hmem

end Ty

theorem BinaryOp.named_resultType (op : BinaryOp) (left right : Ty) :
    (op.resultType left right).Named named := by
  unfold resultType
  split
  · exact fun name hname => by cases hname
  · split
    · exact fun name hname => by cases hname
    · exact fun name hname => by cases hname
    · exact fun name hname => by cases hname
    · exact fun name hname => by cases hname
    · split
      · exact Ty.named_wider
      · split <;> exact fun name hname => by cases hname

theorem UnaryOp.named_resultType (op : UnaryOp) {operand : Ty} (h : operand.Named named) :
    (op.resultType operand).Named named := by
  cases op with
  | deref =>
    cases operand with
    | pointer target | reference target => exact h
    | _ => exact fun name hname => by cases hname
  | neg | plus | bitNot =>
    simp only [resultType]
    split
    · first
      | exact h
      | exact fun name hname => by cases hname
    · exact fun name hname => by cases hname
  | not => exact fun name hname => by cases hname
  | preInc | preDec | postInc | postDec | addressOf => exact h

/-- Every type that the tree names is plain. -/
def Arena.TypesPlain (arena : Arena) : Prop := ∀ id ty, arena.ty id = .ok ty → ty.isPlain = true

/-- A node that is no type, or a plain one. -/
def Node.namesPlain : Node → Bool
  | .type ty => ty.isPlain
  | _ => true

/-- A type of an arena is one of its nodes. -/
theorem Arena.type_mem_nodes {arena : Arena} {id : NodeId} {ty : Ty} (h : arena.ty id = .ok ty) :
    .type ty ∈ arena.nodes := by
  unfold Arena.ty Arena.node Arena.node? at h
  cases hnode : arena.nodes[id.index]? with
  | none => simp [hnode] at h
  | some node =>
    cases node with
    | type found =>
      simp only [hnode, Except.ok.injEq] at h
      exact h ▸ Array.mem_of_getElem? hnode
    | _ => simp [hnode] at h

theorem Arena.typesPlain_of_all {arena : Arena}
    (h : arena.nodes.toList.all Node.namesPlain = true) : arena.TypesPlain := fun _ ty hty =>
  List.all_eq_true.1 h (.type ty) (Array.mem_toList_iff.2 (type_mem_nodes hty))

namespace Infer

variable {arena : Arena} {inv : Scope → Prop} {infer : NodeId → Infer Ty}

theorem yields_follow {α : Type} {found : Except Fault α} {post : α → Prop}
    (h : ∀ a, found = .ok a → post a) : Yields inv (liftM found : Infer α) post := by
  cases found with
  | error fault => exact .throw fault
  | ok a => exact .pure (h a rfl)

/-- A variable can be registered under a type whose names have a property. -/
def Registers (inv : Scope → Prop) (named : String → Prop) (name : String) : Prop :=
  ∀ scope ty, inv scope → ty.Named named → inv (scope.register name ty)

theorem yields_assignmentWith {target value : NodeId}
    (hregisters : ∀ name, arena.expr target = .ok (.ident name) → Registers inv named name)
    (ht : Yields inv (infer target) (Ty.Named named))
    (hv : Yields inv (infer value) (Ty.Named named)) (op : AssignOp) :
    Yields inv (assignmentWith arena infer op target value) (Ty.Named named) := by
  unfold assignmentWith
  refine hv.bind fun valueType hvalue => ?_
  extract_lets register
  have hregister : ∀ ty : Ty, ty.Named named → Yields inv (register ty) (Ty.Named named) := by
    intro ty hty
    refine (yields_follow fun e he => he).bind fun e he => ?_
    cases e with
    | ident name =>
      exact (Yields.modify fun scope hscope => hregisters name he scope ty hscope hty).bind
        fun _ _ => .pure hty
    | _ => exact .pure hty
  cases op.binary? with
  | none => exact hregister valueType hvalue
  | some binary =>
    exact ht.bind fun targetType _ => hregister _ (binary.named_resultType targetType valueType)

/-- One layer of inference invents no names, and it registers the target of an assignment only. -/
theorem yields_exprWith {e : Expr} (hscope : ∀ scope, inv scope → scope.Named named)
    (htypes : ∀ id ty, arena.ty id = .ok ty → ty.Named named)
    (hregisters : ∀ op target value name, e = .assign op target value →
      arena.expr target = .ok (.ident name) → Registers inv named name)
    (hinfer : ∀ c ∈ e.children, Yields inv (infer c.id) (Ty.Named named)) :
    Yields inv (exprWith arena infer e) (Ty.Named named) := by
  have hall (field : String) (ids : List NodeId) (hids : held field ids ⊆ e.children) :
      Yields inv (ids.mapM infer) fun types => ∀ ty ∈ types, ty.Named named :=
    .mapM fun id hid => hinfer ⟨id, field⟩ (hids (List.mem_map_of_mem hid))
  have hnone : ∀ ty : Ty, ty.names = [] → ty.Named named := by
    intro ty hty name hname
    rw [hty] at hname
    cases hname
  cases e with
  | collection kind items =>
    have hitems := hall "items" items (List.Subset.refl _)
    refine hitems.bind fun types htypes => ?_
    cases kind with
    | tuple => exact hitems.bind fun types htypes => .pure (Ty.named_namesAll htypes)
    | list | array | set => exact .pure (Ty.named_unifyAll htypes)
  | dict entries =>
    have hentry : ∀ entry ∈ entries, Yields inv (infer entry.1) (Ty.Named named) ∧
        Yields inv (infer entry.2) (Ty.Named named) := fun entry hentry =>
      ⟨hinfer ⟨entry.1, "key"⟩ (List.mem_flatMap.2 ⟨entry, hentry, by simp⟩),
        hinfer ⟨entry.2, "value"⟩ (List.mem_flatMap.2 ⟨entry, hentry, by simp⟩)⟩
    refine (Yields.mapM fun entry hmem => (hentry entry hmem).1).bind fun keys hkeys => ?_
    refine (Yields.mapM fun entry hmem => (hentry entry hmem).2).bind fun values hvalues => .pure ?_
    exact List.forall_mem_append.2 ⟨Ty.named_unifyAll hkeys, Ty.named_unifyAll hvalues⟩
  | ident name =>
    exact Yields.get.bind fun scope hinv => .pure ((hscope scope hinv).varType name)
  | binary op left right =>
    exact (hinfer ⟨left, "left"⟩ (by simp [Expr.children])).bind fun _ _ =>
      (hinfer ⟨right, "right"⟩ (by simp [Expr.children])).bind fun _ _ =>
        .pure (op.named_resultType _ _)
  | unary op operand =>
    exact (hinfer ⟨operand, "operand"⟩ (by simp [Expr.children])).bind fun _ hty =>
      .pure (op.named_resultType hty)
  | assign op target value =>
    exact yields_assignmentWith (fun name he => hregisters op target value name rfl he)
      (hinfer ⟨target, "target"⟩ (by simp [Expr.children]))
      (hinfer ⟨value, "value"⟩ (by simp [Expr.children])) op
  | ternary cond whenTrue whenFalse =>
    exact (hinfer ⟨cond, "cond"⟩ (by simp [Expr.children])).bind fun _ _ =>
      (hinfer ⟨whenTrue, "then"⟩ (by simp [Expr.children])).bind fun _ htrue =>
        (hinfer ⟨whenFalse, "otherwise"⟩ (by simp [Expr.children])).bind fun _ _ =>
          .pure (Ty.named_unify htrue)
  | compound comparisons =>
    exact (hall "comparisons" comparisons (List.Subset.refl _)).bind fun _ _ => .pure (hnone _ rfl)
  | paren inner => exact hinfer ⟨inner, "inner"⟩ (by simp [Expr.children])
  | call callee args =>
    refine (hall "args" args (List.subset_cons_self _ _)).bind fun _ _ => ?_
    refine (yields_follow fun e he => he).bind fun e _ => ?_
    cases e with
    | ident name =>
      exact Yields.get.bind fun scope hinv => .pure ((hscope scope hinv).returnType name)
    | _ => exact .pure (hnone _ rfl)
  | method receiver name args =>
    exact (hinfer ⟨receiver, "receiver"⟩ (by simp [Expr.children])).bind fun _ _ =>
      (hall "args" args (List.subset_cons_self _ _)).bind fun _ _ => .pure (hnone _ rfl)
  | index target position =>
    exact (hinfer ⟨position, "index"⟩ (by simp [Expr.children])).bind fun _ _ =>
      (hinfer ⟨target, "target"⟩ (by simp [Expr.children])).bind fun _ hty =>
        .pure (Ty.named_element hty)
  | member target name =>
    exact (hinfer ⟨target, "target"⟩ (by simp [Expr.children])).bind fun _ _ => .pure (hnone _ rfl)
  | cast ty value => exact yields_follow (htypes ty)
  | new ty args => exact yields_follow (htypes ty)
  | newArray ty dims init => exact (yields_follow (htypes ty)).bind fun _ hty => .pure hty
  | sequence items =>
    refine (hall "items" items (List.Subset.refl _)).bind fun types htypes => .pure ?_
    cases hlast : types.getLast? with
    | none => exact hnone _ rfl
    | some ty => exact htypes ty (List.mem_of_getLast? hlast)
  | _ => exact .pure (hnone _ rfl)

/-- **Inference finds no names in types but those that the tree and the scope have.** -/
theorem yields_named (htypes : ∀ id ty, arena.ty id = .ok ty → ty.Named named) (depth : Nat)
    (id : NodeId) : Yields (Scope.Named named) (exprTo arena depth id) (Ty.Named named) := by
  induction depth generalizing id with
  | zero => exact .throw _
  | succ depth ih =>
    refine (yields_follow fun e he => he).bind fun e _ => ?_
    exact yields_exprWith (fun scope h => h) htypes
      (fun _ _ _ name _ _ scope ty hscope hty => hscope.register name hty) fun c _ => ih c.id

/-- Where the tree and the scope know plain types only, so does inference. -/
theorem yields_exprTo (htypes : arena.TypesPlain) (depth : Nat) (id : NodeId) :
    Yields Scope.Plain (exprTo arena depth id) (·.isPlain = true) := by
  rw [Scope.plain_eq]
  exact (yields_named (fun id ty hty => (Ty.isPlain_iff ty).1 (htypes id ty hty)) depth id).mono
    fun ty hty => (Ty.isPlain_iff ty).2 hty

end Infer

namespace Surface

/-! ## Texts in brackets and texts with commas -/

section

variable {around : List Bracket → Prop} {text : String} {face : List Char}

theorem Neat.parenthesized (h : Neat AroundCode text.toList face) :
    Neat around (Interlingua.parenthesized text).toList ['(', ')'] := by
  have henclosed : Neat around (Bracket.round.opening :: text.toList ++ [Bracket.round.closing])
      ['(', ')'] := .enclosed (by decide) (by decide) h
  simpa [Interlingua.parenthesized, Bracket.opening, Bracket.closing] using henclosed

theorem Neat.inBraces (h : Neat AroundCode text.toList face) :
    Neat around (Interlingua.inBraces text).toList ['\x7b', '\x7d'] := by
  have henclosed : Neat around (Bracket.curly.opening :: text.toList ++ [Bracket.curly.closing])
      ['\x7b', '\x7d'] := .enclosed (by decide) (by decide) h
  simpa [Interlingua.inBraces, Bracket.opening, Bracket.closing] using henclosed

theorem Neat.inSquares (h : Neat AroundCode text.toList face) :
    Neat around ("[" ++ text ++ "]").toList ['[', ']'] := by
  have henclosed : Neat around (Bracket.square.opening :: text.toList ++ [Bracket.square.closing])
      ['[', ']'] := .enclosed (by decide) (by decide) h
  simpa [Bracket.opening, Bracket.closing] using henclosed

end

theorem Neat.append_blank {around : List Bracket → Prop} {text more face other : List Char}
    (h : Neat around (text ++ [' ']) face) (h' : Neat around more other) :
    Neat around (text ++ [' '] ++ more) (face ++ other) := by
  refine h.append h' fun last hlast => ?_
  rw [List.getLast?_concat] at hlast
  cases hlast
  exact fun _ => by decide

/-- Texts with a comma between any two. -/
theorem Neat.commas {around : List Bracket → Prop} {texts : List String}
    (h : ∀ text ∈ texts, ∃ face, Neat around text.toList face) :
    ∃ face, Neat around (Interlingua.commas texts).toList face := by
  induction texts with
  | nil => exact ⟨[], .nil⟩
  | cons text rest ih =>
    obtain ⟨face, hface⟩ := h text (by simp)
    cases rest with
    | nil => exact ⟨face, by simpa [Interlingua.commas] using hface⟩
    | cons next rest =>
      obtain ⟨other, hother⟩ := ih fun text htext => h text (List.mem_cons_of_mem _ htext)
      have hcomma : Neat around ([','] ++ [' ']) [',', ' '] := .weaken (.plain (by decide))
      have hrest := hface.append_of_head (hcomma.append_blank hother) (by simp)
      refine ⟨face ++ ([',', ' '] ++ other), ?_⟩
      rw [Interlingua.commas, String.intercalate_cons_cons]
      simpa [Interlingua.commas] using hrest

/-! ## How types are written -/

theorem isPlain_of_isNameChar {c : Char} (h : isNameChar c = true) :
    isPlain c = true ∧ c ≠ ' ' ∧ c ≠ ',' := by
  have hall : ∀ mark ∈ ' ' :: ',' :: marks, isNameChar mark = false :=
    forall_mem_of_all (by decide)
  have hmark : c ∉ ' ' :: ',' :: marks := by
    intro hmem
    rw [hall c hmem] at h
    cases h
  simp only [List.mem_cons, not_or] at hmark
  exact ⟨by simpa [isPlain] using hmark.2.2, hmark.1, hmark.2.1⟩

/-- A text that shows as one word. -/
def TypeText (text : String) : Prop :=
  text.toList.head? ≠ some '"' ∧
    ∃ face, Neat Anywhere text.toList face ∧ ' ' ∉ face ∧ ',' ∉ face

theorem path_chars {name : String} (h : Text.isPath name = true) {c : Char} (hc : c ∈ name.toList) :
    isPlain c = true ∧ c ≠ ' ' ∧ c ≠ ',' := by
  simp only [Text.isPath, Bool.and_eq_true, List.all_eq_true, Bool.or_eq_true, beq_iff_eq] at h
  rcases h.1 c hc with (hname | rfl) | rfl
  · exact isPlain_of_isNameChar hname
  · decide
  · decide

theorem path_last {name : String} (h : Text.isPath name = true) :
    ∃ last, name.toList.getLast? = some last ∧ isNameChar last = true := by
  simp only [Text.isPath, Bool.and_eq_true, Option.any_eq_true] at h
  exact h.2

namespace TypeText

variable {text inner : String}

theorem of_plain (hplain : text.toList.all isPlain = true) (hblank : ' ' ∉ text.toList)
    (hcomma : ',' ∉ text.toList) : TypeText text := by
  refine ⟨fun hhead => ?_, _, .plain hplain, hblank, hcomma⟩
  have hquote := List.all_eq_true.1 hplain '"' (List.mem_of_head? hhead)
  exact absurd hquote (by decide)

theorem path (h : Text.isPath text = true) : TypeText text :=
  of_plain (List.all_eq_true.2 fun _ hc => (path_chars h hc).1)
    (fun hmem => (path_chars h hmem).2.1 rfl) fun hmem => (path_chars h hmem).2.2 rfl

/-- A type goes on with marks. -/
theorem append {ending : String} {face : List Char} (h : TypeText text)
    (hneat : Neat Anywhere ending.toList face) (hhead : ending.toList.head? ≠ some '"')
    (hblank : ' ' ∉ face) (hcomma : ',' ∉ face) : TypeText (text ++ ending) := by
  obtain ⟨hfirst, other, hother, hb, hc⟩ := h
  refine ⟨?_, other ++ face, ?_, by simp [hb, hblank], by simp [hc, hcomma]⟩
  · rw [String.toList_append, List.head?_append]
    cases hhead' : text.toList.head? with
    | none => simpa using hhead
    | some c =>
      rw [hhead'] at hfirst
      simpa using hfirst
  · rw [String.toList_append]
    exact hother.append_of_head hneat hhead

/-- The type of an array. -/
theorem array (h : TypeText text) : TypeText (text ++ "[]") := by
  have hending : Neat Anywhere ("[" ++ "" ++ "]").toList ['[', ']'] := .inSquares .nil
  exact h.append hending (by decide) (by decide) (by decide)

/-- What stands between the brackets of a type. -/
def Inside (inner : String) : Prop :=
  inner.toList.head? ≠ some '"' ∧ ∃ face, Neat Anywhere inner.toList face

theorem inside (h : TypeText text) : Inside text := by
  obtain ⟨hhead, face, hface, -⟩ := h
  exact ⟨hhead, face, hface⟩

theorem inside_commas {texts : List String} (h : ∀ text ∈ texts, TypeText text) :
    Inside (commas texts) := by
  refine ⟨?_, Neat.commas fun text htext => (h text htext).inside.2⟩
  cases texts with
  | nil => simp [commas]
  | cons text rest =>
    obtain ⟨hhead, -⟩ := h text (by simp)
    cases rest with
    | nil => simpa [commas] using hhead
    | cons next rest =>
      rw [commas, String.intercalate_cons_cons, String.toList_append, String.toList_append,
        List.append_assoc, List.head?_append]
      cases hfirst : text.toList.head? with
      | none => simp
      | some c =>
        rw [hfirst] at hhead
        simpa using hhead

/-- Types between angle brackets. -/
theorem angle (name : String) (hname : Text.isPath name = true) (hinner : Inside inner) :
    TypeText (name ++ "<" ++ inner ++ ">") := by
  obtain ⟨hfirst, other, hother, hb, hc⟩ := path hname
  obtain ⟨hhead, face, hface⟩ := hinner
  refine ⟨?_, other ++ ['<', '>'], ?_, by simp [hb], by simp [hc]⟩
  · obtain ⟨last, hlast, -⟩ := path_last hname
    obtain ⟨first, rest, hchars⟩ : ∃ first rest, name.toList = first :: rest :=
      List.exists_cons_of_ne_nil fun hnil => by simp [hnil] at hlast
    rw [hchars] at hfirst
    simpa [hchars] using hfirst
  · simpa using hother.angle (path_last hname) hface hhead

/-- Types between square brackets. -/
theorem square (name : String) (hname : Text.isPath name = true) (hinner : Inside inner) :
    TypeText (name ++ "[" ++ inner ++ "]") := by
  obtain ⟨-, face, hface⟩ := hinner
  have hending : Neat Anywhere ("[" ++ inner ++ "]").toList ['[', ']'] := .inSquares hface.weaken
  have h := (path hname).append hending (by simp) (by decide) (by decide)
  simpa [String.append_assoc] using h

end TypeText

end Surface

/-! ## Results -/

open Surface

/-- A result, if there is one, has a property. -/
def Grants {ε α : Type} (result : Except ε α) (post : α → Prop) : Prop :=
  ∀ a, result = .ok a → post a

theorem Grants.ok {ε α : Type} {a : α} {post : α → Prop} (h : post a) :
    Grants (.ok a : Except ε α) post := by
  intro b hb
  cases hb
  exact h

theorem Grants.bind {ε α β : Type} {result : Except ε α} {next : α → Except ε β} {post : α → Prop}
    {goal : β → Prop} (h : Grants result post) (hnext : ∀ a, post a → Grants (next a) goal) :
    Grants (result >>= next) goal := by
  cases result with
  | error e =>
    intro b hb
    cases hb
  | ok a => exact hnext a (h a rfl)

section

variable {α : Type} {inv : Scope → Prop} {post : α → Prop}

/-- A reference that is followed gives what it refers to. -/
theorem Render.yields_follow {found : Except Fault α} (h : Grants found post) :
    Yields inv (liftM found : Render α) post := by
  cases found with
  | error fault => exact .throw _
  | ok a => exact .pure (h a rfl)

theorem Render.yields_allowed {found : Except EmitError α} (h : Grants found post) :
    Yields inv (liftM found : Render α) post := by
  cases found with
  | error error => exact .throw _
  | ok a => exact .pure (h a rfl)

end

/-! ## The grammar of type names -/

/-- What each language calls its own types. -/
def Language.typeWords : Language → List String
  | .java =>
    ["int", "double", "boolean", "char", "String", "void", "Object", "List", "Set", "Map",
      "Integer", "Double", "Boolean", "Character"]
  | .python =>
    ["int", "float", "bool", "str", "None", "object", "list", "set", "dict", "tuple"]
  | .cpp =>
    ["int", "double", "bool", "char", "std::string", "void", "auto", "std::vector", "std::set",
      "std::map", "std::tuple"]

/-- What the names of arrays, pointers and references end in. -/
def Language.typeMarks : Language → List String
  | .java => ["[]"]
  | .python => []
  | .cpp => ["*", "&"]

/-- A type with what it takes between brackets. -/
def Language.typeWith (lang : Language) (head inner : String) : String :=
  match lang with
  | .java | .cpp => head ++ "<" ++ inner ++ ">"
  | .python => head ++ "[" ++ inner ++ "]"

/-- What the name of a type is made of: words of the language or names that are known, marks after
them, and lists of further names between brackets. -/
inductive TypeSpelling (lang : Language) (known : String → Prop) : String → Prop
  | head {head : String} (h : head ∈ lang.typeWords ∨ known head) : TypeSpelling lang known head
  | marked {text mark : String} (h : TypeSpelling lang known text)
      (hmark : mark ∈ lang.typeMarks) : TypeSpelling lang known (text ++ mark)
  | taking (head : String) {texts : List String} (h : head ∈ lang.typeWords ∨ known head)
      (htexts : ∀ text ∈ texts, TypeSpelling lang known text) :
      TypeSpelling lang known (lang.typeWith head (commas texts))

namespace TypeSpelling

variable {lang : Language} {known : String → Prop} (head : String) {text more : String}

theorem taking_one (h : head ∈ lang.typeWords ∨ known head) (htext : TypeSpelling lang known text) :
    TypeSpelling lang known (lang.typeWith head text) := by
  have hone : commas [text] = text := by simp [commas]
  exact hone ▸ taking head h (List.forall_mem_singleton.2 htext)

theorem taking_two (h : head ∈ lang.typeWords ∨ known head) (htext : TypeSpelling lang known text)
    (hmore : TypeSpelling lang known more) :
    TypeSpelling lang known (lang.typeWith head (text ++ ", " ++ more)) := by
  have htwo : commas [text, more] = text ++ ", " ++ more := by
    simp [commas, String.intercalate_cons_cons]
  exact htwo ▸ taking head h (List.forall_mem_cons.2 ⟨htext, List.forall_mem_singleton.2 hmore⟩)

end TypeSpelling

section

variable {known : String → Prop}

mutual
theorem Cpp.spelled_typeName : ∀ ty : Ty, ty.Named known → TypeSpelling .cpp known (typeName ty)
  | .int, _ | .float, _ | .bool, _ | .char, _ | .str, _ | .void, _ | .unknown, _ =>
    .head (.inl (by decide))
  | .user user, h => .head (.inr (h user (by simp [Ty.names])))
  | .pointer target, h | .reference target, h => .marked (spelled_typeName target h) (by decide)
  | .array item, h | .list item, h =>
    .taking_one "std::vector" (.inl (by decide)) (spelled_typeName item h)
  | .set item, h => .taking_one "std::set" (.inl (by decide)) (spelled_typeName item h)
  | .dict key value, h => by
    have hkey := spelled_typeName key fun n hn => h n (List.mem_append_left _ hn)
    have hvalue := spelled_typeName value fun n hn => h n (List.mem_append_right _ hn)
    have hname : typeName (.dict key value) =
        "std::map<" ++ typeName key ++ ", " ++ typeName value ++ ">" := rfl
    have hall := TypeSpelling.taking_two "std::map" (.inl (by decide)) hkey hvalue
    simpa only [hname, Language.typeWith, String.reduceAppend, String.append_assoc] using hall
  | .tuple items, h =>
    .taking "std::tuple" (.inl (by decide)) (spelled_typeNames items h)
  | .generic generic args, h => .taking generic (.inr (h generic (by simp [Ty.names])))
    (spelled_typeNames args fun n hn => h n (List.mem_cons_of_mem _ hn))

theorem Cpp.spelled_typeNames : ∀ types : List Ty, (∀ n ∈ Ty.namesAll types, known n) →
    ∀ text ∈ typeNames types, TypeSpelling .cpp known text
  | [], _, _, hmem => by cases hmem
  | ty :: rest, h, text, hmem => by
    rcases List.mem_cons.1 hmem with rfl | hmem
    · exact spelled_typeName ty fun n hn => h n (List.mem_append_left _ hn)
    · exact spelled_typeNames rest (fun n hn => h n (List.mem_append_right _ hn)) text hmem
end

theorem Java.spelled_boxed {text : String} (h : TypeSpelling .java known text) :
    TypeSpelling .java known (boxed text) := by
  unfold boxed
  split
  · exact .head (.inl (by decide))
  · exact .head (.inl (by decide))
  · exact .head (.inl (by decide))
  · exact .head (.inl (by decide))
  · exact h

mutual
theorem Java.spelled_typeName :
    ∀ ty : Ty, ty.Named known → Grants (typeName ty) (TypeSpelling .java known)
  | .int, _ | .float, _ | .bool, _ | .char, _ | .str, _ | .void, _ | .unknown, _ =>
    .ok (.head (.inl (by decide)))
  | .user user, h => .ok (.head (.inr (h user (by simp [Ty.names]))))
  | .pointer _, _ => fun _ htext => by cases htext
  | .reference target, h => spelled_typeName target h
  | .array item, h => (spelled_typeName item h).bind fun _ hitem => .ok (hitem.marked (by decide))
  | .list item, h => (spelled_typeName item h).bind fun _ hitem =>
    .ok (.taking_one "List" (.inl (by decide)) (spelled_boxed hitem))
  | .set item, h => (spelled_typeName item h).bind fun _ hitem =>
    .ok (.taking_one "Set" (.inl (by decide)) (spelled_boxed hitem))
  | .dict key value, h => by
    refine (spelled_typeName key fun n hn => h n (List.mem_append_left _ hn)).bind fun _ hkey => ?_
    refine (spelled_typeName value fun n hn => h n (List.mem_append_right _ hn)).bind
      fun _ hvalue => .ok ?_
    have hall := TypeSpelling.taking_two "Map" (.inl (by decide)) (spelled_boxed hkey)
      (spelled_boxed hvalue)
    simpa [Language.typeWith, String.append_assoc] using hall
  | .tuple _, _ => by
    have hobject : TypeSpelling .java known ("Object" ++ "[]") :=
      .marked (.head (.inl (by decide))) (by decide)
    exact .ok hobject
  | .generic generic args, h =>
    (spelled_boxedNames args fun n hn => h n (List.mem_cons_of_mem _ hn)).bind fun _ hargs =>
      .ok (.taking generic (.inr (h generic (by simp [Ty.names]))) hargs)

theorem Java.spelled_boxedNames : ∀ types : List Ty, (∀ n ∈ Ty.namesAll types, known n) →
    Grants (boxedNames types) fun texts => ∀ text ∈ texts, TypeSpelling .java known text
  | [], _ => .ok fun _ hmem => by cases hmem
  | ty :: rest, h => by
    refine (spelled_typeName ty fun n hn => h n (List.mem_append_left _ hn)).bind fun _ htext => ?_
    refine (spelled_boxedNames rest fun n hn => h n (List.mem_append_right _ hn)).bind
      fun _ htexts => .ok ?_
    exact List.forall_mem_cons.2 ⟨spelled_boxed htext, htexts⟩
end

mutual
theorem Python.spelled_typeName :
    ∀ ty : Ty, ty.Named known → Grants (typeName ty) (TypeSpelling .python known)
  | .int, _ | .float, _ | .bool, _ | .char, _ | .str, _ | .void, _ | .unknown, _ =>
    .ok (.head (.inl (by decide)))
  | .user user, h => .ok (.head (.inr (h user (by simp [Ty.names]))))
  | .pointer _, _ => fun _ htext => by cases htext
  | .reference target, h => spelled_typeName target h
  | .array item, h | .list item, h => (spelled_typeName item h).bind fun _ hitem =>
    .ok (.taking_one "list" (.inl (by decide)) hitem)
  | .set item, h => (spelled_typeName item h).bind fun _ hitem =>
    .ok (.taking_one "set" (.inl (by decide)) hitem)
  | .dict key value, h => by
    refine (spelled_typeName key fun n hn => h n (List.mem_append_left _ hn)).bind fun _ hkey => ?_
    refine (spelled_typeName value fun n hn => h n (List.mem_append_right _ hn)).bind
      fun _ hvalue => .ok ?_
    have hall := TypeSpelling.taking_two "dict" (.inl (by decide)) hkey hvalue
    simpa [Language.typeWith, String.append_assoc] using hall
  | .tuple items, h => (spelled_typeNames items h).bind fun _ hitems =>
    .ok (.taking "tuple" (.inl (by decide)) hitems)
  | .generic generic args, h =>
    (spelled_typeNames args fun n hn => h n (List.mem_cons_of_mem _ hn)).bind fun _ hargs =>
      .ok (.taking generic (.inr (h generic (by simp [Ty.names]))) hargs)

theorem Python.spelled_typeNames : ∀ types : List Ty, (∀ n ∈ Ty.namesAll types, known n) →
    Grants (typeNames types) fun texts => ∀ text ∈ texts, TypeSpelling .python known text
  | [], _ => .ok fun _ hmem => by cases hmem
  | ty :: rest, h => by
    refine (spelled_typeName ty fun n hn => h n (List.mem_append_left _ hn)).bind fun _ htext => ?_
    refine (spelled_typeNames rest fun n hn => h n (List.mem_append_right _ hn)).bind
      fun _ htexts => .ok ?_
    exact List.forall_mem_cons.2 ⟨htext, htexts⟩
end

/-- **The name of a type is made of the language's words for types and the names in the type.** -/
theorem View.spelled_typeName {view : View} {ty : Ty} (h : ty.Named known) :
    Grants (view.typeName ty) (TypeSpelling view.lang known) := by
  unfold View.typeName
  cases view.lang with
  | java => exact Java.spelled_typeName ty h
  | python => exact Python.spelled_typeName ty h
  | cpp => exact .ok (Cpp.spelled_typeName ty h)

end

/-! ## The names of plain types -/

/-- A type that is spelled of paths shows as one word. -/
theorem TypeSpelling.typeText {lang : Language} {text : String}
    (h : TypeSpelling lang (Text.isPath · = true) text) : TypeText text := by
  have hpath : ∀ head, head ∈ lang.typeWords ∨ Text.isPath head = true →
      Text.isPath head = true := by
    rintro head (hword | hname)
    · have hwords : ∀ lang : Language, ∀ word ∈ lang.typeWords, Text.isPath word = true := by
        intro lang
        cases lang <;> decide
      exact hwords lang head hword
    · exact hname
  induction h with
  | head h => exact .path (hpath _ h)
  | @marked text mark _ hmark ih =>
    cases lang with
    | java =>
      obtain rfl := List.mem_singleton.1 hmark
      exact ih.array
    | python => cases hmark
    | cpp =>
      obtain rfl | rfl : mark = "*" ∨ mark = "&" := by simpa [Language.typeMarks] using hmark
      · exact ih.append (.plain (by decide)) (by decide) (by decide) (by decide)
      · exact ih.append (.plain (by decide)) (by decide) (by decide) (by decide)
  | taking head h _ ih =>
    cases lang with
    | java | cpp => exact .angle _ (hpath _ h) (TypeText.inside_commas ih)
    | python => exact .square _ (hpath _ h) (TypeText.inside_commas ih)

section

variable (ty : Ty) (h : ty.isPlain = true)
include h

theorem Cpp.typeName_text : TypeText (typeName ty) :=
  (spelled_typeName ty ((Ty.isPlain_iff ty).1 h)).typeText

theorem Java.typeName_text : Grants (typeName ty) TypeText := fun text htext =>
  (spelled_typeName ty ((Ty.isPlain_iff ty).1 h) text htext).typeText

theorem Python.typeName_text : Grants (typeName ty) TypeText := fun text htext =>
  (spelled_typeName ty ((Ty.isPlain_iff ty).1 h) text htext).typeText

end

end Interlingua
