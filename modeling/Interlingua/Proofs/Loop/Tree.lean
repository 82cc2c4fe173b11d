import Interlingua.Emit.Stmt.Python
import Interlingua.Proofs.Emit.Agreement
import Interlingua.Proofs.Loop.Lowering

/-!
# Commands in a tree

* `Call.At`, `Command.At` — an identity of a tree names a call, a command.
* `Call.at_of_callText?` — calls by a name, on names and literals, are rendered as they are written.
* `Command.At.grounded` — a command is finite, so the identity that names it is grounded.
-/

namespace Interlingua

/-- Whether an expression calls a function or a method. -/
def Expr.isCall : Expr → Bool
  | .call .. | .method .. => true
  | _ => false

/-- How a name or a literal is written. -/
def Expr.plainText? : Expr → Option String
  | .ident name => some name
  | .int value => some (Text.numeral value)
  | .bool true => some "True"
  | .bool false => some "False"
  | .null => some "None"
  | .str value .plain => some (Text.quote value)
  | _ => none

namespace Arena

/-- How the name or literal is written that an identity names. -/
def plainText? (arena : Arena) (id : NodeId) : Option String :=
  match arena.expr id with
  | .ok e => e.plainText?
  | .error _ => none

/-- How the call is written that an identity names: a function is called by its name, on names and
literals. -/
def callText? (arena : Arena) (id : NodeId) : Option String :=
  match arena.expr id with
  | .ok (.call callee args) =>
    match arena.expr callee with
    | .ok (.ident name) =>
      (args.mapM arena.plainText?).map fun texts => name ++ parenthesized (commas texts)
    | _ => none
  | _ => none

variable {arena : Arena} {id : NodeId} {text : String}

theorem exists_of_plainText? (h : arena.plainText? id = some text) :
    ∃ e, arena.expr id = .ok e ∧ e.plainText? = some text := by
  unfold plainText? at h
  split at h
  · rename_i e he
    exact ⟨e, he, h⟩
  · cases h

theorem exists_of_callText? (h : arena.callText? id = some text) :
    ∃ callee args name texts, arena.expr id = .ok (.call callee args) ∧
      arena.expr callee = .ok (.ident name) ∧ args.mapM arena.plainText? = some texts ∧
      text = name ++ parenthesized (commas texts) := by
  unfold callText? at h
  split at h
  · rename_i callee args he
    split at h
    · rename_i name hname
      obtain ⟨texts, htexts, rfl⟩ := Option.map_eq_some_iff.1 h
      exact ⟨callee, args, name, texts, he, hname, htexts, rfl⟩
    · cases h
  · cases h

theorem exists_plainText?_of_mem {args : List NodeId} {texts : List String} {arg : NodeId}
    (h : args.mapM arena.plainText? = some texts) (hmem : arg ∈ args) :
    ∃ text, arena.plainText? arg = some text := by
  induction args generalizing texts with
  | nil => cases hmem
  | cons first rest ih =>
    simp only [List.mapM_cons, Option.bind_eq_bind, Option.bind_eq_some_iff] at h
    obtain ⟨text, hfirst, others, hrest, -⟩ := h
    rcases List.mem_cons.1 hmem with rfl | hmem
    · exact ⟨text, hfirst⟩
    · exact ih hrest hmem

/-- Nothing is below a name or a literal. -/
theorem grounded_of_plainText? (h : arena.plainText? id = some text) : arena.Grounded id := by
  obtain ⟨e, he, htext⟩ := exists_of_plainText? h
  have hchildren : e.children = [] := by
    cases e <;> first | rfl | cases htext
  refine .intro (node_of_expr he) fun child hc => ?_
  rw [Node.children, hchildren] at hc
  cases hc

theorem grounded_of_callText? (h : arena.callText? id = some text) : arena.Grounded id := by
  obtain ⟨callee, args, name, texts, he, hname, htexts, -⟩ := exists_of_callText? h
  have hcallee : arena.plainText? callee = some name := by simp [plainText?, hname, Expr.plainText?]
  refine .intro (node_of_expr he) fun child hc => ?_
  simp only [Node.children, Expr.children, held, List.mem_cons, List.mem_map] at hc
  rcases hc with rfl | ⟨arg, harg, rfl⟩
  · exact grounded_of_plainText? hcallee
  · obtain ⟨text, htext⟩ := exists_plainText?_of_mem htexts harg
    exact grounded_of_plainText? htext

end Arena

/-! ## Calls are rendered as they are written -/

namespace View

variable {view : View} {id : NodeId} {text : String}

theorem exprTo_plainText (hlang : view.lang = .python) (h : view.arena.plainText? id = some text)
    (depth : Nat) (scope : Scope) : view.exprTo (depth + 1) id scope = .ok text scope := by
  obtain ⟨e, he, htext⟩ := Arena.exists_of_plainText? h
  rw [exprTo_succ he, hlang]
  cases e with
  | bool value =>
    cases value <;> cases htext <;> rw [Dialect.expr, Site.word, Site.lang, hlang] <;> rfl
  | null =>
    cases htext
    simp only [Dialect.expr, Site.word, Site.lang, hlang]
    rfl
  | str value kind =>
    cases kind with
    | plain =>
      cases htext
      rfl
    | _ => cases htext
  | int _ | ident _ =>
    cases htext
    rfl
  | _ => cases htext

theorem mapM_plainText (hlang : view.lang = .python) {args : List NodeId} {texts : List String}
    (h : args.mapM view.arena.plainText? = some texts) (depth : Nat) (scope : Scope) :
    args.mapM (view.exprTo (depth + 1)) scope = .ok texts scope := by
  induction args generalizing texts with
  | nil =>
    cases h
    rfl
  | cons first rest ih =>
    simp only [List.mapM_cons, Option.bind_eq_bind, Option.bind_eq_some_iff, Option.pure_def,
      Option.some.injEq] at h
    obtain ⟨text, hfirst, others, hrest, rfl⟩ := h
    rw [List.mapM_cons, bind_of_ok (exprTo_plainText hlang hfirst depth scope),
      bind_of_ok (ih hrest)]
    rfl

/-- A call is rendered as it is written, and registers nothing. -/
theorem expr_callText (hlang : view.lang = .python) (h : view.arena.callText? id = some text)
    (scope : Scope) : view.expr id scope = .ok text scope := by
  obtain ⟨callee, args, name, texts, he, hname, htexts, rfl⟩ := Arena.exists_of_callText? h
  have hcallee : view.arena.plainText? callee = some name := by
    simp [Arena.plainText?, hname, Expr.plainText?]
  obtain ⟨less, hdepth⟩ : ∃ less, view.arena.depthBound = less + 2 := by
    have hlt := Arena.index_lt_of_node (Arena.node_of_expr he)
    exact ⟨view.arena.size - 1, by unfold Arena.depthBound; omega⟩
  have htarget := Site.accessed_name hname (exprTo_plainText hlang hcallee less scope)
  have hargs : Site.args ⟨view, view.exprTo (less + 1)⟩ args scope = .ok (commas texts) scope :=
    bind_of_ok (mapM_plainText hlang htexts less scope)
  rw [expr, hdepth, exprTo_succ he]
  exact (bind_of_ok htarget).trans (bind_of_ok hargs)

end View

/-! ## Commands in a tree -/

namespace Call

/-- An identity names a call: what is called and what it is called on is opaque, and rendering it
gives its text and registers nothing. -/
structure At (view : View) (call : Call) (id : NodeId) : Prop where
  isCall : ∃ e, view.arena.expr id = .ok e ∧ e.isCall = true
  grounded : view.arena.Grounded id
  expr_ok : ∀ scope, view.expr id scope = .ok call.text scope

theorem At.exists_expr {view : View} {call : Call} {id : NodeId} (h : call.At view id) :
    (∃ callee args, view.arena.expr id = .ok (.call callee args)) ∨
      ∃ receiver name args, view.arena.expr id = .ok (.method receiver name args) := by
  obtain ⟨e, he, hcall⟩ := h.isCall
  cases e with
  | call callee args => exact .inl ⟨callee, args, he⟩
  | method receiver name args => exact .inr ⟨receiver, name, args, he⟩
  | _ => cases hcall

/-- Calls of functions by their names, on names and literals, are calls. -/
theorem at_of_callText? {view : View} {call : Call} {id : NodeId} (hlang : view.lang = .python)
    (h : view.arena.callText? id = some call.text) : call.At view id := by
  obtain ⟨callee, args, name, texts, he, -⟩ := Arena.exists_of_callText? h
  exact ⟨⟨_, he, rfl⟩, Arena.grounded_of_callText? h, View.expr_callText hlang h⟩

/-- An identity names a call or the statement that it makes. -/
def StatedAt (view : View) (call : Call) (id : NodeId) : Prop :=
  call.At view id ∨ ∃ value, view.arena.stmt id = .ok (.expr value) ∧ call.At view value

end Call

mutual
/-- An identity names a command.  Bodies are blocks. -/
def Command.At (view : View) : Command → NodeId → Prop
  | .call made, id => made.StatedAt view id
  | .choose cond body rest, id =>
    ∃ first others otherwise items, view.arena.stmt id = .ok (.conditional (first :: others) otherwise) ∧
      cond.At view first.cond ∧ view.arena.stmt first.body = .ok (.block items) ∧
      Command.AllAt view body items ∧ rest.At view others otherwise
  | .whileLoop cond body, id =>
    ∃ c b items, view.arena.stmt id = .ok (.whileLoop c b) ∧ cond.At view c ∧
      view.arena.stmt b = .ok (.block items) ∧ Command.AllAt view body items
  | .doWhile body cond, id =>
    ∃ c b items, view.arena.stmt id = .ok (.doWhile b c) ∧ cond.At view c ∧
      view.arena.stmt b = .ok (.block items) ∧ Command.AllAt view body items
  | .infinite body, id =>
    ∃ b items, view.arena.stmt id = .ok (.infinite b) ∧ view.arena.stmt b = .ok (.block items) ∧
      Command.AllAt view body items
  | .forLoop init cond update body, id =>
    ∃ i c u b items, view.arena.stmt id = .ok (.forLoop i c u b) ∧
      Option.Rel (Call.StatedAt view) init i ∧ Option.Rel (Call.At view) cond c ∧
      Option.Rel (Call.At view) update u ∧ view.arena.stmt b = .ok (.block items) ∧
      Command.AllAt view body items
  | .leave, id => view.arena.stmt id = .ok (.breakTo none)
  | .next, id => view.arena.stmt id = .ok (.continueTo none)
  | .ret value, id => ∃ v, view.arena.stmt id = .ok (.ret v) ∧ Option.Rel (Call.At view) value v

/-- Branches after the first one, and the last resort. -/
def Alternative.At (view : View) : Alternative → List Branch → Option NodeId → Prop
  | .nothing, others, otherwise => others = [] ∧ otherwise = none
  | .otherwise body, others, otherwise =>
    ∃ b items, others = [] ∧ otherwise = some b ∧ view.arena.stmt b = .ok (.block items) ∧
      Command.AllAt view body items
  | .choose cond body rest, others, otherwise =>
    ∃ first more items, others = first :: more ∧ cond.At view first.cond ∧
      view.arena.stmt first.body = .ok (.block items) ∧ Command.AllAt view body items ∧
      rest.At view more otherwise

/-- Identities name commands, each in its turn. -/
def Command.AllAt (view : View) : List Command → List NodeId → Prop
  | [], ids => ids = []
  | command :: commands, ids =>
    ∃ id more, ids = id :: more ∧ command.At view id ∧ Command.AllAt view commands more
end

theorem Command.AllAt.nil {view : View} : Command.AllAt view [] [] := by
  simp only [Command.AllAt]

theorem Command.AllAt.cons {view : View} {command : Command} {commands : List Command}
    {id : NodeId} {ids : List NodeId} (h : command.At view id)
    (hrest : Command.AllAt view commands ids) :
    Command.AllAt view (command :: commands) (id :: ids) := by
  simp only [Command.AllAt]
  exact ⟨id, ids, rfl, h, hrest⟩

theorem Command.AllAt.exists_of_singleton {view : View} {commands : List Command} {id : NodeId}
    (h : Command.AllAt view commands [id]) :
    ∃ command, commands = [command] ∧ command.At view id := by
  match commands with
  | [] =>
    simp only [Command.AllAt] at h
    cases h
  | [command] =>
    simp only [Command.AllAt] at h
    obtain ⟨_, _, heq, hat, -⟩ := h
    cases heq
    exact ⟨command, rfl, hat⟩
  | _ :: _ :: _ =>
    simp only [Command.AllAt] at h
    obtain ⟨_, _, heq, -, _, _, rfl, -⟩ := h
    cases heq

/-! ## Commands are finite -/

namespace Call

variable {view : View} {call : Call} {id : NodeId}

theorem StatedAt.grounded (h : call.StatedAt view id) : view.arena.Grounded id := by
  rcases h with h | ⟨value, hs, h⟩
  · exact h.grounded
  · refine .intro (Arena.node_of_stmt hs) fun child hc => ?_
    simp only [Node.children, Stmt.children, List.mem_singleton] at hc
    subst hc
    exact h.grounded

/-- What may be missing is grounded if it is there. -/
theorem grounded_of_rel {names : Call → NodeId → Prop} {call : Option Call} {id : Option NodeId}
    (hnames : ∀ call id, names call id → view.arena.Grounded id) (h : Option.Rel names call id) :
    ∀ i ∈ id, view.arena.Grounded i := by
  intro i hi
  cases h with
  | none => cases hi
  | some h =>
    cases hi
    exact hnames _ _ h

end Call

theorem Arena.grounded_block {arena : Arena} {id : NodeId} {items : List NodeId}
    (h : arena.stmt id = .ok (.block items)) (hitems : ∀ item ∈ items, arena.Grounded item) :
    arena.Grounded id := by
  refine .intro (node_of_stmt h) fun child hc => ?_
  simp only [Node.children, Stmt.children, held, List.mem_map] at hc
  obtain ⟨item, hitem, rfl⟩ := hc
  exact hitems item hitem

mutual
theorem Command.At.grounded {view : View} : ∀ {command : Command} {id : NodeId},
    command.At view id → view.arena.Grounded id
  | .call _, _, h => by
    simp only [Command.At] at h
    exact h.grounded
  | .choose _ _ _, _, h => by
    simp only [Command.At] at h
    obtain ⟨first, others, otherwise, items, hs, hcond, hb, hbody, hrest⟩ := h
    refine .intro (Arena.node_of_stmt hs) fun child hc => ?_
    simp only [Node.children, Stmt.children, List.flatMap_cons, List.cons_append, List.nil_append,
      List.mem_cons] at hc
    rcases hc with rfl | rfl | hc
    · exact hcond.grounded
    · exact Arena.grounded_block hb hbody.grounded
    · exact hrest.grounded child hc
  | .whileLoop _ _, _, h => by
    simp only [Command.At] at h
    obtain ⟨c, b, items, hs, hcond, hb, hbody⟩ := h
    refine .intro (Arena.node_of_stmt hs) fun child hc => ?_
    simp only [Node.children, Stmt.children, List.mem_cons, List.not_mem_nil, or_false] at hc
    rcases hc with rfl | rfl
    · exact hcond.grounded
    · exact Arena.grounded_block hb hbody.grounded
  | .doWhile _ _, _, h => by
    simp only [Command.At] at h
    obtain ⟨c, b, items, hs, hcond, hb, hbody⟩ := h
    refine .intro (Arena.node_of_stmt hs) fun child hc => ?_
    simp only [Node.children, Stmt.children, List.mem_cons, List.not_mem_nil, or_false] at hc
    rcases hc with rfl | rfl
    · exact Arena.grounded_block hb hbody.grounded
    · exact hcond.grounded
  | .infinite _, _, h => by
    simp only [Command.At] at h
    obtain ⟨b, items, hs, hb, hbody⟩ := h
    refine .intro (Arena.node_of_stmt hs) fun child hc => ?_
    simp only [Node.children, Stmt.children, List.mem_cons, List.not_mem_nil, or_false] at hc
    subst hc
    exact Arena.grounded_block hb hbody.grounded
  | .forLoop _ _ _ _, _, h => by
    simp only [Command.At] at h
    obtain ⟨i, c, u, b, items, hs, hinit, hcond, hupdate, hb, hbody⟩ := h
    refine .intro (Arena.node_of_stmt hs) fun child hc => ?_
    simp only [Node.children, Stmt.children, heldIf, held, List.mem_append, List.mem_map,
      List.mem_singleton, Option.mem_toList] at hc
    rcases hc with ((⟨j, hj, rfl⟩ | ⟨j, hj, rfl⟩) | ⟨j, hj, rfl⟩) | rfl
    · exact Call.grounded_of_rel (fun _ _ h => h.grounded) hinit j hj
    · exact Call.grounded_of_rel (fun _ _ h => h.grounded) hcond j hj
    · exact Call.grounded_of_rel (fun _ _ h => h.grounded) hupdate j hj
    · exact Arena.grounded_block hb hbody.grounded
  | .leave, _, h | .next, _, h => by
    simp only [Command.At] at h
    exact .intro (Arena.node_of_stmt h) fun child hc => by cases hc
  | .ret _, _, h => by
    simp only [Command.At] at h
    obtain ⟨v, hs, hvalue⟩ := h
    refine .intro (Arena.node_of_stmt hs) fun child hc => ?_
    simp only [Node.children, Stmt.children, heldIf, held, List.mem_map, Option.mem_toList] at hc
    obtain ⟨j, hj, rfl⟩ := hc
    exact Call.grounded_of_rel (fun _ _ h => h.grounded) hvalue j hj

theorem Alternative.At.grounded {view : View} : ∀ {rest : Alternative} {others : List Branch}
    {otherwise : Option NodeId}, rest.At view others otherwise →
    ∀ child ∈ (others.flatMap fun branch =>
      [(⟨branch.cond, "cond"⟩ : Child), ⟨branch.body, "then"⟩]) ++ heldIf "otherwise" otherwise,
    view.arena.Grounded child.id
  | .nothing, _, _, h, child, hc => by
    simp only [Alternative.At] at h
    obtain ⟨rfl, rfl⟩ := h
    cases hc
  | .otherwise _, _, _, h, child, hc => by
    simp only [Alternative.At] at h
    obtain ⟨b, items, rfl, rfl, hb, hbody⟩ := h
    simp only [List.flatMap_nil, List.nil_append, heldIf, held, Option.toList_some, List.map_cons,
      List.map_nil, List.mem_singleton] at hc
    subst hc
    exact Arena.grounded_block hb hbody.grounded
  | .choose _ _ _, _, _, h, child, hc => by
    simp only [Alternative.At] at h
    obtain ⟨first, more, items, rfl, hcond, hb, hbody, hrest⟩ := h
    simp only [List.flatMap_cons, List.cons_append, List.nil_append, List.mem_cons] at hc
    rcases hc with rfl | rfl | hc
    · exact hcond.grounded
    · exact Arena.grounded_block hb hbody.grounded
    · exact hrest.grounded child hc

theorem Command.AllAt.grounded {view : View} : ∀ {commands : List Command} {ids : List NodeId},
    Command.AllAt view commands ids → ∀ id ∈ ids, view.arena.Grounded id
  | [], _, h, id, hid => by
    simp only [Command.AllAt] at h
    subst h
    cases hid
  | command :: commands, _, h, id, hid => by
    simp only [Command.AllAt] at h
    obtain ⟨first, more, rfl, hfirst, hmore⟩ := h
    rcases List.mem_cons.1 hid with rfl | hid
    · exact hfirst.grounded
    · exact hmore.grounded id hid
end

end Interlingua
