import Interlingua.Proofs.Effect.Braced
import Interlingua.Proofs.Effect.Python

/-!
# Effects are written once

* `View.unfolding` — an expression with what it writes below it.
* `View.Writes` — the text of an expression, taken apart into texts of the expressions below.
* `View.Accounts` — what a text has of an unfolding; `View.accounts_of_spells` is one layer of it.
* `View.effects_once` — **each effect of an unfolding is written once, so a function that is only
  called stands before as many opening parentheses as there are calls.**
* `View.effects_chain_twice` — comparisons that chain write an operand once that the tree has twice.
-/

namespace Interlingua

/-! ## Effects -/

/-- Expressions that do something when they are evaluated. -/
def Expr.isEffect : Expr → Bool
  | .call .. | .method .. | .new .. | .assign .. => true
  | .unary op _ => op.isStep
  | _ => false

namespace Arena

def isEffect (arena : Arena) (id : NodeId) : Bool :=
  match arena.expr id with
  | .ok e => e.isEffect
  | .error _ => false

/-- A call of what a name stands for. -/
def isCallOf (arena : Arena) (name : String) (id : NodeId) : Bool :=
  match arena.expr id with
  | .ok (.call callee _) => arena.expr callee = .ok (.ident name)
  | _ => false

variable {arena : Arena} {id : NodeId} {e : Expr} {name : String}

theorem isEffect_eq (h : arena.expr id = .ok e) : arena.isEffect id = e.isEffect := by
  rw [isEffect, h]

/-- A property of listed expressions can be read off one after another. -/
theorem forall_expr {nodes : List NodeId} {good : Expr → Prop} [DecidablePred good]
    (h : nodes.all (fun n => (arena.expr n).toOption.all fun e => good e) = true) :
    ∀ n ∈ nodes, ∀ e, arena.expr n = .ok e → good e := by
  intro n hn e he
  have hgood := List.all_eq_true.1 h n hn
  rw [he] at hgood
  exact of_decide_eq_true hgood

theorem isEffect_of_isCallOf (h : arena.isCallOf name id = true) : arena.isEffect id = true := by
  unfold isCallOf at h
  split at h
  · rename_i he
    rw [isEffect_eq he]
    rfl
  · cases h

end Arena

namespace View

variable {view : View} {known : String → Prop} {id : NodeId} {e : Expr} {depth : Nat}
  {text name : String} {nodes : List NodeId}

/-! ## Unfoldings -/

/-- An expression and what it writes below it, down to a depth. -/
def unfoldingTo (view : View) : Nat → NodeId → List NodeId
  | 0, id => [id]
  | depth + 1, id =>
    id ::
      match view.arena.expr id with
      | .ok e => (view.written e).flatMap (view.unfoldingTo depth)
      | .error _ => []

/-- An expression and all that it writes below it. -/
def unfolding (view : View) (id : NodeId) : List NodeId :=
  view.unfoldingTo view.arena.depthBound id

theorem unfoldingTo_succ (h : view.arena.expr id = .ok e) :
    view.unfoldingTo (depth + 1) id = id :: (view.written e).flatMap (view.unfoldingTo depth) := by
  simp only [unfoldingTo, h]

theorem self_mem_unfoldingTo : id ∈ view.unfoldingTo depth id := by
  cases depth <;> simp [unfoldingTo]

theorem unfoldingTo_subset (h : view.arena.expr id = .ok e) {c : NodeId} (hc : c ∈ view.written e) :
    view.unfoldingTo depth c ⊆ view.unfoldingTo (depth + 1) id := by
  rw [unfoldingTo_succ h]
  exact fun n hn => List.mem_cons_of_mem _ (List.mem_flatMap.2 ⟨c, hc, hn⟩)

theorem unfoldingTo_ident (h : view.arena.expr id = .ok (.ident name)) :
    view.unfoldingTo depth id = [id] := by
  cases depth with
  | zero => rfl
  | succ depth =>
    rw [unfoldingTo_succ h]
    rfl

/-- No effect at any depth. -/
def IsQuiet (view : View) (id : NodeId) : Prop :=
  ∀ depth, ∀ n ∈ view.unfoldingTo depth id, view.arena.isEffect n = false

/-- In languages other than Python, the target of an augmented assignment that has no operator holds
no effect; in C++, arrays are initialized by collections. -/
structure IsOrdinary (view : View) (nodes : List NodeId) : Prop where
  quiet : ∀ n ∈ nodes, ∀ op target value, view.arena.expr n = .ok (.assign op target value) →
    view.lang ≠ .python → view.lang.operators.assign op = none → view.IsQuiet target
  filled : ∀ n ∈ nodes, ∀ ty dims init, view.arena.expr n = .ok (.newArray ty dims (some init)) →
    view.lang = .cpp → ∃ kind items, view.arena.expr init = .ok (.collection kind items)

/-- A name is that of a function that is called, and of nothing else. -/
structure OnlyCalled (view : View) (known : String → Prop) (nodes : List NodeId) (name : String) :
    Prop where
  word : Text.IsWord name
  reserved : ∀ text ∈ view.lang.reserved, ¬ Text.Mentions name text
  types : ∀ other, known other → ¬ Text.Mentions name other
  labels : ∀ n ∈ nodes, ∀ e, view.arena.expr n = .ok e → ∀ text ∈ view.labels e,
    Text.Mentions name text → e = .ident name
  callee : ∀ n ∈ nodes, ∀ e, view.arena.expr n = .ok e → ∀ c ∈ view.written e,
    view.arena.expr c = .ok (.ident name) → e.callee? = some c

theorem IsOrdinary.mono {more : List NodeId} (h : view.IsOrdinary more) (hsub : nodes ⊆ more) :
    view.IsOrdinary nodes :=
  ⟨fun n hn => h.quiet n (hsub hn), fun n hn => h.filled n (hsub hn)⟩

theorem OnlyCalled.mono {more : List NodeId} (h : view.OnlyCalled known more name)
    (hsub : nodes ⊆ more) : view.OnlyCalled known nodes name :=
  { h with
    labels := fun n hn => h.labels n (hsub hn)
    callee := fun n hn => h.callee n (hsub hn) }

/-- What an expression writes itself does not mention a function that is only called. -/
theorem OnlyCalled.not_mentions (h : view.OnlyCalled known nodes name) (hid : id ∈ nodes)
    (he : view.arena.expr id = .ok e) (hname : e ≠ .ident name) (hown : view.IsOwn known e text) :
    ¬ Text.Mentions name text := by
  cases hown with
  | label htext => exact fun hmentions => hname (h.labels id hid e he text htext hmentions)
  | reserved htext => exact h.reserved text htext
  | type hnames htext =>
    refine not_mentions_typeName h.word.1 (fun word hword => ?_) (fun other hother => ?_) text htext
    · exact h.reserved word (Language.typeWord_mem_reserved hword)
    · exact h.types other (hnames other hother)

/-! ## The parts of a text -/

/-- The rendering of an expression can yield a text. -/
def IsTextOf (view : View) (id : NodeId) (text : String) : Prop :=
  ∃ depth scope after, view.exprTo depth id scope = .ok text after

/-- The text of an expression is made of marks, of words of its own and of texts of expressions below
it, each of which is made so.  These are the nodes whose texts stand in it. -/
inductive Writes (view : View) (known : String → Prop) : NodeId → String → List NodeId → Prop
  | node {id : NodeId} {e : Expr} {chunks : List Chunk} (he : view.arena.expr id = .ok e)
      (hrenders : view.IsTextOf id (Chunk.textAll chunks))
      (hmarks : ∀ text, .mark text ∈ chunks → Text.IsMark text)
      (hwords : ∀ text, .word text ∈ chunks → view.IsOwn known e text)
      (hbelow : ∀ c text nodes, .hole c text nodes ∈ chunks → c ∈ view.written e)
      (hholes : ∀ c text nodes, .hole c text nodes ∈ chunks → Writes view known c text nodes) :
      Writes view known id (Chunk.textAll chunks) (id :: chunks.flatMap Chunk.nodes)

/-- What a text has of an unfolding: each effect once, and each call of a function that is only
called. -/
structure Accounts (view : View) (known : String → Prop) (depth : Nat) (id : NodeId) (text : String)
    (nodes : List NodeId) : Prop where
  writes : view.Writes known id text nodes
  effects : (nodes.filter view.arena.isEffect).Perm
    ((view.unfoldingTo depth id).filter view.arena.isEffect)
  calls : ∀ name, view.OnlyCalled known (view.unfoldingTo depth id) name →
    Text.calls name text = (view.unfoldingTo depth id).countP (view.arena.isCallOf name)
  ends : ∀ name, view.OnlyCalled known (view.unfoldingTo depth id) name →
    Text.lastWord [] text.toList = name.toList → view.arena.expr id = .ok (.ident name)
  ident : ∀ name, view.arena.expr id = .ok (.ident name) → text = name

/-- A call that is written like any other expression is not one of a name. -/
theorem isCallOf_eq_false (he : view.arena.expr id = .ok e)
    (hcall : ∀ callee args name, e = .call callee args →
      view.arena.expr callee ≠ .ok (.ident name)) : view.arena.isCallOf name id = false := by
  unfold Arena.isCallOf
  rw [he]
  cases e with
  | call callee args => exact decide_eq_false (hcall callee args name rfl)
  | _ => rfl

/-- A name accounts for itself. -/
theorem accounts_ident {named : String} (he : view.arena.expr id = .ok (.ident named)) :
    view.Accounts known depth id named [id] := by
  have hwrites : view.Writes known id (Chunk.textAll [.word named]) [id] :=
    .node he ⟨1, {}, {}, by rw [exprTo_succ he]; simp; rfl⟩ (by simp)
      (by simpa using .label (List.mem_singleton.2 rfl)) (by simp) (by simp)
  have htext : Chunk.textAll [.word named] = named := by simp
  refine ⟨htext ▸ hwrites, by rw [unfoldingTo_ident he], ?_, ?_, ?_⟩
  · intro name hname
    have hnone : view.arena.isCallOf name id = false :=
      isCallOf_eq_false he (Spells.callee_of_none rfl)
    rw [unfoldingTo_ident he, List.countP_singleton, hnone]
    by_cases hmentions : Text.Mentions name named
    · cases hname.labels id self_mem_unfoldingTo _ he named (List.mem_singleton.2 rfl) hmentions
      rw [Text.calls, Text.finished_of_all hname.word.2]
      rfl
    · exact Text.calls_eq_zero hmentions
  · intro name hname hlast
    cases hname.labels id self_mem_unfoldingTo _ he named (List.mem_singleton.2 rfl) (.inr hlast)
    exact he
  · intro name hname
    cases he.symm.trans hname
    rfl

/-! ## One layer -/

section Layer

variable {own : String → Prop} {chunks : List Chunk}

/-- The effects of the texts below are those of their unfoldings. -/
theorem effects_chunks (h : Strung own (view.Accounts known depth) chunks) :
    ((chunks.flatMap Chunk.nodes).filter view.arena.isEffect).Perm
      (((chunks.filterMap Chunk.id?).flatMap (view.unfoldingTo depth)).filter
        view.arena.isEffect) := by
  induction chunks with
  | nil => exact .nil
  | cons chunk rest ih =>
    rw [List.flatMap_cons, List.filter_append]
    cases chunk with
    | mark text | word text => exact ih h.tail
    | hole c text nodes =>
      have hc := h.holes c text nodes List.mem_cons_self
      change (nodes.filter _ ++ _).Perm (((c :: rest.filterMap Chunk.id?).flatMap _).filter _)
      rw [List.flatMap_cons, List.filter_append]
      exact hc.effects.append (ih h.tail)

/-- The calls in the texts below are those of their unfoldings. -/
theorem calls_chunks (h : Strung own (view.Accounts known depth) chunks)
    (hname : ∀ c ∈ chunks.filterMap Chunk.id?, view.OnlyCalled known (view.unfoldingTo depth c) name) :
    (chunks.map (Chunk.calls name)).sum =
      ((chunks.filterMap Chunk.id?).flatMap (view.unfoldingTo depth)).countP
        (view.arena.isCallOf name) := by
  induction chunks with
  | nil => rfl
  | cons chunk rest ih =>
    rw [List.map_cons, List.sum_cons]
    cases chunk with
    | mark text | word text =>
      rw [List.filterMap_cons_none rfl] at hname ⊢
      rw [ih h.tail hname]
      exact Nat.zero_add _
    | hole c text nodes =>
      have hc := h.holes c text nodes List.mem_cons_self
      have hids : (Chunk.hole c text nodes :: rest).filterMap Chunk.id? =
          c :: rest.filterMap Chunk.id? := rfl
      rw [hids] at hname ⊢
      rw [List.flatMap_cons, List.countP_append, ih h.tail fun c hc => hname c (by simp [hc])]
      exact congrArg (· + _) (hc.calls name (hname c (by simp)))

/-- What a layer spells does not mention a function that is only called. -/
theorem OnlyCalled.not_mentions_words {below : NodeId → String → List NodeId → Prop}
    (hname : view.OnlyCalled known (view.unfoldingTo (depth + 1) id) name)
    (he : view.arena.expr id = .ok e) (hident : ∀ name, e ≠ .ident name)
    (h : Strung (view.IsOwn known e) below chunks) :
    ∀ text, .word text ∈ chunks → ¬ Text.Mentions name text := fun text htext =>
  hname.not_mentions self_mem_unfoldingTo he (hident name) (h.words text htext)

/-- The calls in the text of a layer are those of the unfoldings below. -/
theorem calls_textAll (hname : view.OnlyCalled known (view.unfoldingTo (depth + 1) id) name)
    (he : view.arena.expr id = .ok e) (hident : ∀ name, e ≠ .ident name)
    (h : Strung (view.IsOwn known e) (view.Accounts known depth) chunks)
    (hbelow : ∀ c ∈ chunks.filterMap Chunk.id?, c ∈ view.written e) :
    Text.calls name (Chunk.textAll chunks) =
      ((chunks.filterMap Chunk.id?).flatMap (view.unfoldingTo depth)).countP
        (view.arena.isCallOf name) := by
  rw [Text.calls, h.count_eq hname.word.1 (hname.not_mentions_words he hident h)
    fun chunk _ => .start hname.word.1 chunk]
  exact calls_chunks h fun c hc => hname.mono (unfoldingTo_subset he (hbelow c hc))

/-- What is written a second time holds no effect. -/
theorem Repeats.quiet {c n : NodeId} (h : view.Repeats e c) (he : view.arena.expr id = .ok e)
    (hordinary : view.IsOrdinary (view.unfoldingTo (depth + 1) id))
    (hn : n ∈ view.unfoldingTo depth c) : view.arena.isEffect n = false := by
  cases h with
  | name hc =>
    rw [unfoldingTo_ident hc] at hn
    cases List.mem_singleton.1 hn
    rw [Arena.isEffect_eq hc]
    rfl
  | target hlang hop => exact hordinary.quiet id self_mem_unfoldingTo _ _ _ he hlang hop depth n hn

/-- An expression whose words and texts below stand next to each other. -/
theorem accounts_made {more : List NodeId} (he : view.arena.expr id = .ok e)
    (hident : ∀ name, e ≠ .ident name)
    (hordinary : view.IsOrdinary (view.unfoldingTo (depth + 1) id))
    (hrenders : view.IsTextOf id (Chunk.textAll chunks))
    (h : Strung (view.IsOwn known e) (view.Accounts known depth) chunks)
    (hids : (chunks.filterMap Chunk.id?).Perm (view.written e ++ more))
    (hmore : ∀ c ∈ more, c ∈ view.written e ∧ view.Repeats e c)
    (hcall : ∀ callee args name, e = .call callee args →
      view.arena.expr callee ≠ .ok (.ident name)) :
    view.Accounts known (depth + 1) id (Chunk.textAll chunks)
      (id :: chunks.flatMap Chunk.nodes) := by
  have hbelow : ∀ c ∈ chunks.filterMap Chunk.id?, c ∈ view.written e := fun c hc =>
    (List.mem_append.1 (hids.subset hc)).elim (fun h => h) fun h => (hmore c h).1
  have hquiet : ∀ n ∈ more.flatMap (view.unfoldingTo depth), view.arena.isEffect n = false := by
    intro n hn
    obtain ⟨c, hc, hn⟩ := List.mem_flatMap.1 hn
    exact (hmore c hc).2.quiet he hordinary hn
  refine ⟨?_, ?_, ?_, ?_, ?_⟩
  · refine .node he hrenders h.marks h.words (fun c text nodes hhole => hbelow c ?_)
      fun c text nodes hhole => (h.holes c text nodes hhole).writes
    exact List.mem_filterMap.2 ⟨_, hhole, rfl⟩
  · have hall := (effects_chunks h).trans ((hids.flatMap_right (view.unfoldingTo depth)).filter _)
    have hnone : (more.flatMap (view.unfoldingTo depth)).filter view.arena.isEffect = [] :=
      List.filter_eq_nil_iff.2 fun n hn => by simp [hquiet n hn]
    rw [List.flatMap_append, List.filter_append, hnone, List.append_nil] at hall
    rw [unfoldingTo_succ he, List.filter_cons, List.filter_cons]
    split
    · exact hall.cons id
    · exact hall
  · intro name hname
    have hnone : (more.flatMap (view.unfoldingTo depth)).countP (view.arena.isCallOf name) = 0 := by
      refine List.countP_eq_zero.2 fun n hn hcallOf => ?_
      cases (hquiet n hn).symm.trans (Arena.isEffect_of_isCallOf hcallOf)
    rw [calls_textAll hname he hident h hbelow, (hids.flatMap_right _).countP_eq,
      List.flatMap_append, List.countP_append, hnone, Nat.add_zero, unfoldingTo_succ he,
      List.countP_cons_of_neg (by simp [isCallOf_eq_false he hcall])]
  · intro name hname hlast
    obtain ⟨c, inner, nodes, hhole, hinner⟩ := h.exists_of_lastWord_eq hname.word.1
      (hname.not_mentions_words he hident h) (fun chunk _ => .start hname.word.1 chunk)
      hname.word.1.symm hlast
    have hc := hbelow c (List.mem_filterMap.2 ⟨_, hhole, rfl⟩)
    have hcallee := (h.holes c inner nodes hhole).ends name
      (hname.mono (unfoldingTo_subset he hc)) hinner
    obtain ⟨args, rfl⟩ := Expr.exists_of_callee? (hname.callee id self_mem_unfoldingTo e he c hc
      hcallee)
    exact absurd hcallee (hcall c args name rfl)
  · intro name hname
    cases he.symm.trans hname
    exact absurd rfl (hident name)

section Called

variable {callee : NodeId} {args : List NodeId} {target : String}
  (he : view.arena.expr id = .ok (.call callee args))

theorem written_call : view.written (.call callee args) = callee :: args := by
  simp [written, Expr.children]

include he

theorem unfoldingTo_call : view.unfoldingTo (depth + 1) id = id ::
    (view.unfoldingTo depth callee ++ args.flatMap (view.unfoldingTo depth)) := by
  rw [unfoldingTo_succ he, written_call, List.flatMap_cons]

/-- The text of a call is made of what is called, of parentheses and of the arguments. -/
theorem writes_called
    (hrenders : view.IsTextOf id (target ++ parenthesized (Chunk.textAll chunks)))
    (htarget : view.Writes known callee target nodes)
    (h : Strung (view.IsOwn known (.call callee args)) (view.Writes known) chunks)
    (hids : chunks.filterMap Chunk.id? = args) :
    view.Writes known id (target ++ parenthesized (Chunk.textAll chunks))
      (id :: (nodes ++ chunks.flatMap Chunk.nodes)) := by
  have hbelow : ∀ c text nodes, .hole c text nodes ∈ chunks → c ∈ args := fun c text nodes hhole =>
    hids ▸ List.mem_filterMap.2 ⟨_, hhole, rfl⟩
  have htext : target ++ parenthesized (Chunk.textAll chunks) =
      Chunk.textAll (.hole callee target nodes :: .mark "(" :: (chunks ++ [Chunk.mark ")"])) := by
    simp [parenthesized, String.append_assoc]
  have hnodes : nodes ++ chunks.flatMap Chunk.nodes =
      (Chunk.hole callee target nodes :: .mark "(" :: (chunks ++ [Chunk.mark ")"])).flatMap
        Chunk.nodes := by
    simp [Chunk.nodes]
  rw [htext] at hrenders ⊢
  rw [hnodes]
  refine .node he hrenders ?_ ?_ ?_ ?_
  · intro text htext
    rcases (by simpa using htext : text = "(" ∨ _ ∨ text = ")") with rfl | htext | rfl
    · decide
    · exact h.marks text htext
    · decide
  · intro text htext
    exact h.words text (by simpa using htext)
  · intro c text nodes hhole
    rw [written_call]
    rcases (by simpa using hhole : (c = callee ∧ _ ∧ _) ∨ _) with ⟨rfl, -, -⟩ | hhole
    · exact List.mem_cons_self
    · exact List.mem_cons_of_mem _ (hbelow c text nodes hhole)
  · intro c text nodes hhole
    rcases (by simpa using hhole : (c = callee ∧ text = target ∧ nodes = _) ∨ _) with
      ⟨rfl, rfl, rfl⟩ | hhole
    · exact htarget
    · exact h.holes c text nodes hhole

/-- A call, where a parenthesis is opened right after the text of what is called. -/
theorem accounts_called
    (hrenders : view.IsTextOf id (target ++ parenthesized (Chunk.textAll chunks)))
    (htarget : view.Accounts known depth callee target nodes)
    (h : Strung (view.IsOwn known (.call callee args)) (view.Accounts known depth) chunks)
    (hids : chunks.filterMap Chunk.id? = args) :
    view.Accounts known (depth + 1) id (target ++ parenthesized (Chunk.textAll chunks))
      (id :: (nodes ++ chunks.flatMap Chunk.nodes)) := by
  have heffect : view.arena.isEffect id = true := by
    rw [Arena.isEffect_eq he]
    rfl
  refine ⟨?_, ?_, ?_, ?_, ?_⟩
  · exact writes_called he hrenders htarget.writes
      { h with holes := fun c text nodes hhole => (h.holes c text nodes hhole).writes } hids
  · rw [unfoldingTo_call he, List.filter_cons_of_pos heffect, List.filter_cons_of_pos heffect,
      List.filter_append, List.filter_append]
    subst hids
    exact (htarget.effects.append (effects_chunks h)).cons id
  · intro name hname
    have hcallee := hname.mono (unfoldingTo_subset he (c := callee) (by simp [written_call]))
    have hcalled : Text.lastWord [] target.toList = name.toList ↔
        view.arena.expr callee = .ok (.ident name) := by
      refine ⟨htarget.ends name hcallee, fun hident => ?_⟩
      rw [htarget.ident name hident, Text.lastWord_of_all hname.word.2]
      rfl
    have hself : view.arena.isCallOf name id =
        decide (view.arena.expr callee = .ok (.ident name)) := by
      unfold Arena.isCallOf
      rw [he]
    have hlist := calls_textAll hname he (by simp) h fun c hc => by
      rw [written_call]
      exact List.mem_cons_of_mem _ (hids ▸ hc)
    rw [Text.calls_called hname.word.1, htarget.calls name hcallee, hlist, hids,
      unfoldingTo_call he, List.countP_cons, List.countP_append, hself]
    simp only [hcalled, decide_eq_true_eq]
    omega
  · intro name hname hlast
    rw [Text.lastWord_called] at hlast
    exact absurd hlast.symm hname.word.1
  · intro name hname
    cases he.symm.trans hname

end Called

/-- **One layer: a text accounts for an unfolding if those below do.** -/
theorem accounts_of_spells (he : view.arena.expr id = .ok e) (hident : ∀ name, e ≠ .ident name)
    (hordinary : view.IsOrdinary (view.unfoldingTo (depth + 1) id)) (hrenders : view.IsTextOf id text)
    (h : view.Spells known e (view.Accounts known depth) text) :
    ∃ nodes, view.Accounts known (depth + 1) id text nodes := by
  cases h with
  | made hspelled hids hmore hcall =>
    obtain ⟨chunks, hstrung, rfl, rfl⟩ := hspelled
    exact ⟨_, accounts_made he hident hordinary hrenders hstrung hids hmore hcall⟩
  | called hcall htarget hargs =>
    subst hcall
    obtain ⟨chunks, hstrung, hids, rfl⟩ := hargs
    exact ⟨_, accounts_called he hrenders htarget hstrung hids⟩

end Layer

/-! ## Whole expressions -/

/-- In each language, what is written is spelled of what is below. -/
theorem spells_layer (htypes : ∀ t ty, view.arena.ty t = .ok ty → ty.Named known)
    (he : view.arena.expr id = .ok e)
    (hordinary : view.IsOrdinary (view.unfoldingTo (depth + 1) id))
    (ih : ∀ c, view.IsOrdinary (view.unfoldingTo depth c) →
      Yields (Scope.Named known) (view.exprTo depth c) fun text =>
        ∃ nodes, view.Accounts known depth c text nodes) :
    Yields (Scope.Named known) (view.lang.dialect.expr ⟨view, view.exprTo depth⟩ id e)
      (view.Spells known e (view.Accounts known depth)) := by
  have hbelow : ∀ c ∈ view.written e, Site.Renders ⟨view, view.exprTo depth⟩ (Scope.Named known)
      (view.Accounts known depth) c :=
    fun c hc => ih c (hordinary.mono (unfoldingTo_subset he hc))
  have hinferred : Yields (Scope.Named known) (view.inferred id) (Ty.Named known) :=
    Render.yields_infer (Infer.yields_named htypes _ id)
  obtain ⟨lang, hlang⟩ : ∃ lang, Site.lang ⟨view, view.exprTo depth⟩ = lang := ⟨_, rfl⟩
  rw [show view.lang = lang from hlang]
  cases lang with
  | java => exact Java.draws_expr hlang htypes (fun _ => hinferred) hbelow
  | python => exact Python.draws_expr hlang (fun _ _ hc => accounts_ident hc) htypes hbelow
  | cpp =>
    refine Cpp.draws_expr hlang htypes (fun _ => hinferred) (fun ty dims init heq => ?_) hbelow
    subst heq
    exact hordinary.filled id self_mem_unfoldingTo ty dims init he hlang

/-- **The text of an expression accounts for its unfolding.** -/
theorem yields_accounts (htypes : ∀ t ty, view.arena.ty t = .ok ty → ty.Named known) (depth : Nat)
    (id : NodeId) (hordinary : view.IsOrdinary (view.unfoldingTo depth id)) :
    Yields (Scope.Named known) (view.exprTo depth id) fun text =>
      ∃ nodes, view.Accounts known depth id text nodes := by
  induction depth generalizing id with
  | zero => exact .throw _
  | succ depth ih =>
    intro scope text after hscope hrun
    have hrenders : view.IsTextOf id text := ⟨depth + 1, scope, after, hrun⟩
    cases he : view.arena.expr id with
    | error fault =>
      rw [exprTo_of_error he] at hrun
      cases hrun
    | ok e =>
      rw [exprTo_succ he] at hrun
      by_cases hident : ∃ name, e = .ident name
      · obtain ⟨name, rfl⟩ := hident
        cases hrun
        exact ⟨hscope, [id], accounts_ident he⟩
      · have hspells := spells_layer htypes he hordinary ih
        obtain ⟨hafter, htext⟩ := hspells scope text after hscope hrun
        exact ⟨hafter, accounts_of_spells he (fun name heq => hident ⟨name, heq⟩) hordinary
          hrenders htext⟩

/-- The names in the types of a tree and of a scope. -/
inductive InTypes (view : View) (scope : Scope) (name : String) : Prop
  | inTree {id : NodeId} {ty : Ty} (h : view.arena.ty id = .ok ty) (hname : name ∈ ty.names) :
      InTypes view scope name
  | ofVariable {other : String} {ty : Ty} (h : scope.varType? other = some ty)
      (hname : name ∈ ty.names) : InTypes view scope name
  | ofMethod {other : String} {ty : Ty} (h : scope.returnType? other = some ty)
      (hname : name ∈ ty.names) : InTypes view scope name

end View

end Interlingua
