import Interlingua.Proofs.Chain.Meaning
import Interlingua.Proofs.Effect.Chunks
import Interlingua.Proofs.Surface.Types
import Interlingua.Proofs.Surface.Words

/-!
# What an expression writes

* `View.written` — the expressions below an expression whose texts stand in its own.
* `View.IsOwn` — the words that an expression brings itself: its labels, the words of the language,
  and the names of types.
* `View.Spells` — the text of an expression is made of its own words and of those texts.
* `Site.draws_between` and the lemmas after it — what the languages share spells what it is given.
-/

namespace Interlingua

/-! ## What stands below -/

@[simp] theorem map_id_held (field : String) (ids : List NodeId) :
    (held field ids).map Child.id = ids := by
  simp [held, Function.comp_def]

/-- What a call is a call of. -/
def Expr.callee? : Expr → Option NodeId
  | .call callee _ => some callee
  | _ => none

theorem Expr.exists_of_callee? {e : Expr} {callee : NodeId} (h : e.callee? = some callee) :
    ∃ args, e = .call callee args := by
  cases e with
  | call found args =>
    cases h
    exact ⟨args, rfl⟩
  | _ => cases h

/-- What a string literal says. -/
def Expr.literal? : Expr → Option String
  | .str value _ => some value
  | _ => none

namespace Arena

/-- The left operand of a binary expression. -/
def leftOf (arena : Arena) (id : NodeId) : List NodeId :=
  match arena.expr id with
  | .ok (.binary _ left _) => [left]
  | _ => []

/-- The right operand of a binary expression. -/
def rightOf (arena : Arena) (id : NodeId) : List NodeId :=
  match arena.expr id with
  | .ok (.binary _ _ right) => [right]
  | _ => []

/-- The operands of comparisons that chain, where the right operand of one is the left operand of
the next. -/
def links (arena : Arena) : List NodeId → List NodeId
  | [] => []
  | first :: rest => arena.leftOf first ++ arena.rightOf first ++ rest.flatMap arena.rightOf

/-- A comparison goes on from an operand that is the same as the last one of another. -/
def Shares (arena : Arena) (item next : NodeId) : Prop :=
  ∀ shared ∈ arena.rightOf item, ∀ again ∈ arena.leftOf next,
    arena.same shared arena again = .ok true

theorem Follows.shares {arena : Arena} {previous : NodeId} {items : List NodeId}
    {links : List (BinaryOp × NodeId)} (h : arena.Follows previous items links) :
    items.IsChain arena.Shares ∧ ∀ next ∈ items.head?, ∀ again ∈ arena.leftOf next,
      arena.same previous arena again = .ok true := by
  induction h with
  | nil => exact ⟨.nil, by simp⟩
  | @cons previous item left right op items links he _ hsame _ ih =>
    have hleft : arena.leftOf item = [left] := by simp [leftOf, he]
    have hright : arena.rightOf item = [right] := by simp [rightOf, he]
    obtain ⟨hshares, hnext⟩ := ih
    refine ⟨List.isChain_cons.2 ⟨fun next hmem shared hshared again hagain => ?_, hshares⟩, ?_⟩
    · rw [hright, List.mem_singleton] at hshared
      exact hshared ▸ hnext next hmem again hagain
    · intro next hmem again hagain
      cases hmem
      rw [hleft, List.mem_singleton] at hagain
      exact hagain ▸ hsame

/-- Comparisons that line up share operands. -/
theorem Lines.shares {arena : Arena} {items : List NodeId} {chain : Chain NodeId}
    (h : arena.Lines items chain) : items.IsChain arena.Shares := by
  cases h with
  | @intro item left right op items links he _ rest =>
    have hright : arena.rightOf item = [right] := by simp [rightOf, he]
    obtain ⟨hshares, hnext⟩ := rest.shares
    refine List.isChain_cons.2 ⟨fun next hmem shared hshared again hagain => ?_, hshares⟩
    rw [hright, List.mem_singleton] at hshared
    exact hshared ▸ hnext next hmem again hagain

/-- The text of a part of an interpolated string, if it is one. -/
def literal? (arena : Arena) (part : NodeId) : Option String :=
  match arena.expr part with
  | .ok e => e.literal?
  | .error _ => none

theorem literal?_eq {arena : Arena} {part : NodeId} {e : Expr} (h : arena.expr part = .ok e) :
    arena.literal? part = e.literal? := by
  rw [literal?, h]

end Arena

namespace View

/-- The comparisons that a binary expression is written as. -/
def chained (view : View) (op : BinaryOp) (left right : NodeId) : Option (List NodeId) :=
  if view.lang = .python ∧ op = .and ∧ view.isOn .keepComparisons = false then
    match Python.chainOf? view.arena left right with
    | .ok items => items
    | .error _ => none
  else none

/-- The expressions whose texts stand in the text of an expression.  Where comparisons chain, an
operand that two of them share is written once; an array is written with its items or with its
dimensions. -/
def written (view : View) : Expr → List NodeId
  | .binary op left right =>
    match view.chained op left right with
    | some items => view.arena.links items
    | none => [left, right]
  | .compound items => if view.lang = .python then view.arena.links items else items
  | .interpolated parts =>
    if view.lang = .java then parts
    else parts.filter fun part => (view.arena.literal? part).isNone
  | .cast _ value => [value]
  | .new _ args => args
  | .newArray _ dims none => dims
  | .newArray _ dims (some init) =>
    match view.arena.expr init with
    | .ok (.collection _ items) => items
    | _ => if view.lang = .cpp then init :: dims else [init]
  | e => e.children.map Child.id

theorem written_binary {view : View} (hpython : view.lang ≠ .python) (op : BinaryOp)
    (left right : NodeId) : view.written (.binary op left right) = [left, right] := by
  have hchained : view.chained op left right = none := if_neg fun h => hpython h.1
  change (match view.chained op left right with
    | some items => view.arena.links items
    | none => [left, right]) = _
  rw [hchained]

theorem written_newArray {view : View} (hcpp : view.lang ≠ .cpp) (ty : NodeId)
    (dims : List NodeId) {init : NodeId} {e : Expr} (h : view.arena.expr init = .ok e) :
    view.written (.newArray ty dims (some init)) =
      match e with
      | .collection _ items => items
      | _ => [init] := by
  simp only [written, h, if_neg hcpp]
  cases e <;> rfl

theorem written_interpolated {view : View} (hjava : view.lang ≠ .java) (parts : List NodeId) :
    view.written (.interpolated parts) =
      parts.filter fun part => (view.arena.literal? part).isNone :=
  if_neg hjava

theorem written_dict (view : View) (entries : List (NodeId × NodeId)) :
    view.written (.dict entries) = entries.flatMap fun entry => [entry.1, entry.2] := by
  change (Expr.dict entries).children.map Child.id = _
  simp [Expr.children, List.map_flatMap]

/-- Expressions that are written as chains of comparisons. -/
def isChained (view : View) : Expr → Bool
  | .binary op left right => (view.chained op left right).isSome
  | .compound _ => view.lang = .python
  | _ => false

/-- **What is below an expression is written, unless it is text in an interpolated string, part of
comparisons that chain, or part of an array that has an initializer.** -/
theorem mem_written {view : View} {e : Expr} {child : Child} (hchild : child ∈ e.children)
    (htype : child.field ≠ "type") :
    child.id ∈ view.written e ∨ (view.arena.literal? child.id).isSome = true ∨
      view.isChained e = true ∨ ∃ ty dims init, e = .newArray ty dims (some init) := by
  have hall : view.written e = e.children.map Child.id → child.id ∈ view.written e :=
    fun hwritten => hwritten ▸ List.mem_map_of_mem hchild
  cases e with
  | binary op left right =>
    cases hchained : view.chained op left right with
    | some items => exact .inr (.inr (.inl (by simp [isChained, hchained])))
    | none => exact .inl (hall (by simp [written, hchained, Expr.children]))
  | compound items =>
    by_cases hlang : view.lang = .python
    · exact .inr (.inr (.inl (by simp [isChained, hlang])))
    · exact .inl (hall (by simp [written, hlang, Expr.children]))
  | interpolated parts =>
    by_cases hlang : view.lang = .java
    · exact .inl (hall (by simp [written, hlang, Expr.children]))
    · cases hliteral : view.arena.literal? child.id with
      | some value => exact .inr (.inl rfl)
      | none =>
        obtain ⟨part, hpart, rfl⟩ := List.mem_map.1 hchild
        refine .inl ?_
        simpa [written, hlang, hliteral] using hpart
  | cast ty value | new ty args =>
    rcases List.mem_cons.1 hchild with rfl | hchild
    · exact absurd rfl htype
    · exact .inl (by simpa [written] using List.mem_map_of_mem (f := Child.id) hchild)
  | newArray ty dims init =>
    cases init with
    | some init => exact .inr (.inr (.inr ⟨ty, dims, init, rfl⟩))
    | none =>
      rcases List.mem_cons.1 hchild with rfl | hchild
      · exact absurd rfl htype
      · refine .inl ?_
        simpa [written, heldIf] using List.mem_map_of_mem (f := Child.id) hchild
  | _ => exact .inl (hall rfl)

/-- **Each comparison of a chain goes on from an operand that is the same as the last one written.**
-/
theorem chained_shares {view : View} {op : BinaryOp} {left right : NodeId} {items : List NodeId}
    (h : view.chained op left right = some items) : items.IsChain view.arena.Shares := by
  unfold chained at h
  split at h
  · split at h
    · rename_i found hfound
      subst h
      obtain ⟨chain, _, _, _, _, _, hlines⟩ := Arena.exists_lines_of_chainOf? hfound
      exact hlines.shares
    · cases h
  · cases h

end View

/-! ## What an expression says itself -/

/-- The format of an interpolated string in C++: its text, with a place for each expression. -/
def Cpp.formatOf (arena : Arena) (parts : List NodeId) : String :=
  String.join (parts.map fun part =>
    match arena.literal? part with
    | some value => doubleBraces value
    | none => "\x7b\x7d")

/-- The text of an interpolated string in Python, up to the first expression and between any two. -/
def Python.formatRuns (arena : Arena) : List NodeId → String × List String
  | [] => ("", [])
  | part :: rest =>
    let (run, runs) := formatRuns arena rest
    match arena.literal? part with
    | some value => (formatText value ++ run, runs)
    | none => ("", run :: runs)

namespace Language

/-- The words that a language has for operations and containers. -/
def helperWords : Language → List String
  | .java =>
    ["new", "Math.pow", "Math.floorDiv", "ArrayList", "List.of", "HashSet", "Set.of", "HashMap",
      "Map.of"]
  | .python => ["isinstance", "range", "for", "in", "_", "f", "1", "0", "0.0", "False", "\"\""]
  | .cpp => ["new", "pow", "sizeof", "std::make_tuple", "std::format"]

/-- The words of a language. -/
def reserved (lang : Language) : List String :=
  lang.infixes.map (·.value) ++
    UnaryOp.all.filterMap (fun op => (lang.operators.unary op).map (·.value)) ++
    [Word.true, .false, .null, .selfRef, .superRef].filterMap lang.operators.word ++
    lang.typeWords ++ lang.helperWords

end Language

namespace View

/-- Names and literals, as an expression writes them. -/
def labels (view : View) : Expr → List String
  | .int value => [Text.numeral value]
  | .float bits => [Decimal.Layout.pointed.writeBits bits]
  | .char value => [view.lang.dialect.charLiteral value]
  | .str value kind => [view.lang.dialect.stringLiteral value kind]
  | .ident name | .method _ name _ | .member _ name => [name]
  | .scoped path => [view.lang.operators.scopeSeparator.intercalate path]
  | .interpolated parts =>
    match view.lang with
    | .java => []
    | .python => (Python.formatRuns view.arena parts).1 :: (Python.formatRuns view.arena parts).2
    | .cpp => [Text.quote (Cpp.formatOf view.arena parts)]
  | .newArray _ _ (some init) =>
    match view.arena.expr init with
    | .ok (.collection _ items) => [Text.count items.length]
    | _ => []
  | _ => []

/-- The words that an expression writes itself.  The names in types are known. -/
inductive IsOwn (view : View) (known : String → Prop) (e : Expr) : String → Prop
  | label {text : String} (h : text ∈ view.labels e) : IsOwn view known e text
  | reserved {text : String} (h : text ∈ view.lang.reserved) : IsOwn view known e text
  | type {ty : Ty} {text : String} (hnames : ty.Named known) (h : view.typeName ty = .ok text) :
      IsOwn view known e text

/-- What an expression may write a second time: a name, or the target of an augmented assignment
that the language has no operator for. -/
inductive Repeats (view : View) : Expr → NodeId → Prop
  | name {e : Expr} {id : NodeId} {name : String} (h : view.arena.expr id = .ok (.ident name)) :
      Repeats view e id
  | target {op : AssignOp} {target value : NodeId} (hlang : view.lang ≠ .python)
      (hop : view.lang.operators.assign op = none) : Repeats view (.assign op target value) target

/-- The text of an expression is made of its own words and of the texts of what it writes.  Only in
a call is a parenthesis opened right after one of those texts, that of what is called. -/
inductive Spells (view : View) (known : String → Prop) (e : Expr)
    (below : NodeId → String → List NodeId → Prop) : String → Prop
  | made {ids more : List NodeId} {text : String} (h : Spelled (view.IsOwn known e) below ids text)
      (hids : ids.Perm (view.written e ++ more))
      (hmore : ∀ id ∈ more, id ∈ view.written e ∧ view.Repeats e id)
      (hcall : ∀ callee args name, e = .call callee args →
        view.arena.expr callee ≠ .ok (.ident name)) : Spells view known e below text
  | called {callee : NodeId} {args nodes : List NodeId} {target list : String}
      (he : e = .call callee args) (htarget : below callee target nodes)
      (hargs : Spelled (view.IsOwn known e) below args list) :
      Spells view known e below (target ++ parenthesized list)

namespace Spells

variable {view : View} {known : String → Prop} {e : Expr}
  {below : NodeId → String → List NodeId → Prop} {ids : List NodeId} {text : String}

theorem callee_of_none (hcall : e.callee? = none) (callee : NodeId) (args : List NodeId)
    (name : String) (he : e = .call callee args) : view.arena.expr callee ≠ .ok (.ident name) := by
  subst he
  cases hcall

/-- An expression that writes nothing a second time. -/
theorem once (h : Spelled (view.IsOwn known e) below ids text) (hids : ids.Perm (view.written e))
    (hcall : ∀ callee args name, e = .call callee args →
      view.arena.expr callee ≠ .ok (.ident name)) : view.Spells known e below text := by
  have hnone : ids.Perm (view.written e ++ []) := by simpa using hids
  exact .made h hnone (by simp) hcall

theorem of_perm (h : Spelled (view.IsOwn known e) below ids text) (hids : ids.Perm (view.written e))
    (hcall : e.callee? = none) : view.Spells known e below text :=
  .once h hids (callee_of_none hcall)

theorem of_spelled (h : Spelled (view.IsOwn known e) below (view.written e) text)
    (hcall : e.callee? = none) : view.Spells known e below text :=
  of_perm h (.refl _) hcall

end Spells

end View

/-! ## The words of a language -/

section

variable {name : String} (hname : name.toList ≠ [])
include hname

/-- A type that is spelled mentions what it is spelled of. -/
theorem TypeSpelling.not_mentions {lang : Language} {text : String}
    (hwords : ∀ word ∈ lang.typeWords, ¬ Text.Mentions name word)
    (h : TypeSpelling lang (¬ Text.Mentions name ·) text) : ¬ Text.Mentions name text := by
  induction h with
  | head h => exact h.elim (hwords _) id
  | @marked text mark _ hmark ih =>
    have hmarks : ∀ lang : Language, ∀ mark ∈ lang.typeMarks, Text.IsMark mark := by
      intro lang
      cases lang <;> decide
    exact Text.not_mentions_before hname (hmarks lang mark hmark) ih
  | taking head h _ ih =>
    have hwith : ∀ opening closing, Text.IsMark opening → Text.IsMark closing →
        ¬ Text.Mentions name (head ++ opening ++ commas _ ++ closing) :=
      fun opening closing hopening hclosing => Text.not_mentions_before hname hclosing
        (Text.not_mentions_join hname hopening (h.elim (hwords _) id)
          (Text.not_mentions_commas hname ih))
    cases lang with
    | java | cpp => exact hwith "<" ">" (by decide) (by decide)
    | python => exact hwith "[" "]" (by decide) (by decide)

/-- The name of a type mentions the names in the type, and the language's words for types. -/
theorem View.not_mentions_typeName {view : View}
    (hwords : ∀ word ∈ view.lang.typeWords, ¬ Text.Mentions name word) {ty : Ty}
    (h : ty.Named (¬ Text.Mentions name ·)) :
    Grants (view.typeName ty) (¬ Text.Mentions name ·) := fun text htext =>
  (spelled_typeName h text htext).not_mentions hname hwords

end

namespace Language

variable {lang : Language} {form : OperatorForm}

theorem infix_mem_reserved (h : form ∈ lang.infixes) : form.value ∈ lang.reserved := by
  simp only [reserved, List.mem_append]
  exact .inl (.inl (.inl (.inl (List.mem_map_of_mem h))))

theorem unary_mem_reserved {op : UnaryOp} (h : lang.operators.unary op = some form) :
    form.value ∈ lang.reserved := by
  simp only [reserved, List.mem_append]
  refine .inl (.inl (.inl (.inr (List.mem_filterMap.2 ⟨op, op.mem_all, ?_⟩))))
  rw [h]
  rfl

theorem word_mem_reserved {word : Word} {text : String}
    (h : lang.operators.word word = some text) : text ∈ lang.reserved := by
  simp only [reserved, List.mem_append]
  exact .inl (.inl (.inr (List.mem_filterMap.2 ⟨word, by cases word <;> decide, h⟩)))

theorem typeWord_mem_reserved {text : String} (h : text ∈ lang.typeWords) :
    text ∈ lang.reserved := by
  simp only [reserved, List.mem_append]
  exact .inl (.inr h)

theorem ternary_mem_reserved (lang : Language) :
    lang.operators.ternary.1.value ∈ lang.reserved ∧
      lang.operators.ternary.2.value ∈ lang.reserved := by
  cases lang <;> decide

theorem helper_mem_reserved {text : String} (h : text ∈ lang.helperWords) :
    text ∈ lang.reserved := by
  simp only [reserved, List.mem_append]
  exact .inr h

/-- A name needs no parentheses. -/
theorem wraps_ident {arena : Arena} {id : NodeId} {name : String}
    (h : arena.expr id = .ok (.ident name)) (parent : OperatorForm) (side : Side) :
    lang.wraps arena parent id side = .ok false := by
  unfold wraps exprForm?
  rw [h]
  rfl

end Language

/-! ## What the languages share -/

/-- The expressions that every language renders alike. -/
def Expr.isCommon : Expr → Bool
  | .binary .. | .unary .. | .assign .. | .compound _ | .cast .. | .sizeOf _ | .new ..
  | .newArray .. | .collection .. | .dict _ | .interpolated _ | .sequence _ => false
  | _ => true

/-- Collections and dictionaries, whose types are inferred where they are written. -/
def Expr.isContainer : Expr → Bool
  | .collection .. | .dict _ => true
  | _ => false

/-- The text of an expression below is as it should be. -/
def Site.Renders (site : Site) (inv : Scope → Prop) (below : NodeId → String → List NodeId → Prop)
    (id : NodeId) : Prop :=
  Yields inv (site.below id) fun text => ∃ nodes, below id text nodes

namespace Site

variable {site : Site} {inv : Scope → Prop} {own : String → Prop}
  {below : NodeId → String → List NodeId → Prop} {id left right : NodeId} {form : OperatorForm}

variable (own) in
theorem Renders.draws (h : site.Renders inv below id) :
    Yields inv (site.below id) (Spelled own below [id]) :=
  Yields.mono h fun _ htext => htext.elim fun _ hbelow => .hole hbelow

/-- An operand is bare or between parentheses. -/
theorem yields_operand (h : site.Renders inv below id) (parent : OperatorForm) (side : Side) :
    Yields inv (site.operand parent id side) fun text => ∃ inner nodes, below id inner nodes ∧
      ((text = inner ∧ site.lang.wraps site.arena parent id side = .ok false) ∨
        (text = parenthesized inner ∧ site.lang.wraps site.arena parent id side = .ok true)) := by
  refine Yields.bind h fun inner hbelow => ?_
  obtain ⟨nodes, hinner⟩ := hbelow
  refine (Render.yields_follow fun wrapped hwrapped => hwrapped).bind fun wrapped hwrapped => ?_
  cases wrapped with
  | true => exact .pure ⟨inner, nodes, hinner, .inr ⟨rfl, hwrapped⟩⟩
  | false => exact .pure ⟨inner, nodes, hinner, .inl ⟨rfl, hwrapped⟩⟩

variable (own) in
theorem draws_operand (h : site.Renders inv below id) (parent : OperatorForm) (side : Side) :
    Yields inv (site.operand parent id side) (Spelled own below [id]) := by
  refine (yields_operand h parent side).mono ?_
  rintro text ⟨inner, nodes, hinner, ⟨rfl, -⟩ | ⟨rfl, -⟩⟩
  · exact .hole hinner
  · exact (Spelled.hole hinner).parenthesized

theorem draws_between (hform : own form.value) (hl : site.Renders inv below left)
    (hr : site.Renders inv below right) :
    Yields inv (site.between form left right) (Spelled own below [left, right]) :=
  (draws_operand own hl form .left).bind fun _ hleft => (draws_operand own hr form .right).bind
    fun _ hright => .pure (hleft.infixed hform hright)

variable (own) in
/-- Texts, one for each expression. -/
theorem yields_texts {ids : List NodeId} (h : ∀ id ∈ ids, site.Renders inv below id) :
    Yields inv (ids.mapM site.below)
      (List.Forall₂ (Spelled own below) (ids.map fun id => [id])) := by
  refine (Yields.mapM_rel fun id hid => (h id hid).draws own).mono fun texts htexts => ?_
  rw [List.forall₂_map_left_iff]
  exact htexts

/-- The expressions of groups of one. -/
theorem flatten_singletons (ids : List NodeId) : (ids.map fun id => [id]).flatten = ids := by
  induction ids with
  | nil => rfl
  | cons id rest ih => simp [ih]

variable (own) in
theorem draws_args {ids : List NodeId} (h : ∀ id ∈ ids, site.Renders inv below id) :
    Yields inv (site.args ids) (Spelled own below ids) := by
  refine (yields_texts own h).bind fun texts htexts => .pure ?_
  have hall := Spelled.commas htexts
  rwa [flatten_singletons] at hall

theorem draws_word (word : Word) (e : Expr)
    (hword : ∀ text, site.lang.operators.word word = some text → own text) :
    Yields inv (site.word word e) (Spelled own below []) := by
  unfold Site.word
  cases hfound : site.lang.operators.word word with
  | none => exact .throw _
  | some text => exact .pure (.word (hword text hfound))

/-- What stands before an operand is a mark or a word, and what stands after it is a mark. -/
theorem unary_value {lang : Language} {op : UnaryOp} {form : OperatorForm}
    (h : lang.operators.unary op = some form) :
    if op.isPost = false ∧ form.value.toList.getLast?.any Text.isLetter = true then True
    else Text.IsMark form.value ∧ form.value.toList.head? ≠ some '(' := by
  cases lang <;> cases op <;> cases h <;> decide

theorem draws_unary (op : UnaryOp) (h : site.Renders inv below id)
    (hform : ∀ form, site.lang.operators.unary op = some form → own form.value) :
    Yields inv (site.unary op id) (Spelled own below [id]) := by
  unfold Site.unary Site.unaryOperand
  cases hfound : site.lang.operators.unary op with
  | none => exact .throw _
  | some form =>
    have hvalue := unary_value hfound
    cases hpost : op.isPost with
    | true =>
      obtain ⟨hmark, hopen⟩ : Text.IsMark form.value ∧ form.value.toList.head? ≠ some '(' := by
        simpa [hpost] using hvalue
      exact (draws_operand own h form .left).bind fun _ htext => .pure (htext.before hmark hopen)
    | false =>
      refine (draws_operand own h form .right).bind fun text htext => .pure ?_
      cases hword : form.value.toList.getLast?.any Text.isLetter with
      | true =>
        simpa using htext.headed (hform form hfound) (by decide : Text.IsMark " ")
      | false =>
        obtain ⟨hmark, -⟩ : Text.IsMark form.value ∧ form.value.toList.head? ≠ some '(' := by
          simpa [hword] using hvalue
        simpa using htext.after hmark

theorem draws_binary (op : BinaryOp) (hl : site.Renders inv below left)
    (hr : site.Renders inv below right)
    (hform : ∀ form, site.lang.operators.binary op = some form → own form.value) :
    Yields inv (site.binary op left right) (Spelled own below [left, right]) := by
  unfold Site.binary
  cases hfound : site.lang.operators.binary op with
  | none => exact .throw _
  | some form => exact draws_between (hform form hfound) hl hr

theorem draws_ternary {cond whenTrue whenFalse : NodeId} (hc : site.Renders inv below cond)
    (ht : site.Renders inv below whenTrue) (hf : site.Renders inv below whenFalse)
    (hfirst : own site.lang.operators.ternary.1.value)
    (hsecond : own site.lang.operators.ternary.2.value) :
    Yields inv (site.ternary cond whenTrue whenFalse) fun text =>
      ∃ ids, ids.Perm [cond, whenTrue, whenFalse] ∧ Spelled own below ids text := by
  have hall : ∀ {a b : NodeId}, site.Renders inv below a → site.Renders inv below b →
      Yields inv (do
        let leftText ← site.operand site.lang.operators.ternary.1 a .left
        let centerText ← site.operand site.lang.operators.ternary.1 b .center
        let rightText ← site.operand site.lang.operators.ternary.1 whenFalse .right
        return leftText ++ " " ++ site.lang.operators.ternary.1.value ++ " " ++ centerText ++ " " ++
          site.lang.operators.ternary.2.value ++ " " ++ rightText)
        (Spelled own below [a, b, whenFalse]) := by
    intro a b ha hb
    refine (draws_operand own ha _ .left).bind fun _ hleft => ?_
    refine (draws_operand own hb _ .center).bind fun _ hcenter => ?_
    refine (draws_operand own hf _ .right).bind fun _ hright => .pure ?_
    exact (hleft.infixed hfirst hcenter).infixed hsecond hright
  unfold Site.ternary
  cases site.lang.operators.ternaryLayout with
  | condFirst => exact (hall hc ht).mono fun text htext => ⟨_, .refl _, htext⟩
  | thenFirst => exact (hall ht hc).mono fun text htext => ⟨_, .swap .., htext⟩

/-- What is called is a name, or another expression, which may stand between parentheses. -/
theorem draws_call {known : String → Prop} {callee : NodeId} {args : List NodeId}
    (hc : site.Renders inv below callee) (h : ∀ arg ∈ args, site.Renders inv below arg) :
    Yields inv (do
      let target ← site.accessed callee
      return target ++ parenthesized (← site.args args))
      (site.view.Spells known (.call callee args) below) := by
  refine (yields_operand hc _ .left).bind fun target hoperand => ?_
  obtain ⟨inner, nodes, hinner, htarget⟩ := hoperand
  refine (draws_args (site.view.IsOwn known (.call callee args)) h).bind
    fun list hlist => .pure ?_
  rcases htarget with ⟨rfl, -⟩ | ⟨rfl, hwraps⟩
  · exact .called rfl hinner hlist
  · refine .once ?_ (List.Perm.of_eq (?_ : [callee] ++ args = _)) ?_
    · have hjoined := ((Spelled.hole hinner).join (by decide : Text.IsMark ")(")
        (by decide) hlist).before (by decide : Text.IsMark ")") (by decide)
      have hall := hjoined.after (by decide : Text.IsMark "(")
      have htext : parenthesized inner ++ parenthesized list =
          "(" ++ (inner ++ ")(" ++ list ++ ")") := by
        simp [← String.toList_inj, parenthesized]
      rw [htext]
      exact hall
    · simp [View.written, Expr.children]
    · intro callee' args' name he hident
      cases he
      cases (Language.wraps_ident hident _ _).symm.trans hwraps

/-- What every language renders alike. -/
theorem draws_common {known : String → Prop} {e : Expr} (hcommon : e.isCommon = true)
    (h : ∀ c ∈ site.view.written e, site.Renders inv below c) :
    Yields inv (site.lang.dialect.expr site id e) (site.view.Spells known e below) := by
  have hreserved : ∀ {text}, text ∈ site.lang.reserved → site.view.IsOwn known e text := .reserved
  cases e with
  | int value | float value | char value | str value kind | ident name | «scoped» path =>
    exact .pure (.of_spelled (.word (.label (List.mem_singleton.2 rfl))) rfl)
  | bool value =>
    cases value <;>
    · refine (draws_word _ _ fun text htext => .reserved ?_).mono fun text htext =>
        .of_spelled htext rfl
      exact Language.word_mem_reserved htext
  | null | selfRef | superRef =>
    refine (draws_word _ _ fun text htext =>
      hreserved (Language.word_mem_reserved htext)).mono fun text htext => .of_spelled htext rfl
  | ternary cond whenTrue whenFalse =>
    have hforms := site.lang.ternary_mem_reserved
    refine (draws_ternary (h cond (by simp [View.written, Expr.children]))
      (h whenTrue (by simp [View.written, Expr.children]))
      (h whenFalse (by simp [View.written, Expr.children]))
      (hreserved hforms.1) (hreserved hforms.2)).mono fun text hmade => ?_
    obtain ⟨ids, hids, htext⟩ := hmade
    exact .of_perm htext hids rfl
  | paren inner =>
    have hinner := h inner (by simp [View.written, Expr.children])
    refine (hinner.draws (site.view.IsOwn known (.paren inner))).bind fun text htext => .pure ?_
    exact .of_spelled htext.parenthesized rfl
  | call callee args =>
    exact draws_call (h callee (by simp [View.written, Expr.children]))
      fun arg harg => h arg (by simp [View.written, Expr.children, harg])
  | method receiver name args =>
    have hreceiver := h receiver (by simp [View.written, Expr.children])
    have hargs : ∀ arg ∈ args, site.Renders inv below arg := fun arg harg =>
      h arg (by simp [View.written, Expr.children, harg])
    refine (draws_operand (site.view.IsOwn known (.method receiver name args)) hreceiver _
      .left).bind fun target htarget => ?_
    refine (draws_args (site.view.IsOwn known (.method receiver name args)) hargs).bind
      fun list hlist => .pure ?_
    have hall := htarget.join (by decide : Text.IsMark ".") (by decide)
      (hlist.called (.label (List.mem_singleton.2 rfl)))
    refine .of_spelled ?_ rfl
    simpa [View.written, Expr.children, String.append_assoc] using hall
  | index target position =>
    have htarget := h target (by simp [View.written, Expr.children])
    have hposition := h position (by simp [View.written, Expr.children])
    refine (draws_operand (site.view.IsOwn known (.index target position)) htarget _ .left).bind
      fun targetText htarget => ?_
    refine (hposition.draws (site.view.IsOwn known (.index target position))).bind
      fun text htext => .pure ?_
    refine .of_spelled ?_ rfl
    exact (htarget.join (by decide : Text.IsMark "[") (by decide) htext).before
      (by decide : Text.IsMark "]") (by decide)
  | member target name =>
    have htarget := h target (by simp [View.written, Expr.children])
    refine (draws_operand (site.view.IsOwn known (.member target name)) htarget _ .left).bind
      fun text htext => .pure ?_
    refine .of_spelled ?_ rfl
    exact htext.join (by decide : Text.IsMark ".") (by decide)
      (.word (.label (List.mem_singleton.2 rfl)))
  | _ => cases hcommon

end Site

end Interlingua
