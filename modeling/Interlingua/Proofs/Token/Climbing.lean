import Interlingua.Arena.Same
import Interlingua.Proofs.Reading
import Interlingua.Proofs.Token.Binding

/-!
# Reading operators back

Tokens of an operator expression are read by precedence climbing over the operator table that they
were printed with.

* `Operation` — a tree of names, binary operators and operators before their operand.
* `Climbing.expr`, `Climbing.climb`, `Climbing.primary` — the reader.  It goes on as long as the
  next operator binds at its limit or tighter, so the limit decides where an operand ends.
  `Climbing.expr_eq` and its kin say what each of them does.
* `Climbing.expr_print` — what a tree prints is read as that tree, and reading goes on after it.
  The invariant is on both ends of the tree: its operator is within the limit, and what follows it
  does not bind as tightly as the limit still in force at its end.
* `Climbing.read_linearize` — the round trip.
-/

namespace Interlingua

/-- A tree of names and operators. -/
inductive Operation where
  | ident (name : String)
  | binary (op : BinaryOp) (left right : Operation)
  | unary (op : UnaryOp) (operand : Operation)
  deriving DecidableEq, Repr

namespace Operation

def term : Operation → Term
  | .ident name => .ident name
  | .binary op left right => .binary op left.term right.term
  | .unary op operand => .unary op operand.term

theorem term_binary (op : BinaryOp) (left right : Operation) :
    (binary op left right).term = .binary op left.term right.term := rfl

theorem term_unary (op : UnaryOp) (operand : Operation) :
    (unary op operand).term = .unary op operand.term := rfl

/-- Allocates a tree, children first. -/
def build : Operation → Arena → NodeId × Arena
  | .ident name, arena => arena.addExpr (.ident name)
  | .binary op left right, arena =>
    let (l, arena) := left.build arena
    let (r, arena) := right.build arena
    arena.addExpr (.binary op l r)
  | .unary op operand, arena =>
    let (o, arena) := operand.build arena
    arena.addExpr (.unary op o)

/-- Whether every operator has a token that can be read back: a binary operator has one of its
own, and a unary one stands before its operand. -/
def isReadable (lang : Language) : Operation → Bool
  | .ident _ => true
  | .binary op left right =>
    (lang.operators.binary op).isSome && lang.spellsApart op && left.isReadable lang &&
      right.isReadable lang
  | .unary op operand =>
    (lang.operators.unary op).any OperatorForm.isLeading && operand.isReadable lang

end Operation

/-! ## The reader -/

namespace Climbing

/-- The binary operator that a token is.  The operator is found by its spelling; how it binds is
read off the token. -/
def binaryAt? (lang : Language) (token : Token) : Option (BinaryOp × OperatorForm) := do
  let form ← token.form
  if form.arity = .binary then
    let op ← BinaryOp.all.find? fun op =>
      (lang.operators.binary op).any fun found => found.value == token.value
    return (op, form)
  else none

/-- The unary operator with a given form. -/
def unaryOf? (lang : Language) (form : OperatorForm) : Option UnaryOp :=
  UnaryOp.all.find? fun op => lang.operators.unary op == some form

/-- The limit that nothing exceeds. -/
def top : Nat := 255

mutual
/-- Reads an expression whose operators bind at the limit or tighter. -/
def readExpr (lang : Language) (limit : Nat) (tokens : List Token) :
    Option (Operation × Reading.Less tokens) := do
  let (left, ⟨rest, hrest⟩) ← readPrimary lang tokens
  Reading.within (fun _ _ => by omega) (readClimb lang limit left rest)
termination_by (tokens.length, 1)

/-- Goes on after a left operand while operators bind at the limit or tighter. -/
def readClimb (lang : Language) (limit : Nat) (left : Operation) (tokens : List Token) :
    Option (Operation × Reading.NoMore tokens) :=
  match tokens with
  | [] => some (left, ⟨[], Nat.le_refl _⟩)
  | token :: rest =>
    match binaryAt? lang token with
    | none => some (left, ⟨token :: rest, Nat.le_refl _⟩)
    | some (op, form) =>
      if limit < form.level then some (left, ⟨token :: rest, Nat.le_refl _⟩)
      else do
        let (right, ⟨rest, hrest⟩) ← readExpr lang form.rightLimit rest
        Reading.within (fun _ _ => by rw [List.length_cons]; omega)
          (readClimb lang limit (.binary op left right) rest)
termination_by (tokens.length, 0)

/-- Reads a name, a group, or an operator and the operand it stands before. -/
def readPrimary (lang : Language) (tokens : List Token) :
    Option (Operation × Reading.Less tokens) :=
  match tokens with
  | [] => none
  | token :: rest =>
    match token.kind with
    | .openBrace => do
      let (inner, rest) ← readExpr lang top rest
      match rest with
      | ⟨[], _⟩ => none
      | ⟨close :: later, hrest⟩ =>
        if close.kind = .closeBrace then
          some (inner, ⟨later, by simp only [List.length_cons] at hrest ⊢; omega⟩)
        else none
    | .operator => do
      let form ← token.form
      let op ← unaryOf? lang form
      let (operand, ⟨rest, hrest⟩) ← readExpr lang form.level rest
      some (.unary op operand, ⟨rest, by rw [List.length_cons]; omega⟩)
    | _ => some (.ident token.value, ⟨rest, by simp⟩)
termination_by (tokens.length, 0)
end

/-! The results without their bounds, and the equations that define the reader in terms of them. -/

def expr (lang : Language) (limit : Nat) (tokens : List Token) : Option (Operation × List Token) :=
  Reading.plain (readExpr lang limit tokens)

def climb (lang : Language) (limit : Nat) (left : Operation) (tokens : List Token) :
    Option (Operation × List Token) :=
  Reading.plain (readClimb lang limit left tokens)

def primary (lang : Language) (tokens : List Token) : Option (Operation × List Token) :=
  Reading.plain (readPrimary lang tokens)

theorem expr_eq (lang : Language) (limit : Nat) (tokens : List Token) :
    expr lang limit tokens =
      (primary lang tokens).bind fun (left, rest) => climb lang limit left rest := by
  rw [expr, readExpr]
  exact Reading.plain_bind fun left rest => Reading.plain_within ..

theorem climb_eq (lang : Language) (limit : Nat) (left : Operation) (tokens : List Token) :
    climb lang limit left tokens =
      match tokens with
      | [] => some (left, [])
      | token :: rest =>
        match binaryAt? lang token with
        | none => some (left, token :: rest)
        | some (op, form) =>
          if limit < form.level then some (left, token :: rest)
          else (expr lang form.rightLimit rest).bind
            fun (right, rest) => climb lang limit (.binary op left right) rest := by
  rw [climb, readClimb.eq_def]
  cases tokens with
  | nil => rfl
  | cons token rest =>
    simp only
    split
    · rfl
    · split
      · rfl
      · exact Reading.plain_bind fun right rest => Reading.plain_within ..

theorem primary_eq (lang : Language) (tokens : List Token) :
    primary lang tokens =
      match tokens with
      | [] => none
      | token :: rest =>
        match token.kind with
        | .openBrace => (expr lang top rest).bind fun
          | (_, []) => none
          | (inner, close :: rest) =>
            if close.kind = .closeBrace then some (inner, rest) else none
        | .operator => token.form.bind fun form => (unaryOf? lang form).bind fun op =>
          (expr lang form.level rest).bind fun (operand, rest) =>
            some (.unary op operand, rest)
        | _ => some (.ident token.value, rest) := by
  rw [primary, readPrimary.eq_def]
  cases tokens with
  | nil => rfl
  | cons token rest =>
    simp only
    split
    · refine Reading.plain_bind fun inner rest => ?_
      match rest with
      | ⟨[], _⟩ => rfl
      | ⟨close :: later, _⟩ =>
        simp only
        split <;> rfl
    · cases token.form with
      | none => rfl
      | some form =>
        show Reading.plain ((unaryOf? lang form).bind _) = (unaryOf? lang form).bind _
        cases unaryOf? lang form with
        | none => rfl
        | some op => exact Reading.plain_bind fun operand rest => rfl
    · rfl

/-- Reads a whole list of tokens. -/
def read? (lang : Language) (tokens : Tokens) : Option Operation :=
  match expr lang top tokens.toList with
  | some (tree, []) => some tree
  | _ => none

/-! ## Tokens that are read -/

variable {lang : Language}

theorem binaryAt?_ofForm {op : BinaryOp} {form : OperatorForm} {token : Token}
    (hform : lang.operators.binary op = some form) (hapart : lang.spellsApart op = true)
    (ht : token.untagged = .ofForm form) : binaryAt? lang token = some (op, form) := by
  have hf : token.form = some form := congrArg Token.form ht
  have hv : token.value = form.value := congrArg Token.value ht
  have harity : form.arity = .binary := by
    have hall := holds_of_table (p := fun _ form => form.arity == .binary) op.mem_all hform
      (by cases lang <;> decide)
    exact beq_iff_eq.1 hall
  have hfind : BinaryOp.all.find? (fun other =>
      (lang.operators.binary other).any fun found => found.value == form.value) = some op := by
    have hall := holds_of_table (p := fun op form => !lang.spellsApart op ||
      BinaryOp.all.find? (fun other =>
        (lang.operators.binary other).any fun found => found.value == form.value) == some op)
      op.mem_all hform (by cases lang <;> decide)
    rw [hapart, Bool.not_true, Bool.false_or] at hall
    exact beq_iff_eq.1 hall
  simp [binaryAt?, hf, hv, harity, hfind]

theorem unaryOf?_eq {op : UnaryOp} {form : OperatorForm}
    (hform : lang.operators.unary op = some form) : unaryOf? lang form = some op := by
  have hall := holds_of_table (p := fun op form => unaryOf? lang form == some op) op.mem_all hform
    (by cases lang <;> decide)
  exact beq_iff_eq.1 hall

/-- What comes next does not bind at the limit: reading under it ends here. -/
def Stops (lang : Language) (limit : Nat) (tokens : List Token) : Prop :=
  ∀ token ∈ tokens.head?, ∀ op form, binaryAt? lang token = some (op, form) → limit < form.level

theorem stops_nil (limit : Nat) : Stops lang limit [] := fun token ht => by simp at ht

theorem stops_plain {limit : Nat} {token : Token} {rest : List Token} (h : token.form = none) :
    Stops lang limit (token :: rest) := by
  intro other hother op form hat
  cases hother
  simp [binaryAt?, h] at hat

theorem Stops.mono {limit less : Nat} {tokens : List Token} (h : Stops lang limit tokens)
    (hle : less ≤ limit) : Stops lang less tokens := fun token ht op form hat =>
  Nat.lt_of_le_of_lt hle (h token ht op form hat)

theorem climb_stops {limit : Nat} {tokens : List Token} (left : Operation)
    (h : Stops lang limit tokens) : climb lang limit left tokens = some (left, tokens) := by
  rw [climb_eq]
  split
  · rfl
  · rename_i token rest
    split
    · rfl
    · rename_i op form hat
      rw [if_pos (h token rfl op form hat)]

theorem climb_binary {limit : Nat} {token : Token} {rest : List Token} {op : BinaryOp}
    {form : OperatorForm} (left : Operation) (hat : binaryAt? lang token = some (op, form))
    (hlevel : form.level ≤ limit) :
    climb lang limit left (token :: rest) = (expr lang form.rightLimit rest).bind
      fun (right, rest) => climb lang limit (.binary op left right) rest := by
  rw [climb_eq]
  simp only [hat]
  rw [if_neg (by omega)]

/-- Wherever the tokens stand, they are read as the tree: reading goes on after them with the tree
as left operand, provided that the tree is within the limit and that what follows does not reach
into its end. -/
def Reads (lang : Language) (tree : Operation) (printed : List Token) : Prop :=
  ∀ (tokens rest : List Token) (limit : Nat), tokens.map Token.untagged = printed →
    tree.term.level lang ≤ limit →
    (∀ edge, tree.term.edge? lang = some edge → Stops lang edge rest) →
    expr lang limit (tokens ++ rest) = climb lang limit tree rest

/-- A group is read as what is inside it, whatever the limit is. -/
theorem Reads.grouped {tree : Operation} {printed tokens rest : List Token}
    (h : Reads lang tree printed)
    (limit : Nat) (hmap : tokens.map Token.untagged =
      .plain "(" .openBrace :: printed ++ [.plain ")" .closeBrace]) :
    expr lang limit (tokens ++ rest) = climb lang limit tree rest := by
  obtain ⟨opening, tail, rfl, hopen, htail⟩ := List.map_eq_cons_iff.1 hmap
  obtain ⟨inner, last, rfl, hinner, hlast⟩ := List.map_eq_append_iff.1 htail
  obtain ⟨closing, none, rfl, hclose, hnone⟩ := List.map_eq_cons_iff.1 hlast
  obtain rfl := List.map_eq_nil_iff.1 hnone
  have hkind : opening.kind = .openBrace := congrArg Token.kind hopen
  have hkind' : closing.kind = .closeBrace := congrArg Token.kind hclose
  have hform' : closing.form = none := congrArg Token.form hclose
  have hread : expr lang top (inner ++ closing :: rest) = some (tree, closing :: rest) := by
    rw [h inner (closing :: rest) top hinner (Nat.le_of_lt (Term.level_lt ..))
      fun edge _ => stops_plain hform']
    exact climb_stops tree (stops_plain hform')
  rw [expr_eq, primary_eq]
  simp [hkind, hkind', hread]

/-- An operand is read as its tree, grouped or not. -/
theorem Reads.placed {tree : Operation} {printed tokens rest : List Token} {parent : OperatorForm}
    {side : Side} {limit : Nat} (h : Reads lang tree printed)
    (hmap : tokens.map Token.untagged = tree.term.placed lang parent side printed)
    (hbare : tree.term.wraps lang parent side = false → tree.term.level lang ≤ limit ∧
      ∀ edge, tree.term.edge? lang = some edge → Stops lang edge rest) :
    expr lang limit (tokens ++ rest) = climb lang limit tree rest := by
  unfold Term.placed at hmap
  cases hw : tree.term.wraps lang parent side with
  | true =>
    rw [hw, if_pos rfl] at hmap
    exact h.grouped limit hmap
  | false =>
    rw [hw, if_neg (by decide)] at hmap
    exact h tokens rest limit hmap (hbare hw).1 (hbare hw).2

/-- **What a tree prints is read as that tree.** -/
theorem expr_print : ∀ (tree : Operation) {printed : List Token}, tree.isReadable lang = true →
    tree.term.tokens? lang = some printed → Reads lang tree printed
  | .ident name, printed, _, hp => by
    intro tokens rest limit hmap _ _
    cases hp
    obtain ⟨token, none, rfl, htoken, hnone⟩ := List.map_eq_cons_iff.1 hmap
    obtain rfl := List.map_eq_nil_iff.1 hnone
    have hkind : token.kind = .identifier := congrArg Token.kind htoken
    have hvalue : token.value = name := congrArg Token.value htoken
    rw [expr_eq, primary_eq]
    simp [hkind, hvalue]
  | .binary op left right, printed, hr, hp => by
    intro tokens rest limit hmap hlevel hstop
    simp only [Operation.isReadable, Bool.and_eq_true] at hr
    obtain ⟨⟨⟨hsome, hapart⟩, hl⟩, hr⟩ := hr
    obtain ⟨form, hform⟩ := Option.isSome_iff_exists.1 hsome
    simp only [Operation.term_binary, Term.tokens?, hform, Option.bind_eq_bind, Option.bind_some,
      Option.bind_eq_some_iff, Option.pure_def, Option.some.injEq] at hp
    obtain ⟨lefts, hlefts, rights, hrights, rfl⟩ := hp
    obtain ⟨before, tail, rfl, hbefore, htail⟩ := List.map_eq_append_iff.1 hmap
    obtain ⟨token, after, rfl, htoken, hafter⟩ := List.map_eq_cons_iff.1 htail
    have hat := binaryAt?_ofForm hform hapart htoken
    have hfits := Language.fits_binary hform
    have hplace := Language.place_binary hform
    have hform? : (Operation.binary op left right).term.form? lang = some form := hform
    have hlimit : form.level ≤ limit := by simpa [Term.level, hform?] using hlevel
    have hstop : Stops lang form.rightLimit rest :=
      hstop _ (by simp [Term.edge?, hform?, OperatorForm.edge?, hplace])
    calc expr lang limit (before ++ token :: after ++ rest)
        = expr lang limit (before ++ (token :: (after ++ rest))) := by simp
      _ = climb lang limit left (token :: (after ++ rest)) := by
          refine (expr_print left hl hlefts).placed hbefore fun hw =>
            ⟨Term.level_le_of_left hw hlimit, fun edge hedge => ?_⟩
          -- the operator binds weaker than what is in force at the end of the left operand
          intro other hother op' form' hat'
          cases hother
          rw [hat] at hat'
          cases hat'
          exact Term.edge_lt_of_left hfits hplace hw hedge
      _ = (expr lang form.rightLimit (after ++ rest)).bind
            fun (right, rest) => climb lang limit (.binary op left right) rest :=
          climb_binary left hat hlimit
      _ = (climb lang form.rightLimit right rest).bind
            fun (right, rest) => climb lang limit (.binary op left right) rest := by
          rw [(expr_print right hr hrights).placed hafter fun hw => ?_]
          have hle := Term.level_le_rightLimit hw
          exact ⟨hle, fun edge hedge => hstop.mono ((Term.edge?_le_level hedge).trans hle)⟩
      _ = climb lang limit (.binary op left right) rest := by
          rw [climb_stops right hstop]
          rfl
  | .unary op operand, printed, hr, hp => by
    intro tokens rest limit hmap hlevel hstop
    simp only [Operation.isReadable, Bool.and_eq_true] at hr
    obtain ⟨hlead, ho⟩ := hr
    obtain ⟨form, hform, hlead⟩ := (Option.any_eq_true _ _).1 hlead
    simp only [Operation.term_unary, Term.tokens?, hform, hlead, Option.bind_eq_bind, Option.bind_some,
      Option.bind_eq_some_iff, Option.pure_def, Option.some.injEq, if_true] at hp
    obtain ⟨inner, hinner, rfl⟩ := hp
    obtain ⟨token, after, rfl, htoken, hafter⟩ := List.map_eq_cons_iff.1 hmap
    have hkind : token.kind = .operator := congrArg Token.kind htoken
    have htform : token.form = some form := congrArg Token.form htoken
    have hplace : form.place ≠ .after := by
      simp only [OperatorForm.isLeading, Bool.and_eq_true, beq_iff_eq] at hlead
      simp [hlead.2]
    have hright : form.rightLimit = form.level := by
      have hall : (lang.operators.unary op).all (fun form =>
          !form.isLeading || form.rightLimit == form.level) = true := by
        cases lang <;> cases op <;> rfl
      simpa [hform, hlead] using hall
    have hform? : (Operation.unary op operand).term.form? lang = some form := hform
    have hstop : Stops lang form.level rest :=
      hstop _ (by simp [Term.edge?, hform?, OperatorForm.edge?, hplace, hright])
    have hoperand : expr lang form.level (after ++ rest) = some (operand, rest) := by
      rw [(expr_print operand ho hinner).placed hafter fun hw => ?_]
      · exact climb_stops operand hstop
      · have hle := hright ▸ Term.level_le_rightLimit hw
        exact ⟨hle, fun edge hedge => hstop.mono ((Term.edge?_le_level hedge).trans hle)⟩
    rw [List.cons_append, expr_eq, primary_eq]
    simp [hkind, htform, unaryOf?_eq hform, hoperand]

end Climbing

/-! ## Trees in arenas -/

namespace Arena

/-- Every node of one arena is the same node of another. -/
def Extends (before after : Arena) : Prop :=
  ∀ ⦃id node⦄, before.node id = .ok node → after.node id = .ok node

theorem Extends.refl (arena : Arena) : Extends arena arena := fun _ _ h => h

theorem Extends.trans {a b c : Arena} (hab : Extends a b) (hbc : Extends b c) : Extends a c :=
  fun _ _ h => hbc (hab h)

theorem Extends.expr {a b : Arena} (h : Extends a b) {id : NodeId} {e : Expr}
    (he : a.expr id = .ok e) : b.expr id = .ok e :=
  expr_of_node (h (node_of_expr he))

theorem extends_addExpr (arena : Arena) (e : Expr) : Extends arena (arena.addExpr e).2 := by
  intro id node h
  have hlt := index_lt_of_node h
  unfold Arena.node Arena.node? at h ⊢
  simp only [addExpr, alloc]
  rw [Array.getElem?_push_lt hlt]
  rwa [Array.getElem?_eq_getElem hlt] at h

theorem expr_addExpr (arena : Arena) (e : Expr) :
    (arena.addExpr e).2.expr (arena.addExpr e).1 = .ok e := by
  simp [Arena.expr, Arena.node, Arena.node?, addExpr, alloc, nextId, size]

end Arena

namespace Operation

theorem at_extends {a b : Arena} (hab : a.Extends b) :
    ∀ {tree : Operation} {id : NodeId}, tree.term.At a id → tree.term.At b id
  | .ident _, _, h => hab.expr h
  | .binary .., _, h => by
    simp only [term_binary, Term.At] at h ⊢
    obtain ⟨l, r, he, hl, hr⟩ := h
    exact ⟨l, r, hab.expr he, at_extends hab hl, at_extends hab hr⟩
  | .unary .., _, h => by
    simp only [term_unary, Term.At] at h ⊢
    obtain ⟨o, he, ho⟩ := h
    exact ⟨o, hab.expr he, at_extends hab ho⟩

/-- A tree that was built is there, and nothing that was there has changed. -/
theorem build_at : ∀ (tree : Operation) (arena : Arena),
    arena.Extends (tree.build arena).2 ∧ tree.term.At (tree.build arena).2 (tree.build arena).1
  | .ident name, arena => ⟨arena.extends_addExpr _, arena.expr_addExpr _⟩
  | .binary op left right, arena => by
    obtain ⟨hl, atl⟩ := left.build_at arena
    obtain ⟨hr, atr⟩ := right.build_at (left.build arena).2
    have hlast := ((right.build (left.build arena).2).2).extends_addExpr
      (.binary op (left.build arena).1 (right.build (left.build arena).2).1)
    refine ⟨hl.trans (hr.trans hlast), ?_⟩
    simp only [term_binary, Term.At]
    exact ⟨_, _, Arena.expr_addExpr _ _, at_extends (hr.trans hlast) atl, at_extends hlast atr⟩
  | .unary op operand, arena => by
    obtain ⟨ho, ato⟩ := operand.build_at arena
    have hlast := ((operand.build arena).2).extends_addExpr (.unary op (operand.build arena).1)
    refine ⟨ho.trans hlast, ?_⟩
    simp only [term_unary, Term.At]
    exact ⟨_, Arena.expr_addExpr _ _, at_extends hlast ato⟩

/-- Identities that name one tree are structurally equal. -/
theorem sameTo_of_at {a b : Arena} : ∀ {tree : Operation} {depth : Nat} {i j : NodeId},
    tree.term.At a i → tree.term.At b j → a.GroundedTo depth i →
    Arena.sameTo a b depth i j = .ok true
  | .ident _, _, _, _, hi, hj, hd => by
    simp only [term, Term.At] at hi hj
    obtain ⟨less, rfl⟩ := hd.pos
    rw [Arena.sameTo, Arena.node_of_expr hi, Arena.node_of_expr hj]
    simp [bind, Except.bind, Node.children, Expr.children, Arena.sameAll]
  | .binary _ left right, _, _, _, hi, hj, hd => by
    simp only [term_binary, Term.At] at hi hj
    obtain ⟨l, r, he, hl, hr⟩ := hi
    obtain ⟨l', r', he', hl', hr'⟩ := hj
    obtain ⟨less, rfl⟩ := hd.pos
    have hbelow := hd.belowExpr he
    have hleft := sameTo_of_at hl hl' (hbelow ⟨l, "left"⟩ (by simp [Expr.children]))
    have hright := sameTo_of_at hr hr' (hbelow ⟨r, "right"⟩ (by simp [Expr.children]))
    rw [Arena.sameTo, Arena.node_of_expr he, Arena.node_of_expr he']
    simp [bind, Except.bind, Node.skeleton, Node.mapIds, Expr.mapIds, Node.children, Expr.children,
      Arena.sameAll, hleft, hright]
  | .unary _ operand, _, _, _, hi, hj, hd => by
    simp only [term_unary, Term.At] at hi hj
    obtain ⟨o, he, ho⟩ := hi
    obtain ⟨o', he', ho'⟩ := hj
    obtain ⟨less, rfl⟩ := hd.pos
    have hsame := sameTo_of_at ho ho' (hd.belowExpr he ⟨o, "operand"⟩ (by simp [Expr.children]))
    rw [Arena.sameTo, Arena.node_of_expr he, Arena.node_of_expr he']
    simp [bind, Except.bind, Node.skeleton, Node.mapIds, Expr.mapIds, Node.children, Expr.children,
      Arena.sameAll, hsame]

/-- A readable tree has tokens. -/
theorem exists_tokens {lang : Language} : ∀ {tree : Operation}, tree.isReadable lang = true →
    ∃ printed, tree.term.tokens? lang = some printed
  | .ident _, _ => ⟨_, rfl⟩
  | .binary op left right, h => by
    simp only [isReadable, Bool.and_eq_true] at h
    obtain ⟨⟨⟨hsome, -⟩, hl⟩, hr⟩ := h
    obtain ⟨form, hform⟩ := Option.isSome_iff_exists.1 hsome
    obtain ⟨lefts, hlefts⟩ := exists_tokens hl
    obtain ⟨rights, hrights⟩ := exists_tokens hr
    exact ⟨_, by simp only [term_binary, Term.tokens?, hform, hlefts, hrights]; rfl⟩
  | .unary op operand, h => by
    simp only [isReadable, Bool.and_eq_true] at h
    obtain ⟨hlead, ho⟩ := h
    obtain ⟨form, hform, -⟩ := (Option.any_eq_true _ _).1 hlead
    obtain ⟨tokens, htokens⟩ := exists_tokens ho
    exact ⟨_, by simp only [term_unary, Term.tokens?, hform, htokens]; rfl⟩

/-- A readable tree in an arena has tokens, and these are the ones that it is printed as. -/
theorem exists_linearize {lang : Language} {tree : Operation} {arena : Arena} {id : NodeId}
    (hat : tree.term.At arena id) (h : tree.isReadable lang = true) :
    ∃ tokens, lang.linearize arena id = .ok tokens ∧
      tree.term.tokens? lang = some (tokens.toList.map Token.untagged) := by
  obtain ⟨printed, hprinted⟩ := exists_tokens h
  have hlin := hat.linearize_eq lang
  rw [hprinted] at hlin
  obtain ⟨tokens, htokens, rfl⟩ := Option.map_eq_some_iff.1 hlin
  refine ⟨tokens, ?_, hprinted⟩
  cases hresult : lang.linearize arena id with
  | error error =>
    rw [hresult] at htokens
    cases htokens
  | ok list =>
    rw [hresult] at htokens
    cases htokens
    rfl

end Operation

/-! ## The round trip -/

namespace Climbing

/-- **Reading tokens gives back the tree that they were made of.**  Every readable tree has tokens,
the reader takes all of them, and the tree that it builds is structurally equal to the one in the
arena. -/
theorem read_linearize (lang : Language) (arena : Arena) (id : NodeId) (tree : Operation)
    (hat : tree.term.At arena id) (hreadable : tree.isReadable lang = true) :
    ∃ tokens, lang.linearize arena id = .ok tokens ∧ read? lang tokens = some tree ∧
      arena.same id (tree.build {}).2 (tree.build {}).1 = .ok true := by
  obtain ⟨tokens, htokens, hprinted⟩ := Operation.exists_linearize hat hreadable
  have hread : expr lang top (tokens.toList ++ []) = some (tree, []) := by
    rw [expr_print tree hreadable hprinted tokens.toList [] top rfl
      (Nat.le_of_lt (Term.level_lt ..)) fun edge _ => stops_nil edge]
    exact climb_stops tree (stops_nil top)
  rw [List.append_nil] at hread
  refine ⟨tokens, htokens, ?_, ?_⟩
  · simp [read?, hread]
  · exact Operation.sameTo_of_at hat (tree.build_at {}).2 hat.grounded.to_depthBound

/-- `- a ** (- b) - (c - (not d))`: an operator before its operand on both sides of one that binds
tighter, and one that binds weaker than what is around it. -/
theorem read_linearize_prefixed :
    let tree : Operation := .binary .sub
      (.unary .neg (.binary .pow (.ident "a") (.unary .neg (.ident "b"))))
      (.binary .sub (.ident "c") (.unary .not (.ident "d")))
    tree.isReadable .python = true ∧
      ∃ tokens, Language.python.linearize (tree.build {}).2 (tree.build {}).1 = .ok tokens ∧
        read? .python tokens = some tree ∧
        (tree.build {}).2.same (tree.build {}).1 (tree.build {}).2 (tree.build {}).1 = .ok true :=
  ⟨by decide, read_linearize .python _ _ _ (Operation.build_at _ {}).2 (by decide)⟩

end Climbing

end Interlingua
