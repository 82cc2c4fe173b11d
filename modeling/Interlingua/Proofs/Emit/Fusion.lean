import Interlingua.Proofs.Emit.Agreement
import Interlingua.Proofs.Emit.Lexing
import Interlingua.Proofs.Token.Binding

/-!
# Operators do not run together

An operator that stands before its operand is written without a blank, so a text must not start
with a character that such an operator would go on with.  Only an operator before its operand can
start a text with a symbol; it binds alike in a whole language, so what is not grouped under
another one is the operand itself, and grouping looks at the spellings of the two.

* `Language.Leads` — what a text can start with.
* `Language.Told` — what the text of an expression is like, given the operator it is written with;
  `Language.Placed` — what the text of an operand is like.
* `View.lex_expr` — **splitting the text of an expression by longest match gives the words of its
  tokens.**
-/

namespace Interlingua

open Surface

namespace Language

variable {lang : Language} {form parent : OperatorForm} {text : String} {values : List String}

/-! ## Prefix operators -/

/-- The level of the operators that stand right before their operand. -/
def preLevel : Language → Nat
  | .java => Java.preLevel
  | .python => Python.preLevel
  | .cpp => Cpp.preLevel

/-- The characters that the operators right before their operand start with. -/
def prefixHeads : Language → List Char
  | .java => ['+', '-', '!', '~']
  | .python => ['+', '-', '~']
  | .cpp => ['+', '-', '!', '~', '*', '&']

/-- An operator of symbols that stands before its operand. -/
def IsPrefix (lang : Language) (form : OperatorForm) : Prop :=
  (∃ op, lang.operators.unary op = some form) ∧ form.isLeading = true ∧
    form.value.toList.head?.any isSymbol = true

theorem IsPrefix.level_and_head (h : lang.IsPrefix form) : form.level = lang.preLevel ∧
    form.value.toList.head?.any lang.prefixHeads.contains = true := by
  obtain ⟨⟨op, hform⟩, hlead, hsymbol⟩ := h
  have hall := holds_of_table (p := fun _ form =>
    !(form.isLeading && form.value.toList.head?.any isSymbol) || (form.level == lang.preLevel &&
      form.value.toList.head?.any lang.prefixHeads.contains)) op.mem_all hform
    (by cases lang <;> decide)
  simpa only [hlead, hsymbol, Bool.and_true, Bool.not_true, Bool.false_or, Bool.and_eq_true,
    beq_iff_eq] using hall

theorem IsPrefix.level_eq (h : lang.IsPrefix form) : form.level = lang.preLevel :=
  h.level_and_head.1

theorem IsPrefix.exists_head (h : lang.IsPrefix form) :
    ∃ c rest, form.value.toList = c :: rest ∧ c ∈ lang.prefixHeads := by
  obtain ⟨-, hhead⟩ := h.level_and_head
  cases hvalue : form.value.toList with
  | nil =>
    rw [hvalue] at hhead
    cases hhead
  | cons c rest =>
    rw [hvalue, List.head?_cons, Option.any_some] at hhead
    exact ⟨c, rest, rfl, List.contains_iff_mem.1 hhead⟩

theorem binary_level_ne {op : BinaryOp} (h : lang.operators.binary op = some form) :
    form.level ≠ lang.preLevel := by
  have hall := holds_of_table (p := fun _ form => form.level != lang.preLevel) op.mem_all h
    (by cases lang <;> decide)
  simpa using hall

theorem ternary_level_ne (lang : Language) :
    lang.operators.ternary.1.level ≠ lang.preLevel := by
  cases lang <;> decide

theorem post_level_ne {op : UnaryOp} (h : lang.operators.unary op = some form)
    (hpost : op.isPost = true) : form.level ≠ lang.preLevel := by
  have hall := holds_of_table (p := fun op form => !op.isPost || form.level != lang.preLevel)
    op.mem_all h (by cases lang <;> decide)
  simpa [hpost] using hall

/-- A spelling that goes on with the start of a prefix operator is one character twice. -/
theorem eq_pair_of_mem_tail {spelling : List Char} {c : Char} (h : spelling ∈ lang.spellings)
    (hc : c ∈ spelling.tail) (hhead : c ∈ lang.prefixHeads) :
    spelling = [c, c] ∧ (c = '+' ∨ c = '-' ∨ c = '&') := by
  have hall : lang.spellings.all (fun spelling => spelling.tail.all fun c =>
      !lang.prefixHeads.contains c ||
        (spelling == [c, c] && (c == '+' || c == '-' || c == '&'))) = true := by
    cases lang <;> decide
  have hc := List.all_eq_true.1 (List.all_eq_true.1 hall spelling h) c hc
  rw [List.contains_iff_mem.2 hhead, Bool.not_true, Bool.false_or] at hc
  simpa [or_assoc] using hc

/-- **What does not fuse is not read as one operator.** -/
theorem goesOn_of_not_fuses {outer inner : OperatorForm} (houter : lang.IsPrefix outer)
    (hinner : lang.IsPrefix inner)
    (h : OperatorForm.fuses outer.value inner.value = false) :
    ∀ c ∈ inner.value.toList.head?, lang.goesOn outer.value.toList c = false := by
  obtain ⟨first, rest, houter, -⟩ := houter.exists_head
  obtain ⟨c, others, hinner, hhead⟩ := hinner.exists_head
  rw [hinner, houter]
  rintro _ ⟨⟩
  rw [goesOn, List.any_eq_false]
  intro spelling hmem hprefix
  obtain ⟨more, rfl⟩ := List.isPrefixOf_iff_prefix.1 hprefix
  obtain ⟨hpair, hkind⟩ := eq_pair_of_mem_tail hmem (by simp) hhead
  have hfuses : OperatorForm.fuses outer.value inner.value = true := by
    obtain ⟨rfl, rfl⟩ : first = c ∧ rest = [] := by
      cases rest <;> simp_all
    rw [OperatorForm.fuses, houter, hinner]
    simpa [or_assoc] using hkind
  rw [h] at hfuses
  cases hfuses

/-! ## What texts start with -/

/-- A text starts like a name or with a parenthesis, or with a prefix operator that may be there. -/
def Leads (lang : Language) (allowed : OperatorForm → Prop) (text : String) : Prop :=
  ∃ c, text.toList.head? = some c ∧
    (isSymbol c = false ∨
      ∃ form, lang.IsPrefix form ∧ form.value.toList.head? = some c ∧ allowed form)

theorem Leads.of_not_isSymbol {allowed : OperatorForm → Prop} {c : Char}
    (hhead : text.toList.head? = some c) (hc : isSymbol c = false) : lang.Leads allowed text :=
  ⟨c, hhead, .inl hc⟩

theorem Leads.ne_nil {allowed : OperatorForm → Prop} (h : lang.Leads allowed text) :
    text.toList ≠ [] := by
  obtain ⟨c, hhead, -⟩ := h
  rintro heq
  rw [heq] at hhead
  cases hhead

theorem Leads.mono {allowed allowed' : OperatorForm → Prop} (h : lang.Leads allowed text)
    (himp : ∀ form, lang.IsPrefix form → allowed form → allowed' form) :
    lang.Leads allowed' text := by
  obtain ⟨c, hhead, hcases⟩ := h
  exact ⟨c, hhead, hcases.imp_right fun ⟨form, hprefix, hform, hallowed⟩ =>
    ⟨form, hprefix, hform, himp form hprefix hallowed⟩⟩

theorem Leads.append {allowed : OperatorForm → Prop} (h : lang.Leads allowed text)
    (more : String) : lang.Leads allowed (text ++ more) := by
  obtain ⟨c, hhead, hcases⟩ := h
  refine ⟨c, ?_, hcases⟩
  rw [String.toList_append, List.head?_append, hhead]
  rfl

theorem Leads.parenthesized {allowed : OperatorForm → Prop} (text : String) :
    lang.Leads allowed (parenthesized text) := by
  refine .of_not_isSymbol (c := '(') ?_ (by decide)
  simp [Interlingua.parenthesized]

/-- What the text of an expression is like that is written with an operator, or that is an atom: a
prefix operator that it starts with is this one, or binds tighter. -/
structure Told (lang : Language) (form? : Option OperatorForm) (text : String)
    (values : List String) : Prop where
  lexes : lang.Lexes text values
  leads : lang.Leads (fun first => ∃ form ∈ form?, form = first ∨ first.level < form.level) text

/-- What the text of an operand is like: a prefix operator that it starts with binds tighter than
the operator it belongs to, or does not fuse with it. -/
structure Placed (lang : Language) (parent : OperatorForm) (text : String)
    (values : List String) : Prop where
  lexes : lang.Lexes text values
  leads : lang.Leads (fun first => first.level < parent.level ∨
    first.level = parent.level ∧
      (parent.isLeading = true → OperatorForm.fuses parent.value first.value = false)) text

theorem Placed.parenthesized {form? : Option OperatorForm} (h : lang.Told form? text values) :
    lang.Placed parent (parenthesized text) ("(" :: values ++ [")"]) :=
  ⟨h.lexes.parenthesized, .parenthesized text⟩

/-- Grouping looks at what an operand is written with, and leaves nothing that fuses. -/
theorem Told.placed {form? : Option OperatorForm} (h : lang.Told form? text values) {side : Side}
    (hbare : ∀ form ∈ form?, parent.mustGroup form side = false) :
    lang.Placed parent text values := by
  refine ⟨h.lexes, h.leads.mono ?_⟩
  rintro first hprefix ⟨form, hform, hfirst⟩
  have hungrouped := hbare form hform
  have hle := OperatorForm.level_le_of_not_mustGroup hungrouped
  rcases hfirst with rfl | hlt
  · rcases Nat.lt_or_eq_of_le hle with hlt | heq
    · exact .inl hlt
    · refine .inr ⟨heq, fun hleading => ?_⟩
      unfold OperatorForm.mustGroup at hungrouped
      rw [if_neg (by simp [heq])] at hungrouped
      cases hfuses : OperatorForm.fuses parent.value form.value with
      | false => rfl
      | true => simp [hleading, hprefix.2.1, hfuses] at hungrouped
  · exact .inl (Nat.lt_of_lt_of_le hlt hle)

/-- What stands first in a text is looser than what the text is written with. -/
theorem Placed.leads_append (h : lang.Placed parent text values)
    (hlevel : parent.level ≠ lang.preLevel) (more : String) :
    lang.Leads (fun first => ∃ form ∈ some parent, form = first ∨ first.level < form.level)
      (text ++ more) := by
  refine (h.leads.mono fun first hprefix hallowed => ⟨parent, rfl, .inr ?_⟩).append more
  rcases hallowed with hlt | ⟨heq, -⟩
  · exact hlt
  · exact absurd (heq.symm.trans hprefix.level_eq) hlevel

/-! ## Each operator -/

theorem Told.ident {name : String} (h : isIdentifier name = true) :
    lang.Told none name [name] := by
  refine ⟨.ident h, ?_⟩
  unfold isIdentifier at h
  cases hname : name.toList with
  | nil => simp [hname] at h
  | cons c rest =>
    simp only [hname, Bool.and_eq_true, Bool.or_eq_true] at h
    have hchar : isNameChar c = true := by rcases h.1 with h | h <;> simp [isNameChar, h]
    have hsymbol : isSymbol c = false := by
      rw [← Bool.not_eq_true]
      intro hsymbol
      rw [not_isNameChar_of_isSymbol hsymbol] at hchar
      cases hchar
    exact .of_not_isSymbol (by rw [hname]; rfl) hsymbol

variable {leftText centerText rightText : String} {lefts centers rights : List String}

theorem Placed.infix (hl : lang.Placed form leftText lefts) (hr : lang.Placed form rightText rights)
    (hmem : form ∈ lang.leafForms) (hlevel : form.level ≠ lang.preLevel) :
    lang.Told (some form) (leftText ++ " " ++ form.value ++ " " ++ rightText)
      (lefts ++ form.value :: rights) := by
  refine ⟨hl.lexes.spaced (isSpaced_of_mem hmem) hr.lexes, ?_⟩
  simp only [String.append_assoc]
  exact hl.leads_append hlevel _

theorem Placed.ternary (hl : lang.Placed lang.operators.ternary.1 leftText lefts)
    (hc : lang.Placed lang.operators.ternary.1 centerText centers)
    (hr : lang.Placed lang.operators.ternary.1 rightText rights) :
    lang.Told (some lang.operators.ternary.1)
      (leftText ++ " " ++ lang.operators.ternary.1.value ++ " " ++ centerText ++ " " ++
        lang.operators.ternary.2.value ++ " " ++ rightText)
      (lefts ++ lang.operators.ternary.1.value ::
        (centers ++ lang.operators.ternary.2.value :: rights)) := by
  have hfirst : lang.operators.ternary.1 ∈ lang.leafForms := by simp [leafForms]
  have hsecond : lang.operators.ternary.2 ∈ lang.leafForms := by simp [leafForms]
  have hlexes := (hl.lexes.spaced (isSpaced_of_mem hfirst) hc.lexes).spaced
    (isSpaced_of_mem hsecond) hr.lexes
  rw [List.append_assoc, List.cons_append] at hlexes
  refine ⟨hlexes, ?_⟩
  simp only [String.append_assoc]
  exact hl.leads_append (ternary_level_ne lang) _

/-- A step operator after its operand. -/
theorem Placed.post {op : UnaryOp} (h : lang.Placed form text values)
    (hform : lang.operators.unary op = some form) (hpost : op.isPost = true) :
    lang.Told (some form) (text ++ form.value) (values ++ [form.value]) := by
  have hall := holds_of_table (p := fun op form => !op.isPost ||
    (form.value == "++" || form.value == "--") &&
      !lang.goesOn form.value.toList '+' && !lang.goesOn form.value.toList '-')
    op.mem_all hform (by cases lang <;> decide)
  rw [hpost] at hall
  simp only [Bool.not_true, Bool.false_or, Bool.and_eq_true, Bool.or_eq_true, beq_iff_eq,
    Bool.not_eq_true'] at hall
  obtain ⟨⟨hvalue, hplus⟩, hminus⟩ := hall
  refine ⟨h.lexes.stepped hvalue (mem_spellings (unary_mem_leafForms hform)) ?_,
    h.leads_append (post_level_ne hform hpost) _⟩
  rintro c (rfl | rfl)
  · exact hplus
  · exact hminus

/-- An operator before its operand; one that is a word is set off by a blank. -/
theorem Placed.pre {op : UnaryOp} (h : lang.Placed form text values)
    (hform : lang.operators.unary op = some form) (hpre : op.isPost = false) :
    lang.Told (some form)
      (form.value ++ (if form.value.toList.getLast?.any Text.isLetter then " " else "") ++ text)
      (form.value :: values) := by
  have hmem := unary_mem_leafForms hform
  have hlead : form.isLeading = true := by rw [isLeading_unary hform, hpre]; rfl
  have hall := holds_of_table (p := fun _ form => !form.value.toList.isEmpty &&
    form.value.toList.getLast?.any Text.isLetter != form.value.toList.head?.any isSymbol)
    op.mem_all hform (by cases lang <;> decide)
  rw [Bool.and_eq_true, bne_iff_ne, Bool.not_eq_true', ← Bool.not_eq_true, List.isEmpty_iff]
    at hall
  obtain ⟨hne, hkind⟩ := hall
  obtain ⟨c, rest, hvalue⟩ := List.exists_cons_of_ne_nil hne
  have hhead : form.value.toList.head? = some c := by rw [hvalue]; rfl
  cases hsymbol : form.value.toList.head?.any isSymbol with
  | false =>
    rw [hsymbol, ne_eq, Bool.not_eq_false] at hkind
    rw [if_pos hkind]
    refine ⟨h.lexes.worded (isSpaced_of_mem hmem), ?_⟩
    rw [hhead] at hsymbol
    simp only [String.append_assoc]
    exact (Leads.of_not_isSymbol hhead hsymbol).append _
  | true =>
    rw [hsymbol, ne_eq, Bool.not_eq_true] at hkind
    rw [hkind, if_neg (by simp), String.append_empty]
    have hprefix : lang.IsPrefix form := ⟨⟨op, hform⟩, hlead, hsymbol⟩
    have hsymbols := all_isSymbol_of_mem (mem_spellings hmem) hsymbol
    refine ⟨h.lexes.led (mem_spellings hmem) hne hsymbols h.leads.ne_nil ?_, ?_⟩
    · obtain ⟨d, hd, hcases⟩ := h.leads
      intro e he
      obtain rfl : d = e := Option.some.inj (hd.symm.trans he)
      rcases hcases with hnot | ⟨first, hfirst, hstart, hallowed⟩
      · exact goesOn_of_not_isSymbol hsymbol hnot
      · have hlevel : first.level = form.level := hfirst.level_eq.trans hprefix.level_eq.symm
        rcases hallowed with hlt | ⟨-, hfuses⟩
        · exact absurd hlevel (Nat.ne_of_lt hlt)
        · exact goesOn_of_not_fuses hprefix hfirst (hfuses hlead) d hstart
    · have hleads : lang.Leads (fun first => ∃ found ∈ some form, found = first ∨
          first.level < found.level) form.value :=
        ⟨c, hhead, .inr ⟨form, hprefix, hhead, form, rfl, .inl rfl⟩⟩
      exact hleads.append text

end Language

/-! ## Expressions of names and operators -/

/-- A name, an operator with its operands or a group. -/
def Expr.isOperation : Expr → Bool
  | .ident name => Language.isIdentifier name
  | .binary .. | .unary .. | .paren _ | .ternary .. => true
  | _ => false

/-- No language writes such an expression in another way than its tokens. -/
theorem Arena.Throughout.alike {arena : Arena} {id : NodeId}
    (h : arena.Throughout (fun e => e.isOperation = true) id) (lang : Language) :
    arena.Throughout (lang.Alike arena) id := by
  induction h with
  | @intro id e found here below types ih =>
    refine .intro found ?_ ih types
    cases e with
    | binary op left right =>
      have hne : ∀ child ∈ (Expr.binary op left right).children, child.field ≠ "type" →
          arena.expr child.id ≠ .ok .null := by
        intro child hchild htype hnull
        exact absurd ((below child hchild htype).of_expr hnull).1 (by simp [Expr.isOperation])
      refine fun _ _ => ⟨hne ⟨left, "left"⟩ (by simp [Expr.children]) (by simp),
        hne ⟨right, "right"⟩ (by simp [Expr.children]) (by simp)⟩
    | ident _ | unary _ _ | paren _ | ternary _ _ _ => trivial
    | _ => cases here

namespace View

variable {view : View} {below : NodeId → Render String} {pieces : NodeId → Piece}

/-- The text of an operand, given that of the expression. -/
theorem matches_operand {child : NodeId} {e : Expr} (he : view.arena.expr child = .ok e)
    (h : Render.Matches (view.lang.Told (view.lang.formOf? e)) (below child) (pieces child))
    (parent : OperatorForm) (side : Side) :
    Render.Matches (view.lang.Placed parent) (Site.operand ⟨view, below⟩ parent child side)
      (Linear.operand ⟨view.lang, view.arena, pieces⟩ parent child side) := by
  refine h.operand view parent side (fun hbare text values htold => ?_)
    fun text values htold => .parenthesized htold
  have hungrouped : ∀ form ∈ view.lang.formOf? e, parent.mustGroup form side = false := by
    intro form hform
    rw [Language.wraps, Language.exprForm?, he] at hbare
    change view.lang.formOf? e = some form at hform
    simpa [bind, Except.bind, pure, Except.pure, hform] using hbare
  exact htold.placed hungrouped

/-- By depth: the text of an expression is as told if those of the expressions below it are. -/
theorem exprTo_told (hkeep : view.lang = .python → view.isOn .keepComparisons = true) :
    ∀ (depth : Nat) (id : NodeId) (e : Expr),
    view.arena.Throughout (fun e => e.isOperation = true) id → view.arena.expr id = .ok e →
    Render.Matches (view.lang.Told (view.lang.formOf? e)) (view.exprTo depth id)
      (Linear.exprTo view.lang view.arena depth id)
  | 0, _, _, _, _ => nofun
  | depth + 1, id, e, h, he => by
    obtain ⟨hoperation, hchildren⟩ := h.of_expr he
    rw [exprTo_succ he, Linear.exprTo_succ he]
    have hbelow : ∀ child ∈ e.children, child.field ≠ "type" → ∀ parent side,
        Render.Matches (view.lang.Placed parent)
          (Site.operand ⟨view, view.exprTo depth⟩ parent child.id side)
          (Linear.operand ⟨view.lang, view.arena, Linear.exprTo view.lang view.arena depth⟩ parent
            child.id side) := by
      intro child hchild htype
      have hthere := hchildren child hchild htype
      obtain ⟨inner, hinner⟩ := hthere.exists_expr
      exact matches_operand hinner (exprTo_told hkeep depth child.id inner hthere hinner)
    cases e with
    | ident name =>
      intro scope start tokens ht
      cases ht
      exact ⟨name, rfl, .ident hoperation⟩
    | binary op left right =>
      refine .binary hkeep (h.alike view.lang) he fun form hform => ?_
      rw [Language.formOf?, hform]
      exact .between (hbelow ⟨left, "left"⟩ (by simp [Expr.children]) (by simp) form .left)
        (hbelow ⟨right, "right"⟩ (by simp [Expr.children]) (by simp) form .right)
        fun _ _ _ _ hl hr =>
          hl.infix hr (Language.binary_mem_leafForms hform) (Language.binary_level_ne hform)
    | unary op operand =>
      have hplaced := hbelow ⟨operand, "operand"⟩ (by simp [Expr.children]) (by simp)
      refine .unaryExpr (.unary (fun form _ side => hplaced form side) ?_ ?_)
      · intro form hform hpost text values htext
        rw [Language.formOf?, hform]
        exact htext.post hform hpost
      · intro form hform hpre text values htext
        rw [Language.formOf?, hform]
        exact htext.pre hform hpre
    | ternary cond whenTrue whenFalse =>
      have hplaced : ∀ child, child = cond ∨ child = whenTrue ∨ child = whenFalse → ∀ side,
          Render.Matches (view.lang.Placed view.lang.operators.ternary.1)
            (Site.operand ⟨view, view.exprTo depth⟩ view.lang.operators.ternary.1 child side)
            (Linear.operand ⟨view.lang, view.arena, Linear.exprTo view.lang view.arena depth⟩
              view.lang.operators.ternary.1 child side) := by
        rintro child (rfl | rfl | rfl) side
        · exact hbelow ⟨_, "cond"⟩ (by simp [Expr.children]) (by simp) _ side
        · exact hbelow ⟨_, "then"⟩ (by simp [Expr.children]) (by simp) _ side
        · exact hbelow ⟨_, "otherwise"⟩ (by simp [Expr.children]) (by simp) _ side
      exact .ternary hplaced fun _ _ _ _ _ _ hl hc hr => hl.ternary hc hr
    | paren inner =>
      have hthere := hchildren ⟨inner, "inner"⟩ (by simp [Expr.children]) (by simp)
      obtain ⟨grouped, hgrouped⟩ := hthere.exists_expr
      exact .paren (exprTo_told hkeep depth inner grouped hthere hgrouped)
        fun text values htold => ⟨htold.lexes.parenthesized, .parenthesized text⟩
    | _ => cases hoperation

/-- **Operators do not run together.**  Where an expression of names, operators and groups has
tokens, it has a text, and splitting the text by longest match gives the words of the tokens. -/
theorem lex_expr (view : View) (id : NodeId) (scope : Scope) (tokens : Tokens)
    (hoperations : view.arena.Throughout (fun e => e.isOperation = true) id)
    (hkeep : view.lang = .python → view.isOn .keepComparisons = true)
    (htokens : view.lang.linearize view.arena id = .ok tokens) :
    ∃ text, view.expr id scope = .ok text scope ∧
      view.lang.lex text.toList = some (tokens.values.flatMap Text.words) := by
  obtain ⟨e, he⟩ := hoperations.exists_expr
  obtain ⟨text, htext, htold⟩ := exprTo_told hkeep _ id e hoperations he scope 0 _
    (Linear.exprTo_of_linearize he htokens)
  exact ⟨text, htext, htold.lexes.lex_eq⟩

/-- `a - -(-b++)`: the second minus would run together with the third one, and is grouped. -/
theorem lex_expr_minus :
    let arena : Arena := ⟨#[.expr (.ident "a"), .expr (.ident "b"), .expr (.unary .postInc ⟨1⟩),
      .expr (.unary .neg ⟨2⟩), .expr (.unary .neg ⟨3⟩), .expr (.binary .sub ⟨0⟩ ⟨4⟩)]⟩
    let view : View := ⟨⟨arena, ⟨5⟩⟩, .cpp, {}⟩
    ∃ tokens text, Language.cpp.linearize arena ⟨5⟩ = .ok tokens ∧
      tokens.values = ["a", "-", "-", "(", "-", "b", "++", ")"] ∧
      view.expr ⟨5⟩ {} = .ok text {} ∧
      Language.cpp.lex text.toList = some (tokens.values.flatMap Text.words) := by
  intro arena view
  have hleaf : ∀ (id : NodeId) (name : String), arena.expr id = .ok (.ident name) →
      Language.isIdentifier name = true →
      arena.Throughout (fun e => e.isOperation = true) id := fun id name he hname =>
    .intro he hname (by simp [Expr.children]) (by simp [Expr.children])
  have hunary : ∀ (id operand : NodeId) (op : UnaryOp), arena.expr id = .ok (.unary op operand) →
      arena.Throughout (fun e => e.isOperation = true) operand →
      arena.Throughout (fun e => e.isOperation = true) id := fun id operand op he hoperand =>
    .intro he rfl (by simp [Expr.children, hoperand]) (by simp [Expr.children])
  have hstep := hunary ⟨2⟩ ⟨1⟩ .postInc rfl (hleaf ⟨1⟩ "b" rfl (by decide))
  have hright := hunary ⟨4⟩ ⟨3⟩ .neg rfl (hunary ⟨3⟩ ⟨2⟩ .neg rfl hstep)
  have hleft := hleaf ⟨0⟩ "a" rfl (by decide)
  have hsub : arena.Throughout (fun e => e.isOperation = true) ⟨5⟩ :=
    .intro (e := .binary .sub ⟨0⟩ ⟨4⟩) rfl rfl (by simp [Expr.children, hleft, hright])
      (by simp [Expr.children])
  obtain ⟨text, htext, hlex⟩ := lex_expr view ⟨5⟩ {} _ hsub nofun rfl
  exact ⟨_, text, rfl, rfl, htext, hlex⟩

end View

end Interlingua
