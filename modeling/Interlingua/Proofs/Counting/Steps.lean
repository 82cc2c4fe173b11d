import Interlingua.Proofs.Counting.Headers
import Interlingua.Proofs.Surface.Python
import Interlingua.Proofs.Surface.Split
import Interlingua.Proofs.Token.NodeKinds

/-!
# Steps inside expressions

Python has no steps.  Inside an expression a step is written as an assignment in parentheses, whose
value is the new one; that of a step behind its operand is the old one.

* `Formula` — arithmetic of numbers, variables and steps; `Formula.eval` evaluates it from left to
  right, `Formula.early` moves all steps before their operands.
* `View.Reckons` — an expression is a formula; it is evaluated like one.
* `Python.evaluate` — what a reader of Python makes of a text: it is taken apart at its weakest
  operator, assignments are made, and parentheses are opened.
* `View.evaluate_text` — **the text of a formula means the formula with all steps before their
  operands**: the variables end up alike, and so does the value if no step stands behind its operand.
-/

namespace Interlingua

open Surface

/-! ## Formulas -/

/-- The operators of whole numbers. -/
inductive RingOp where
  | add
  | sub
  | mul
  deriving DecidableEq, Repr

namespace RingOp

def all : List RingOp := [.add, .sub, .mul]

def toBinary : RingOp → BinaryOp
  | .add => .add
  | .sub => .sub
  | .mul => .mul

def apply : RingOp → Int → Int → Int
  | .add, a, b => a + b
  | .sub, a, b => a - b
  | .mul, a, b => a * b

/-- How Python writes it. -/
def form : RingOp → OperatorForm
  | .add => .between "+" Python.addLevel .left
  | .sub => .between "-" Python.addLevel .left
  | .mul => .between "*" Python.mulLevel .left

theorem binary_toBinary (op : RingOp) : Python.binary op.toBinary = some op.form := by
  cases op <;> rfl

theorem form_mem_infixes (op : RingOp) : op.form ∈ Language.python.infixes := by
  have hform : Language.python.operators.binary op.toBinary = some op.form := op.binary_toBinary
  exact Language.binary_mem_infixes hform

theorem limit_form (op : RingOp) :
    op.form.limit .left = op.form.level ∧ op.form.limit .right = op.form.level - 1 := by
  cases op <;> decide

theorem symbol_toBinary (op : RingOp) : op.toBinary.symbol = op.form.value := by
  cases op <;> rfl

theorem words_form (op : RingOp) : op.form.words = [op.form.value.toList] := by
  cases op <;> decide

/-- The operator that a word is. -/
def ofWord? (word : List Char) : Option RingOp := all.find? (·.form.value.toList = word)

theorem ofWord?_value (op : RingOp) : ofWord? op.form.value.toList = some op := by
  cases op <;> decide

end RingOp

/-- The step before its operand that does the same. -/
def UnaryOp.early : UnaryOp → UnaryOp
  | .postInc => .preInc
  | .postDec => .preDec
  | op => op

/-- Arithmetic of numbers, variables and steps of variables. -/
inductive Formula where
  | number (value : Int)
  | ident (name : String)
  | binary (op : RingOp) (left right : Formula)
  | step (op : UnaryOp) (name : String)
  deriving DecidableEq, Repr

namespace Formula

/-- The value of a formula, evaluated from left to right, and the store it leaves. -/
def eval : Formula → Store → Int × Store
  | .number value, s => (value, s)
  | .ident name, s => (s name, s)
  | .binary op left right, s =>
    let leftResult := left.eval s
    let rightResult := right.eval leftResult.2
    (op.apply leftResult.1 rightResult.1, rightResult.2)
  | .step op name, s =>
    let next := s name + op.stride
    (if op.isPost then s name else next, s.set name next)

/-- The formula with all steps before their operands. -/
def early : Formula → Formula
  | .binary op left right => .binary op left.early right.early
  | .step op name => .step op.early name
  | formula => formula

/-- No step stands behind its operand. -/
def isEarly : Formula → Bool
  | .binary _ left right => left.isEarly && right.isEarly
  | .step op _ => !op.isPost
  | _ => true

theorem stride_early (op : UnaryOp) : op.early.stride = op.stride := by cases op <;> rfl

/-- **Where the steps stand makes no difference to the variables.** -/
theorem eval_early_store (formula : Formula) (s : Store) :
    (formula.early.eval s).2 = (formula.eval s).2 := by
  induction formula generalizing s with
  | number value => rfl
  | ident name => rfl
  | binary op left right ihl ihr =>
    simp only [early, eval]
    rw [ihr, ihl]
  | step op name =>
    simp only [early, eval]
    rw [stride_early]

theorem early_of_isEarly {formula : Formula} (h : formula.isEarly = true) :
    formula.early = formula := by
  induction formula with
  | number value => rfl
  | ident name => rfl
  | binary op left right ihl ihr =>
    simp only [isEarly, Bool.and_eq_true] at h
    rw [early, ihl h.1, ihr h.2]
  | step op name => cases op <;> cases h <;> rfl

end Formula

/-! ## Expressions that are formulas -/

/-- An expression is a formula, each step of which stands inside another expression. -/
inductive View.Reckons (view : View) : NodeId → Formula → Prop
  | number {id : NodeId} {value : Int} (he : view.arena.expr id = .ok (.int value)) :
      view.Reckons id (.number value)
  | ident {id : NodeId} {name : String} (he : view.arena.expr id = .ok (.ident name))
      (hname : view.lang.isName name = true) : view.Reckons id (.ident name)
  | binary {id left right : NodeId} {op : RingOp} {leftFormula rightFormula : Formula}
      (he : view.arena.expr id = .ok (.binary op.toBinary left right))
      (hl : view.Reckons left leftFormula) (hr : view.Reckons right rightFormula) :
      view.Reckons id (.binary op leftFormula rightFormula)
  | step {id operand : NodeId} {op : UnaryOp} {name : String}
      (he : view.arena.expr id = .ok (.unary op operand)) (hop : op.isStep = true)
      (hoperand : view.arena.expr operand = .ok (.ident name))
      (hname : view.lang.isName name = true)
      (hinside : Python.isStatement view id = .ok false) : view.Reckons id (.step op name)

namespace View.Reckons

variable {view : View} {id : NodeId} {formula : Formula}

theorem grounded (h : view.Reckons id formula) : view.arena.Grounded id := by
  induction h with
  | number he => exact .intro (Arena.node_of_expr he) (by simp [Node.children, Expr.children])
  | ident he => exact .intro (Arena.node_of_expr he) (by simp [Node.children, Expr.children])
  | binary he _ _ ihl ihr =>
    exact .intro (Arena.node_of_expr he) (by simp [Node.children, Expr.children, ihl, ihr])
  | step he _ hoperand =>
    have hname := Arena.Grounded.intro (Arena.node_of_expr hoperand)
      (by simp [Node.children, Expr.children])
    exact .intro (Arena.node_of_expr he) (by simp [Node.children, Expr.children, hname])

/-- **An expression is evaluated like the formula that it is.** -/
theorem eval_eq (h : view.Reckons id formula) {world : World}
    (hmul : ∀ a b, world.operator .mul a b = some (a * b)) (s : Store) :
    world.eval view.arena id s = some (formula.eval s) := by
  have hgrounded := h.grounded
  induction h generalizing s with
  | number he =>
    rw [World.eval_eq hgrounded he]
    rfl
  | ident he =>
    rw [World.eval_eq hgrounded he]
    rfl
  | @binary _ _ _ op _ _ he hl hr ihl ihr =>
    have hsettled : ∀ a, op.toBinary.settled? a = none := fun a => by cases op <;> rfl
    have happly : ∀ a b, world.binary op.toBinary a b = some (op.apply a b) := fun a b => by
      cases op with
      | mul => exact hmul a b
      | _ => rfl
    rw [World.eval_eq hgrounded he]
    simp only [World.layer, ihl _ hl.grounded, ihr _ hr.grounded, hsettled, happly, Formula.eval,
      Option.bind_eq_bind, Option.bind_some, Option.pure_def]
  | step he hop hoperand =>
    rw [World.eval_eq hgrounded he]
    simp only [World.layer, hop, hoperand, Formula.eval, if_true]

end View.Reckons

/-! ## Reading a text -/

namespace Python

/-- The value of a variable or a number. -/
def atom? (word : List Char) (s : Store) : Option Int :=
  match Switch.readNumeral? word with
  | some value => some value
  | none =>
    if Language.python.isName (String.ofList word) then some (s (String.ofList word)) else none

/-- The value of a text given by its words, and the store it leaves; parentheses and operators are
nested at most as deep as the given depth. -/
def evaluateTo : Nat → List (List Char) → Store → Option (Int × Store)
  | 0, _, _ => none
  | depth + 1, words, s =>
    match Language.python.outermost? words with
    | some (before, operator, after) =>
      if operator = walrus.value.toList then
        match before with
        | [name] => do
          let (value, s) ← evaluateTo depth after s
          return (value, s.set (String.ofList name) value)
        | _ => none
      else do
        let op ← RingOp.ofWord? operator
        let (a, s) ← evaluateTo depth before s
        let (b, s) ← evaluateTo depth after s
        return (op.apply a b, s)
    | none =>
      match words with
      | [word] =>
        if face word = ['(', ')'] then
          evaluateTo depth (outerWords (String.ofList word.tail.dropLast)) s
        else (atom? word s).map (·, s)
      | _ => none

theorem evaluateTo_succ (depth : Nat) (words : List (List Char)) (s : Store) :
    evaluateTo (depth + 1) words s =
      match Language.python.outermost? words with
      | some (before, operator, after) =>
        if operator = walrus.value.toList then
          match before with
          | [name] => do
            let (value, s) ← evaluateTo depth after s
            return (value, s.set (String.ofList name) value)
          | _ => none
        else do
          let op ← RingOp.ofWord? operator
          let (a, s) ← evaluateTo depth before s
          let (b, s) ← evaluateTo depth after s
          return (op.apply a b, s)
      | none =>
        match words with
        | [word] =>
          if face word = ['(', ')'] then
            evaluateTo depth (outerWords (String.ofList word.tail.dropLast)) s
          else (atom? word s).map (·, s)
        | _ => none := rfl

/-- The value of a text and the store it leaves. -/
def evaluate (text : String) (s : Store) : Option (Int × Store) :=
  evaluateTo (text.length + 1) (outerWords text) s

/-- A text is read as a formula. -/
def Spells (text : String) (formula : Formula) : Prop :=
  ∀ depth, text.length < depth → ∀ s, evaluateTo depth (outerWords text) s = some (formula.eval s)

theorem Spells.evaluate {text : String} {formula : Formula} (h : Spells text formula) (s : Store) :
    evaluate text s = some (formula.eval s) := h _ (Nat.lt_succ_self _) s

variable {text more : String} {formula other : Formula}

/-- Names hold neither blanks nor brackets. -/
theorem not_mem_name {lang : Language} {name : String} (h : lang.isName name = true) :
    ' ' ∉ name.toList ∧ '(' ∉ name.toList := by
  simp only [Language.isName, Bool.and_eq_true] at h
  obtain ⟨hchars, -⟩ := Language.isIdentifier_chars h.1
  have hplain := fun c hc => isPlain_of_isNameChar (List.all_eq_true.1 hchars c hc)
  refine ⟨fun hmem => (hplain _ hmem).2.1 rfl, fun hmem => ?_⟩
  exact absurd (hplain _ hmem).1 (by decide)

theorem readNumeral?_name {lang : Language} {name : String} (h : lang.isName name = true) :
    Switch.readNumeral? name.toList = none := by
  simp only [Language.isName, Bool.and_eq_true] at h
  obtain ⟨first, rest, hchars, hfirst⟩ : ∃ first rest, name.toList = first :: rest ∧
      (Text.isLetter first || first == '_') = true := by
    have hident := h.1
    unfold Language.isIdentifier at hident
    split at hident
    · cases hident
    · rename_i first rest hchars
      exact ⟨first, rest, hchars, (Bool.and_eq_true_iff.1 hident).1⟩
  have hdigit : first.isDigit = false := by
    by_contra hdigit
    rw [Bool.not_eq_false] at hdigit
    rw [Language.isLetter_of_isDigit hdigit, Bool.false_or, beq_iff_eq] at hfirst
    subst hfirst
    exact absurd hdigit (by decide)
  rw [hchars]
  unfold Switch.readNumeral?
  split
  · rename_i heq
    cases heq
    exact absurd hfirst (by decide)
  · simp [Text.readDigits?, hdigit]

/-- A word that is no operator is a number or a name. -/
theorem evaluateTo_word {depth : Nat} {word : List Char} {value : Int} {s : Store}
    (hweight : Language.python.weight word = 0) (hface : face word ≠ ['(', ')'])
    (hatom : atom? word s = some value) : evaluateTo (depth + 1) [word] s = some (value, s) := by
  have hnone : Language.python.outermost? [word] = none :=
    Language.outermost?_eq_none (by simpa using hweight)
  simp only [evaluateTo_succ, hnone, if_neg hface, hatom, Option.map_some]

namespace Spells

theorem of_word (hshows : Shows .python 0 text) (hblank : ' ' ∉ text.toList)
    (hround : '(' ∉ text.toList)
    (hatom : ∀ s, atom? text.toList s = some (formula.eval s).1 ∧ (formula.eval s).2 = s) :
    Spells text formula := by
  intro depth hdepth s
  obtain ⟨depth, rfl⟩ : ∃ less, depth = less + 1 := ⟨depth - 1, by omega⟩
  obtain ⟨hvalue, hstore⟩ := hatom s
  have hsub : ∀ {c}, c ∉ text.toList → c ∉ surface text := fun hc hmem =>
    hc (Mode.mem_of_mem_surface hmem)
  have hwords := outerWords_eq_singleton (hsub hblank)
  have hweight := hshows.weight_le text.toList (by simp [hwords])
  have hface : face text.toList ≠ ['(', ')'] := by
    intro heq
    have hmem : '(' ∈ face text.toList := by simp [heq]
    exact hsub hround hmem
  rw [hwords, evaluateTo_word (Nat.le_zero.1 hweight) hface hvalue]
  exact congrArg some (Prod.ext rfl hstore.symm)

theorem number (value : Int) : Spells (Text.numeral value) (.number value) := by
  have hchars : (Text.numeral value).toList = Text.numeralChars value := String.toList_ofList
  refine .of_word (.numeral value) ?_ ?_ fun s => ⟨?_, rfl⟩
  · rw [hchars]
    exact Switch.not_mem_numeralChars (by decide) (by decide) value
  · rw [hchars]
    exact Switch.not_mem_numeralChars (by decide) (by decide) value
  · rw [atom?, hchars, Switch.readNumeral?_numeralChars]
    rfl

theorem ident {name : String} (h : Language.python.isName name = true) :
    Spells name (.ident name) := by
  obtain ⟨hblank, hround⟩ := not_mem_name h
  refine .of_word (.name h) hblank hround fun s => ⟨?_, rfl⟩
  rw [atom?, readNumeral?_name h]
  simp [h, Formula.eval]

/-- Parentheses are opened. -/
theorem grouped {shown : List Char} (hneat : Neat AroundCode text.toList shown)
    (h : Spells text formula) : Spells (parenthesized text) formula := by
  intro depth hdepth s
  have hlength : (parenthesized text).length = 1 + text.length + 1 := by
    rw [parenthesized, String.length_append, String.length_append]
    rfl
  obtain ⟨depth, rfl⟩ : ∃ less, depth = less + 1 := ⟨depth - 1, by omega⟩
  have hface := surface_parenthesized hneat
  have hblank : ' ' ∉ surface (parenthesized text) := by simp [hface]
  have hwords := outerWords_eq_singleton hblank
  have hshows : Shows .python 0 (parenthesized text) := .grouped hneat
  have hweight := hshows.weight_le (parenthesized text).toList (by simp [hwords])
  have hnone : Language.python.outermost? [(parenthesized text).toList] = none :=
    Language.outermost?_eq_none (by simpa using hweight)
  have hinner : (parenthesized text).toList.tail.dropLast = text.toList := by
    simp [parenthesized]
  rw [hwords]
  simp only [evaluateTo_succ, hnone, hinner, String.ofList_toList]
  exact (if_pos hface).trans (h depth (by omega) s)

theorem between {op : RingOp} (hl : Shows .python op.form.level text)
    (hr : Shows .python (op.form.level - 1) more) (h : Spells text formula)
    (h' : Spells more other) :
    Spells (text ++ " " ++ op.form.value ++ " " ++ more) (.binary op formula other) := by
  intro depth hdepth s
  have hblank : " ".length = 1 := rfl
  simp only [String.length_append, hblank] at hdepth
  obtain ⟨depth, rfl⟩ : ∃ less, depth = less + 1 := ⟨depth - 1, by omega⟩
  have hleft := h depth (by omega) s
  have hright := h' depth (by omega) (formula.eval s).2
  have hsplit := Shows.outermost?_between op.form_mem_infixes op.words_form hl hr
  have hother : op.form.value.toList ≠ walrus.value.toList := by cases op <;> decide
  simp only [evaluateTo_succ, hsplit, if_neg hother, RingOp.ofWord?_value, hleft, hright,
    Option.bind_eq_bind, Option.bind_some, Option.pure_def, Formula.eval]

/-- An assignment to a variable that was changed by a number is a step before it. -/
theorem assigned {name : String} (hname : Language.python.isName name = true) {op : UnaryOp}
    {ring : RingOp} (hring : ∀ a, ring.apply a 1 = a + op.stride)
    (hshows : Shows .python (walrus.level - 1) text)
    (h : Spells text (.binary ring (.ident name) (.number 1))) :
    Spells (name ++ " " ++ walrus.value ++ " " ++ text) (.step op.early name) := by
  intro depth hdepth s
  have hblank : " ".length = 1 := rfl
  simp only [String.length_append, hblank] at hdepth
  obtain ⟨depth, rfl⟩ : ∃ less, depth = less + 1 := ⟨depth - 1, by omega⟩
  have hwalrus : walrus ∈ Language.python.infixes := by decide
  have hwords : walrus.words = [walrus.value.toList] := by decide
  have hsplit := Shows.outermost?_between hwalrus hwords (.name hname) hshows
  have htarget : outerWords name = [name.toList] :=
    outerWords_eq_singleton fun hmem => (not_mem_name hname).1 (Mode.mem_of_mem_surface hmem)
  have hsum := h depth (by omega) s
  have hpost : op.early.isPost = false := by cases op <;> rfl
  simp only [evaluateTo_succ, hsplit, htarget, hsum, if_true, Formula.eval, Option.bind_eq_bind,
    Option.bind_some, Option.pure_def, String.ofList_toList, Formula.stride_early, hpost,
    Bool.false_eq_true, if_false, hring]

/-- A step is written as an assignment in parentheses, whose value is the new one. -/
theorem step {name : String} (hname : Language.python.isName name = true) {op : UnaryOp}
    {ring : RingOp} (hring : ∀ a, ring.apply a 1 = a + op.stride) :
    Spells (parenthesized (name ++ " := " ++ name ++ " " ++ ring.form.value ++ " 1"))
      (.step op.early name) := by
  have hone : ∀ {bound}, Shows .python bound "1" := .numeral 1
  have hle : ring.form.level ≤ walrus.level - 1 := by cases ring <;> decide
  have hsum : Spells (name ++ " " ++ ring.form.value ++ " " ++ "1")
      (.binary ring (.ident name) (.number 1)) :=
    .between (.name hname) hone (.ident hname) (.number 1)
  have hshows : Shows .python (walrus.level - 1) (name ++ " " ++ ring.form.value ++ " " ++ "1") :=
    .between ring.form_mem_infixes hle (.name hname) hone
  have htext : name ++ " := " ++ name ++ " " ++ ring.form.value ++ " 1" =
      name ++ " " ++ walrus.value ++ " " ++ (name ++ " " ++ ring.form.value ++ " " ++ "1") := by
    simp [← String.toList_inj, walrus, OperatorForm.strictly, OperatorForm.between,
      OperatorForm.make]
  have hwalrus : walrus ∈ Language.python.infixes := by decide
  have hall : Shows .python walrus.level (name ++ " " ++ walrus.value ++ " " ++
      (name ++ " " ++ ring.form.value ++ " " ++ "1")) :=
    .between hwalrus (Nat.le_refl _) (.name hname) (hshows.mono (Nat.sub_le _ _))
  obtain ⟨shown, hneat⟩ := hall.neat
  rw [htext]
  exact grouped hneat (assigned hname hring hshows hsum)

end Spells

end Python

/-! ## The text of a formula -/

/-- What a site knows of an expression that is a formula: its text shows no operator weaker than its
own, and is read as the formula with all steps before their operands. -/
structure Site.Spelled (site : Site) (id : NodeId) (formula : Formula) (text : String) (e : Expr) :
    Prop where
  found : site.arena.expr id = .ok e
  solid : e ≠ .null
  below : site.below id = pure text
  shows : Shows .python (Language.python.boundOf e) text
  spells : Python.Spells text formula.early

namespace Site.Spelled

variable {site : Site} {id left right : NodeId} {formula leftFormula rightFormula : Formula}
  {text : String} {e leftExpr rightExpr : Expr}

theorem operand (h : site.Spelled id formula text e) (hlang : site.lang = .python)
    (parent : OperatorForm) (side : Side) :
    ∃ shown, site.operand parent id side = pure shown ∧ Shows .python (parent.limit side) shown ∧
      Python.Spells shown formula.early := by
  obtain ⟨wrapped, hwraps⟩ :
      ∃ wrapped, site.lang.wraps site.arena parent id side = .ok wrapped := by
    rw [Language.wraps, Language.exprForm?, h.found]
    cases hform : site.lang.formOf? e with
    | none => exact ⟨false, by simp [bind, Except.bind, pure, Except.pure, hform]⟩
    | some form =>
      exact ⟨parent.mustGroup form side, by simp [bind, Except.bind, pure, Except.pure, hform]⟩
  obtain ⟨face, hneat⟩ := h.shows.neat
  unfold Site.operand
  rw [h.below, pure_bind, hwraps]
  cases wrapped with
  | true => exact ⟨parenthesized text, rfl, .grouped hneat, h.spells.grouped hneat⟩
  | false =>
    rw [hlang] at hwraps
    exact ⟨text, rfl, h.shows.mono (Site.boundOf_le_limit h.found hwraps), h.spells⟩

/-- Between numbers, an operator has one form. -/
theorem binaryForm? (hl : site.Spelled left leftFormula text leftExpr)
    {rightText : String} (hr : site.Spelled right rightFormula rightText rightExpr) (op : RingOp) :
    Python.binaryForm? site op.toBinary left right = pure (some op.form) := by
  have hnull : ∀ {id e}, site.arena.expr id = .ok e → e ≠ .null →
      Python.isNull site.arena id = .ok false := by
    intro id e he hne
    rw [Python.isNull, he]
    cases e with
    | null => exact absurd rfl hne
    | _ => rfl
  unfold Python.binaryForm?
  rw [hnull hl.found hl.solid, hnull hr.found hr.solid]
  cases op <;> rfl

theorem binary (hlang : site.lang = .python) (hl : site.Spelled left leftFormula text leftExpr)
    {rightText : String} (hr : site.Spelled right rightFormula rightText rightExpr) (op : RingOp) :
    ∃ shown, Python.binaryExpr site op.toBinary left right = pure shown ∧
      Shows .python op.form.level shown ∧
      Python.Spells shown (Formula.binary op leftFormula rightFormula).early := by
  obtain ⟨hleft, hright⟩ := op.limit_form
  obtain ⟨first, hfirst, hfshows, hfspells⟩ := hl.operand hlang op.form .left
  obtain ⟨second, hsecond, hsshows, hsspells⟩ := hr.operand hlang op.form .right
  rw [hleft] at hfshows
  rw [hright] at hsshows
  have hinfixed : Python.binaryExpr site op.toBinary left right =
      Python.binaryExpr.infixed site op.toBinary left right := by cases op <;> rfl
  refine ⟨first ++ " " ++ op.form.value ++ " " ++ second, ?_, ?_, ?_⟩
  · rw [hinfixed, Python.binaryExpr.infixed, hl.binaryForm? hr, pure_bind]
    simp only [Site.between, hfirst, hsecond, pure_bind]
  · exact .between op.form_mem_infixes (Nat.le_refl _) hfshows (hsshows.mono (Nat.sub_le _ _))
  · exact .between hfshows hsshows hfspells hsspells

end Site.Spelled

namespace Python

/-- The operator with which a step changes its operand. -/
def stepRing (op : UnaryOp) : RingOp := if op.stride < 0 then .sub else .add

theorem apply_stepRing (op : UnaryOp) (a : Int) : (stepRing op).apply a 1 = a + op.stride := by
  cases op <;> rfl

/-- How a step of a name is written. -/
def stepText (op : UnaryOp) (name : String) : String :=
  parenthesized (name ++ " := " ++ name ++ " " ++ (stepRing op).form.value ++ " 1")

theorem unaryExpr_step {site : Site} {id operand : NodeId} {op : UnaryOp} {name : String}
    (hop : op.isStep = true) (hinside : isStatement site.view id = .ok false)
    (hoperand : site.arena.expr operand = .ok (.ident name))
    (hbelow : site.below operand = pure name) :
    unaryExpr site id op operand = pure (stepText op name) := by
  have hname : isName site.arena operand = .ok true := by
    rw [isName, hoperand]
    rfl
  unfold unaryExpr
  rw [hop, hbelow, hinside, hname]
  cases op <;> cases hop <;> rfl

theorem shows_stepText {name : String} (hname : Language.python.isName name = true) (op : UnaryOp)
    {bound : Nat} : Shows .python bound (stepText op name) := by
  have hring : (stepRing op).toBinary = .add ∨ (stepRing op).toBinary = .sub := by
    cases op <;> decide
  rw [stepText, ← RingOp.symbol_toBinary]
  exact shows_step rfl (.name hname) hring

end Python

namespace View

variable {view : View} {id : NodeId} {formula : Formula}

/-- **Each layer of a formula is read back.** -/
theorem exprTo_spelled (hlang : view.lang = .python) (h : view.Reckons id formula) :
    ∀ depth, view.arena.GroundedTo depth id →
      ∃ text e, Site.Spelled ⟨view, view.exprTo depth⟩ id formula text e := by
  induction h with
  | @number id value he =>
    intro depth hdepth
    obtain ⟨depth, rfl⟩ := hdepth.pos
    have htext : view.exprTo (depth + 1) id = pure (Text.numeral value) := exprTo_succ he
    exact ⟨_, _, he, by simp, htext, .numeral value, .number value⟩
  | @ident id name he hname =>
    intro depth hdepth
    obtain ⟨depth, rfl⟩ := hdepth.pos
    have htext : view.exprTo (depth + 1) id = pure name := exprTo_succ he
    rw [hlang] at hname
    exact ⟨_, _, he, by simp, htext, .name hname, .ident hname⟩
  | @binary id left right op leftFormula rightFormula he _ _ ihl ihr =>
    intro depth hdepth
    obtain ⟨depth, rfl⟩ := hdepth.pos
    obtain ⟨_, _, hl⟩ := ihl depth (hdepth.belowExpr he ⟨left, "left"⟩ (by simp [Expr.children]))
    obtain ⟨_, _, hr⟩ := ihr depth (hdepth.belowExpr he ⟨right, "right"⟩ (by simp [Expr.children]))
    have hsite : Site.lang ⟨view, view.exprTo depth⟩ = .python := hlang
    obtain ⟨text, htext, hshows, hspells⟩ := hl.binary hsite hr op
    have hbound : Language.python.boundOf (.binary op.toBinary left right) = op.form.level :=
      Language.boundOf_eq op.binary_toBinary
    have hall : view.exprTo (depth + 1) id = pure text := by
      rw [exprTo_succ he, hlang]
      exact htext
    exact ⟨_, _, he, by simp, hall, hbound ▸ hshows, hspells⟩
  | @step id operand op name he hop hoperand hname hinside =>
    intro depth hdepth
    obtain ⟨depth, rfl⟩ := hdepth.pos
    obtain ⟨less, rfl⟩ := (hdepth.belowExpr he ⟨operand, "operand"⟩ (by simp [Expr.children])).pos
    have htarget : view.exprTo (less + 1) operand = pure name := exprTo_succ hoperand
    have hall : view.exprTo (less + 1 + 1) id = pure (Python.stepText op name) := by
      rw [exprTo_succ he, hlang]
      exact Python.unaryExpr_step hop hinside hoperand htarget
    rw [hlang] at hname
    exact ⟨_, _, he, by simp, hall, Python.shows_stepText hname op,
      .step hname (Python.apply_stepRing op)⟩

/-- **The text of a formula means the formula with all steps before their operands.**  The variables
end up as the expression leaves them, and if no step stands behind its operand, the value is the
same as well. -/
theorem evaluate_text (hlang : view.lang = .python) (h : view.Reckons id formula) {world : World}
    (hmul : ∀ a b, world.operator .mul a b = some (a * b)) (s : Store) :
    ∃ text, (∀ scope, view.expr id scope = .ok text scope) ∧
      Python.evaluate text s = some (formula.early.eval s) ∧
      world.eval view.arena id s = some (formula.eval s) ∧
      (formula.early.eval s).2 = (formula.eval s).2 ∧
      (formula.isEarly = true → Python.evaluate text s = world.eval view.arena id s) := by
  obtain ⟨text, e, hspelled⟩ := exprTo_spelled hlang h _ h.grounded.to_depthBound
  have hrun : view.expr id = pure text := hspelled.below
  have hvalue := hspelled.spells.evaluate s
  have heval := h.eval_eq hmul s
  refine ⟨text, fun scope => by rw [hrun]; rfl, hvalue, heval, formula.eval_early_store s, ?_⟩
  intro hearly
  rw [hvalue, heval, Formula.early_of_isEarly hearly]

/-- `++x - x-- * 2`, which is -6 where `x` is 5: the text gives -4, and `x` is 5 again. -/
theorem evaluate_text_mixed :
    let arena : Arena := ⟨#[.expr (.ident "x"), .expr (.unary .preInc ⟨0⟩), .expr (.ident "x"),
      .expr (.unary .postDec ⟨2⟩), .expr (.int 2), .expr (.binary .mul ⟨3⟩ ⟨4⟩),
      .expr (.binary .sub ⟨1⟩ ⟨5⟩)]⟩
    let view : View := ⟨⟨arena, ⟨6⟩⟩, .python, {}⟩
    let formula : Formula := .binary .sub (.step .preInc "x")
      (.binary .mul (.step .postDec "x") (.number 2))
    let world : World := ⟨fun _ a b => some (a * b), fun _ _ => none, fun _ _ => none,
      fun _ => none, fun _ _ => none⟩
    let s : Store := fun _ => 5
    (view.expr ⟨6⟩ {} = .ok "(x := x + 1) - (x := x - 1) * 2" {} ∧ (formula.eval s).1 = -6 ∧
      (formula.early.eval s).1 = -4 ∧ (formula.eval s).2 "x" = 5) ∧
    ∃ text, (∀ scope, view.expr ⟨6⟩ scope = .ok text scope) ∧
      Python.evaluate text s = some (formula.early.eval s) ∧
      world.eval view.arena ⟨6⟩ s = some (formula.eval s) ∧
      (formula.early.eval s).2 = (formula.eval s).2 ∧
      (formula.isEarly = true → Python.evaluate text s = world.eval view.arena ⟨6⟩ s) := by
  intro arena view formula world s
  have hx : Language.python.isName "x" = true := by decide
  have hinside : Python.isStatement view ⟨1⟩ = .ok false ∧
      Python.isStatement view ⟨3⟩ = .ok false := by decide +revert
  have hfirst : view.Reckons ⟨1⟩ (.step .preInc "x") := .step rfl rfl rfl hx hinside.1
  have hlast : view.Reckons ⟨3⟩ (.step .postDec "x") := .step rfl rfl rfl hx hinside.2
  have hproduct : view.Reckons ⟨5⟩ (.binary .mul (.step .postDec "x") (.number 2)) :=
    .binary rfl hlast (.number rfl)
  have hformula : view.Reckons ⟨6⟩ formula := .binary rfl hfirst hproduct
  have hmul : ∀ a b, world.operator .mul a b = some (a * b) := fun a b => rfl
  refine ⟨⟨?_, ?_⟩, evaluate_text rfl hformula hmul s⟩
  · clear hmul hformula hproduct hlast hfirst hinside
    subst view arena
    rfl
  · simp [formula, s, Formula.eval, Formula.early, RingOp.apply, UnaryOp.early, UnaryOp.stride,
      UnaryOp.isPost]

/-- `x++ * 2` where `x` is 1 gives 2, and its text gives 4. -/
theorem evaluate_text_late :
    let arena : Arena := ⟨#[.expr (.ident "x"), .expr (.unary .postInc ⟨0⟩), .expr (.int 2),
      .expr (.binary .mul ⟨1⟩ ⟨2⟩)]⟩
    let view : View := ⟨⟨arena, ⟨3⟩⟩, .python, {}⟩
    let world : World := ⟨fun _ a b => some (a * b), fun _ _ => none, fun _ _ => none,
      fun _ => none, fun _ _ => none⟩
    let s : Store := fun _ => 1
    view.expr ⟨3⟩ {} = .ok "(x := x + 1) * 2" {} ∧
      (world.eval arena ⟨3⟩ s).map Prod.fst = some 2 ∧
      (Python.evaluate "(x := x + 1) * 2" s).map Prod.fst = some 4 := by
  intro arena view world s
  refine ⟨?_, ?_, ?_⟩
  · subst view arena
    rfl
  · decide +revert
  · decide

end View

end Interlingua
