import Interlingua.Proofs.Token.NodeKinds

/-!
# Syntax trees over spaced words

* `Sketch` — a syntax tree that carries the words of its leaves instead of places in a text;
  `Sketch.place` is the concrete syntax tree over a text that shows these words with a blank
  between any two.
* `Sketch.Reads` — whatever else the text holds, reading the placed tree gives the given tokens.
* `Sketch.Mirrors` — a sketch is read so inside every node that changes none of its leaves, and the
  tokens can be an operand.  `Sketch.Mirrors.grouped`, `.leading`, `.trailing`, `.between` and
  `.ternary` — what a node gives is what its children give, with the operands of its operator
  tagged.
-/

namespace Interlingua

open Text (bytes spread Shows)

/-- A leaf is read as the operator that it is in its parent, or else as what its text is. -/
theorem Concrete.read_leaf {lang : Language} {source : List Char} {parent field : Option String}
    {kind text : String} {offset start stop : Nat}
    (htext : (Text.slice? source start stop).map Text.trim = some text.toList) (hne : text ≠ "") :
    read lang source parent offset (.leaf kind start stop field) =
      [match parent.bind fun kind => lang.leafForm? text kind with
        | some form => .ofForm form
        | none => .plain text (lang.classify ⟨text, kind, parent, field⟩)] := by
  obtain ⟨part, hslice, htrim⟩ := Option.map_eq_some_iff.1 htext
  rw [Cst.leaf, read, List.isEmpty_nil, Bool.true_or, if_pos rfl, leafToken?]
  simp only [Cst.leaf, Cst.start, Cst.stop, Cst.kind, Cst.field, hslice, htrim, String.ofList_toList,
    String.isEmpty_iff, hne, if_false]
  cases parent.bind fun kind => lang.leafForm? text kind <;> rfl

/-- A syntax tree with the words of its leaves. -/
inductive Sketch where
  | leaf (kind : String) (field : Option String) (text : String)
  | branch (kind : String) (field : Option String) (children : List Sketch)

namespace Sketch

def field : Sketch → Option String
  | .leaf _ field _ => field
  | .branch _ field _ => field

mutual
/-- The words of the leaves from left to right. -/
def words : Sketch → List String
  | .leaf _ _ text => [text]
  | .branch _ _ children => wordsAll children

def wordsAll : List Sketch → List String
  | [] => []
  | child :: rest => child.words ++ wordsAll rest
end

@[simp] theorem words_leaf (kind : String) (field : Option String) (text : String) :
    (leaf kind field text).words = [text] := rfl

@[simp] theorem words_branch (kind : String) (field : Option String) (children : List Sketch) :
    (branch kind field children).words = wordsAll children := rfl

@[simp] theorem wordsAll_nil : wordsAll [] = [] := rfl

@[simp] theorem wordsAll_cons (child : Sketch) (rest : List Sketch) :
    wordsAll (child :: rest) = child.words ++ wordsAll rest := rfl

mutual
/-- The concrete syntax tree over a text that shows the words from a byte on. -/
def place : Sketch → Nat → Cst
  | .leaf kind field text, offset => .leaf kind offset (offset + bytes text.toList) field
  | .branch kind field children, offset => .branch kind (placeAll children offset) field

def placeAll : List Sketch → Nat → List Cst
  | [], _ => []
  | child :: rest, offset =>
    child.place offset :: placeAll rest (offset + bytes (spread child.words) + 1)
end

@[simp] theorem field_place (sketch : Sketch) (offset : Nat) :
    (sketch.place offset).field = sketch.field := by
  cases sketch <;> simp [place, field, Cst.leaf, Cst.branch, Cst.field]

/-! ## Reading a leaf -/

variable {lang : Language} {parent : Option String} {kind text : String} {place? : Option String}
  {start : Nat} {tokens : List Token}

/-- Whatever else the text holds, the sketch is read as tokens. -/
def Reads (lang : Language) (parent : Option String) (sketch : Sketch) (start : Nat)
    (tokens : List Token) : Prop :=
  ∀ source offset, Shows source offset sketch.words →
    Concrete.read lang source parent start (sketch.place offset) = tokens

theorem Reads.leaf (htrim : Text.trim text.toList = text.toList) (hne : text ≠ "") :
    Reads lang parent (.leaf kind place? text) start
      [match parent.bind fun kind => lang.leafForm? text kind with
        | some form => .ofForm form
        | none => .plain text (lang.classify ⟨text, kind, parent, place?⟩)] := by
  intro source offset hshows
  have hslice := hshows.slice?
  exact Concrete.read_leaf (by rw [hslice, Option.map_some, htrim]) hne

theorem Reads.plain {role : TokenKind} (htrim : Text.trim text.toList = text.toList)
    (hne : text ≠ "") (hform : (parent.bind fun kind => lang.leafForm? text kind) = none)
    (hrole : lang.classify ⟨text, kind, parent, place?⟩ = role) :
    Reads lang parent (.leaf kind place? text) start [.plain text role] := by
  have h : Reads lang parent (.leaf kind place? text) start _ := .leaf htrim hne
  rwa [hform, hrole] at h

/-- The leaf of an operator inside its node. -/
def operator (field : Option String) (form : OperatorForm) : Sketch :=
  .leaf form.value field form.value

@[simp] theorem words_operator (field : Option String) (form : OperatorForm) :
    (operator field form).words = [form.value] := rfl

theorem Reads.operator {form found : OperatorForm} (hmem : form ∈ lang.leafForms)
    (hfound : lang.leafForm? form.value kind = some found) :
    Reads lang (some kind) (Sketch.operator place? form) start [.ofForm found] := by
  have ⟨htrim, hne⟩ := Language.trim_leafForm hmem
  have h : Reads lang (some kind) (Sketch.operator place? form) start _ := .leaf htrim hne
  rwa [Option.bind_some, hfound] at h

end Sketch

namespace Concrete

variable {lang : Language} {kind : String} {start : Nat} {lefts centers rights tokens : List Token}
  {form : OperatorForm}

/-! ## Tagging operands -/

@[simp] theorem map_value_tagAll (operator : Nat) (side : Side) (tokens : List Token) :
    (Token.tagAll operator side tokens).map Token.value = tokens.map Token.value := by
  simp [Token.tagAll, Token.tagged]

@[simp] theorem tagAll_eq_nil (operator : Nat) (side : Side) (tokens : List Token) :
    Token.tagAll operator side tokens = [] ↔ tokens = [] := by
  simp [Token.tagAll]

/-- Tokens that can be an operand: more than nothing, and not just an operator. -/
structure IsOperand (tokens : List Token) : Prop where
  ne_nil : tokens ≠ []
  not_operator : ∀ token, tokens = [token] → token.isOperator = false

theorem IsOperand.isOperator (h : IsOperand tokens) (start : Nat) (side : Option Side) :
    Group.isOperator ⟨start, tokens, side⟩ = false := by
  unfold Group.isOperator
  split
  · rename_i token heq
    exact h.not_operator token heq
  · rfl

theorem IsOperand.isLoose (h : IsOperand tokens) (start : Nat) :
    Group.isLoose ⟨start, tokens, none⟩ = true := by
  have hempty : tokens.isEmpty = false := by simpa using h.ne_nil
  simp [Group.isLoose, h.isOperator, hempty]

theorem isOperator_ofForm (start : Nat) (side : Option Side) (form : OperatorForm) :
    Group.isOperator ⟨start, [.ofForm form], side⟩ = true := rfl

theorem isLoose_ofForm (start : Nat) (side : Option Side) (form : OperatorForm) :
    Group.isLoose ⟨start, [.ofForm form], side⟩ = false := by
  simp [Group.isLoose, isOperator_ofForm]

/-- Of two loose groups around an operator, the first is its left operand and the second its right
one. -/
theorem sideByOrder_between (start : Nat) (lefts rights : List Token) :
    let left : Group := ⟨start, lefts, none⟩
    let right : Group := ⟨start + lefts.length + 1, rights, none⟩
    sideByOrder (some .binary) (start + lefts.length) [left, right] left = some .left ∧
      sideByOrder (some .binary) (start + lefts.length) [left, right] right = some .right := by
  intro left right
  have hbefore : [left, right].filter (·.stop ≤ start + lefts.length) = [left] := by
    have hleft : left.stop ≤ start + lefts.length := Nat.le_refl _
    have hright : ¬ right.stop ≤ start + lefts.length := by
      show ¬ start + lefts.length + 1 + rights.length ≤ start + lefts.length
      omega
    simp [hleft, hright]
  have hafter : [left, right].find? (start + lefts.length < ·.start) = some right := by
    simp [left, right]
  constructor
  · simp [sideByOrder, hbefore]
  · have hne : start ≠ start + lefts.length + 1 := by omega
    simp [sideByOrder, hbefore, hafter, left, right, hne]

/-- Three loose groups are the operands of a ternary operator in their order. -/
theorem sideByOrder_ternary (operator : Nat) {left center right : Group}
    (hleft : left.start < center.start) (hright : center.start < right.start) :
    sideByOrder (some .ternary) operator [left, center, right] left = some .left ∧
      sideByOrder (some .ternary) operator [left, center, right] center = some .center ∧
      sideByOrder (some .ternary) operator [left, center, right] right = some .right := by
  have hcenter : (center.start == left.start) = false := by simp; omega
  have hright : (right.start == left.start) = false ∧ (right.start == center.start) = false := by
    simp
    omega
  simp [sideByOrder, List.lookup_cons, hcenter, hright]

/-- Operands that are told apart by their fields may be any tokens. -/
theorem tagOperands_named (start : Nat) (form : OperatorForm) :
    tagOperands lang kind
      [⟨start, lefts, some .left⟩, ⟨start + lefts.length, [.ofForm form], none⟩,
        ⟨start + lefts.length + 1, rights, some .right⟩] =
      Token.tagAll (start + lefts.length) .left lefts ++ .ofForm form ::
        Token.tagAll (start + lefts.length) .right rights := by
  simp [tagOperands, operatorAt?, isOperator_ofForm, isLoose_ofForm]

theorem tagOperands_between (start : Nat) (form : OperatorForm) (hnode : lang.OperatorNode kind .binary)
    (hsides : lang.FieldsOrOrder kind [.left, .right]) (hl : IsOperand lefts)
    (hr : IsOperand rights) :
    tagOperands lang kind
      [⟨start, lefts, lang.ownSide? kind .left⟩, ⟨start + lefts.length, [.ofForm form], none⟩,
        ⟨start + lefts.length + 1, rights, lang.ownSide? kind .right⟩] =
      Token.tagAll (start + lefts.length) .left lefts ++ .ofForm form ::
        Token.tagAll (start + lefts.length) .right rights := by
  rcases hsides with hfields | ⟨horder, hnone⟩
  · rw [hfields .left (by simp), hfields .right (by simp)]
    exact tagOperands_named start form
  · have hleft := hnone .left (by simp)
    have hright := hnone .right (by simp)
    have horder' := sideByOrder_between start lefts rights
    simp [tagOperands, operatorAt?, hleft, hright, isOperator_ofForm, isLoose_ofForm, horder,
      hl.isOperator, hl.isLoose, hr.isLoose, hnode.arity, horder']

theorem tagOperands_ternary (start : Nat) (form second : OperatorForm)
    (hnode : lang.OperatorNode kind .ternary)
    (hsides : lang.FieldsOrOrder kind [.left, .center, .right]) (hl : IsOperand lefts)
    (hc : IsOperand centers) (hr : IsOperand rights) :
    tagOperands lang kind
      [⟨start, lefts, lang.ownSide? kind .left⟩, ⟨start + lefts.length, [.ofForm form], none⟩,
        ⟨start + lefts.length + 1, centers, lang.ownSide? kind .center⟩,
        ⟨start + lefts.length + 1 + centers.length, [.ofForm second], none⟩,
        ⟨start + lefts.length + 1 + centers.length + 1, rights, lang.ownSide? kind .right⟩] =
      Token.tagAll (start + lefts.length) .left lefts ++ .ofForm form ::
        (Token.tagAll (start + lefts.length) .center centers ++ .ofForm second ::
          Token.tagAll (start + lefts.length) .right rights) := by
  rcases hsides with hfields | ⟨horder, hnone⟩
  · have hleft := hfields .left (by simp)
    have hcenter := hfields .center (by simp)
    have hright := hfields .right (by simp)
    simp [tagOperands, operatorAt?, hleft, hcenter, hright, isOperator_ofForm, isLoose_ofForm]
  · have hleft := hnone .left (by simp)
    have hcenter := hnone .center (by simp)
    have hright := hnone .right (by simp)
    let left : Group := ⟨start, lefts, none⟩
    let center : Group := ⟨start + lefts.length + 1, centers, none⟩
    let right : Group := ⟨start + lefts.length + 1 + centers.length + 1, rights, none⟩
    have hbefore : left.start < center.start := by
      show start < start + lefts.length + 1
      omega
    have hafter : center.start < right.start := by
      show start + lefts.length + 1 < start + lefts.length + 1 + centers.length + 1
      omega
    obtain ⟨hfirst, hmiddle, hlast⟩ := sideByOrder_ternary (start + lefts.length) hbefore hafter
    simp [tagOperands, operatorAt?, hleft, hcenter, hright, isOperator_ofForm, isLoose_ofForm,
      horder, hl.isOperator, hl.isLoose, hc.isLoose, hr.isLoose, hnode.arity]
    simp only [left, center, right] at hfirst hmiddle hlast
    simp [hfirst, hmiddle, hlast]

theorem tagUnary_leading (lang : Language) (form : OperatorForm) (h : tokens ≠ []) :
    tagUnary lang start (.ofForm form :: tokens) =
      .ofForm form :: Token.tagAll start .right tokens := by
  obtain ⟨token, rest, rfl⟩ := List.exists_cons_of_ne_nil h
  rfl

/-- An operator at the end is found if there is none at the start. -/
theorem tagUnary_trailing {before : OperatorForm} (h : tokens ≠ [])
    (hfirst : ∀ token ∈ tokens.head?, token.isOperator = false)
    (hvalue : before.value = form.value) (htrailing : lang.trailingForm? form.value = some form) :
    tagUnary lang start (tokens ++ [.ofForm before]) =
      Token.tagAll (start + tokens.length) .left tokens ++ [.ofForm form] := by
  obtain ⟨token, rest, rfl⟩ := List.exists_cons_of_ne_nil h
  have htoken : token.isOperator = false := hfirst token rfl
  have hread : afterOperand lang (.ofForm before) = .ofForm form := by
    simp [afterOperand, Token.ofForm, hvalue, htrailing]
  obtain ⟨next, more, hmore⟩ := List.exists_cons_of_ne_nil
    (List.append_ne_nil_of_right_ne_nil rest (List.cons_ne_nil (Token.ofForm before) []))
  rw [List.cons_append, hmore, tagUnary, htoken, ← hmore, ← List.cons_append,
    List.getLast?_concat, List.dropLast_concat]
  · have hlast : (Token.ofForm before).isOperator = true := rfl
    simp [hread, hlast]
  · intro h
    cases h

end Concrete

namespace Sketch

open Concrete (Group IsOperand)

variable {lang : Language} {parent field opField : Option String} {kind : String} {start : Nat}
  {sketch : Sketch} {tokens : List Token} {form : OperatorForm}

/-! ## Reading a node -/

/-- Children of a node are read as groups of tokens, one after another. -/
inductive ReadsAll (lang : Language) (kind : String) : Nat → List Sketch → List Group → Prop
  | nil {start : Nat} : ReadsAll lang kind start [] []
  | cons {start : Nat} {child : Sketch} {tokens : List Token} {rest : List Sketch}
      {groups : List Group} : Reads lang (some kind) child start tokens → child.words ≠ [] →
      ReadsAll lang kind (start + tokens.length) rest groups →
      ReadsAll lang kind start (child :: rest)
        (⟨start, tokens, child.field.bind (lang.grammar.operandSide? kind)⟩ :: groups)

theorem ReadsAll.readAll_eq {children : List Sketch} {groups : List Group}
    (h : ReadsAll lang kind start children groups) {source : List Char} {offset : Nat}
    (hshows : Shows source offset (wordsAll children)) :
    Concrete.readAll lang source kind start (placeAll children offset) = groups := by
  induction h generalizing offset with
  | nil => rfl
  | cons hchild hne hrest ih =>
    rename_i child tokens rest groups
    rw [wordsAll] at hshows
    by_cases hlast : wordsAll rest = []
    · rw [hlast, List.append_nil] at hshows
      cases hrest with
      | nil => simp [placeAll, Concrete.readAll, hchild _ _ hshows]
      | cons _ hne' _ =>
        rw [wordsAll, List.append_eq_nil_iff] at hlast
        exact absurd hlast.1 hne'
    · have hfirst := hchild _ _ (hshows.left hne hlast)
      rw [placeAll, Concrete.readAll, hfirst, ih (hshows.right hne hlast), field_place]

theorem Reads.branch {children : List Sketch} {groups : List Group}
    (hstop : kind ∉ lang.grammar.stopNodes) (hne : children ≠ [])
    (h : ReadsAll lang kind start children groups)
    (htokens : (match lang.grammar.operatorArity? kind with
      | some .unary => Concrete.tagUnary lang start (groups.flatMap Group.tokens)
      | some .binary | some .ternary => Concrete.tagOperands lang kind groups
      | none => groups.flatMap Group.tokens) = tokens) :
    Reads lang parent (.branch kind field children) start tokens := by
  intro source offset hshows
  have hgroups := h.readAll_eq hshows
  have hplaced : (placeAll children offset).isEmpty = false := by
    obtain ⟨child, rest, rfl⟩ := List.exists_cons_of_ne_nil hne
    rfl
  have hleaf : lang.grammar.stopNodes.contains kind = false := by
    simpa using hstop
  rw [place, Cst.branch, Concrete.read, hplaced, hleaf, Bool.or_false, if_neg (by decide), hgroups]
  exact htokens

/-- In a field of any node that changes none of its leaves, a sketch is read as tokens that can be
an operand. -/
structure Mirrors (lang : Language) (field : Option String) (sketch : Sketch) (start : Nat)
    (tokens : List Token) : Prop where
  field_eq : sketch.field = field
  words_eq : sketch.words = tokens.map Token.value
  operand : IsOperand tokens
  reads : ∀ parent, lang.Plain parent → Reads lang parent sketch start tokens

theorem Mirrors.words_ne_nil (h : Mirrors lang field sketch start tokens) : sketch.words ≠ [] := by
  rw [h.words_eq]
  simpa using h.operand.ne_nil

theorem Mirrors.name {name : String} (hfree : lang.isFree name = true)
    (hkind : Language.isLiteralKind kind = false) :
    Mirrors lang field (.leaf kind field name) start [.plain name .identifier] where
  field_eq := rfl
  words_eq := rfl
  operand := ⟨by simp, fun token h => by cases h; rfl⟩
  reads parent hparent := by
    have hident : Language.isIdentifier name = true := by
      simp only [Language.isFree, Bool.and_eq_true] at hfree
      exact hfree.1.1
    have hne : name ≠ "" := by
      rintro rfl
      cases hident
    exact .plain (Text.trim_identifier hident) hne (by simp [Language.leafForm?_free hfree])
      (Language.classify_free hparent hfree hkind)

theorem Mirrors.number (n : Nat) :
    Mirrors lang field (.leaf kind field (Text.numeral n)) start
      [.plain (Text.numeral n) .const] where
  field_eq := rfl
  words_eq := rfl
  operand := ⟨by simp, fun token h => by cases h; rfl⟩
  reads parent hparent := by
    have hne : Text.numeral n ≠ "" := by
      intro h
      have hdigit := Language.numeral_digit n
      rw [h] at hdigit
      cases hdigit
    exact .plain (Text.trim_numeral n) hne (by simp [Language.leafForm?_numeral])
      (Language.classify_numeral hparent n)

/-- The tokens of what stands between parentheses. -/
theorem Mirrors.grouped {kinds : NodeKinds lang} (h : Mirrors lang none sketch (start + 1) tokens) :
    Mirrors lang field
      (.branch kinds.group field [.leaf "(" none "(", sketch, .leaf ")" none ")"]) start
      (.plain "(" .openBrace :: tokens ++ [.plain ")" .closeBrace]) where
  field_eq := rfl
  words_eq := by simp [h.words_eq, Token.plain]
  operand := ⟨by simp, fun token h => by simp at h⟩
  reads parent hparent := by
    have hplain : lang.Plain (some kinds.group) := .of_role kinds.group_role
    have hmark : ∀ mark, lang.leafForm? mark kinds.group = none := by
      intro mark
      rw [Language.leafForm?, kinds.group_arity]
    obtain ⟨hopen, hclose⟩ := Language.classify_parenthesis hplain
    have hall : ReadsAll lang kinds.group start [.leaf "(" none "(", sketch, .leaf ")" none ")"] _ :=
      .cons (.plain (by decide) (by decide) (hmark "(") hopen) (by simp)
        (.cons (h.reads _ hplain) h.words_ne_nil
          (.cons (.plain (by decide) (by decide) (hmark ")") hclose) (by simp) .nil))
    refine .branch kinds.group_apart (by simp) hall ?_
    rw [kinds.group_arity]
    simp

section Operators

variable {left center right : Sketch} {lefts centers rights : List Token} {second : OperatorForm}

theorem Mirrors.between (hmem : kind ∈ lang.grammar.binaryNodes)
    (hfield : opField.bind (lang.grammar.operandSide? kind) = none)
    (hfound : lang.leafForm? form.value kind = some form)
    (hl : Mirrors lang (lang.grammar.operandField kind .left) left start lefts)
    (hr : Mirrors lang (lang.grammar.operandField kind .right) right (start + lefts.length + 1)
      rights) :
    Mirrors lang field (.branch kind field [left, operator opField form, right]) start
      (Token.tagAll (start + lefts.length) .left lefts ++ .ofForm form ::
        Token.tagAll (start + lefts.length) .right rights) where
  field_eq := rfl
  words_eq := by
    simp [hl.words_eq, hr.words_eq, Token.ofForm]
  operand := ⟨by simp, fun token h => by
    have hne := hr.operand.ne_nil
    simp [List.append_eq_singleton_iff, hne] at h⟩
  reads parent hparent := by
    have hnode : lang.OperatorNode kind .binary := Language.operatorNode_of_mem hmem
    have hplain : lang.Plain (some kind) := .of_role hnode.role
    have hmem' := (Language.mem_leafForms hfound).1
    have hall : ReadsAll lang kind start [left, operator opField form, right] _ :=
      .cons (hl.reads _ hplain) hl.words_ne_nil
        (.cons (.operator hmem' hfound) (by simp)
          (.cons (hr.reads _ hplain) hr.words_ne_nil .nil))
    have htags := Concrete.tagOperands_between start form hnode (Language.fieldsOrOrder_binary hmem)
      hl.operand hr.operand
    refine .branch hnode.apart (by simp) hall ?_
    rw [hnode.arity, hl.field_eq, hr.field_eq, ← htags]
    simp [operator, Sketch.field, hfield, Language.ownSide?]

theorem Mirrors.ternary (hmem : kind ∈ lang.grammar.ternaryNodes)
    (hfield : opField.bind (lang.grammar.operandSide? kind) = none)
    (hfirst : lang.leafForm? form.value kind = some form)
    (hsecond : lang.leafForm? second.value kind = some second)
    (hl : Mirrors lang (lang.grammar.operandField kind .left) left start lefts)
    (hc : Mirrors lang (lang.grammar.operandField kind .center) center (start + lefts.length + 1)
      centers)
    (hr : Mirrors lang (lang.grammar.operandField kind .right) right
      (start + lefts.length + 1 + centers.length + 1) rights) :
    Mirrors lang field
      (.branch kind field [left, operator opField form, center, operator opField second, right])
      start
      (Token.tagAll (start + lefts.length) .left lefts ++ .ofForm form ::
        (Token.tagAll (start + lefts.length) .center centers ++ .ofForm second ::
          Token.tagAll (start + lefts.length) .right rights)) where
  field_eq := rfl
  words_eq := by
    simp [hl.words_eq, hc.words_eq, hr.words_eq, Token.ofForm]
  operand := ⟨by simp, fun token h => by simp [List.append_eq_singleton_iff] at h⟩
  reads parent hparent := by
    have hnode : lang.OperatorNode kind .ternary := Language.operatorNode_of_mem hmem
    have hplain : lang.Plain (some kind) := .of_role hnode.role
    have hmem' := (Language.mem_leafForms hfirst).1
    have hmem'' := (Language.mem_leafForms hsecond).1
    have hall : ReadsAll lang kind start
        [left, operator opField form, center, operator opField second, right] _ :=
      .cons (hl.reads _ hplain) hl.words_ne_nil
        (.cons (.operator hmem' hfirst) (by simp)
          (.cons (hc.reads _ hplain) hc.words_ne_nil
            (.cons (.operator hmem'' hsecond) (by simp)
              (.cons (hr.reads _ hplain) hr.words_ne_nil .nil))))
    have htags := Concrete.tagOperands_ternary start form second hnode
      (Language.fieldsOrOrder_ternary hmem) hl.operand hc.operand hr.operand
    refine .branch hnode.apart (by simp) hall ?_
    rw [hnode.arity, hl.field_eq, hc.field_eq, hr.field_eq, ← htags]
    simp [operator, Sketch.field, hfield, Language.ownSide?]

theorem Mirrors.leading (hmem : kind ∈ lang.grammar.unaryNodes)
    (hfound : lang.leafForm? form.value kind = some form)
    (h : Mirrors lang (lang.grammar.operandField kind .right) sketch (start + 1) tokens) :
    Mirrors lang field (.branch kind field [operator opField form, sketch]) start
      (.ofForm form :: Token.tagAll start .right tokens) where
  field_eq := rfl
  words_eq := by simp [h.words_eq, Token.ofForm]
  operand := ⟨by simp, fun token heq => by simp [h.operand.ne_nil] at heq⟩
  reads parent hparent := by
    have hnode : lang.OperatorNode kind .unary := Language.operatorNode_of_mem hmem
    have hplain : lang.Plain (some kind) := .of_role hnode.role
    have hmem' := (Language.mem_leafForms hfound).1
    have hall : ReadsAll lang kind start [operator opField form, sketch] _ :=
      .cons (.operator hmem' hfound) (by simp)
        (.cons (h.reads _ hplain) h.words_ne_nil .nil)
    refine .branch hnode.apart (by simp) hall ?_
    rw [hnode.arity, ← Concrete.tagUnary_leading lang form h.operand.ne_nil]
    simp

theorem Mirrors.trailing {before : OperatorForm} (hmem : kind ∈ lang.grammar.unaryNodes)
    (hform : form ∈ lang.leafForms) (hfound : lang.leafForm? form.value kind = some before)
    (hvalue : before.value = form.value) (htrailing : lang.trailingForm? form.value = some form)
    (h : Mirrors lang (lang.grammar.operandField kind .left) sketch start tokens)
    (hfirst : ∀ token ∈ tokens.head?, token.isOperator = false) :
    Mirrors lang field (.branch kind field [sketch, operator opField form]) start
      (Token.tagAll (start + tokens.length) .left tokens ++ [.ofForm form]) where
  field_eq := rfl
  words_eq := by simp [h.words_eq, Token.ofForm]
  operand := ⟨by simp, fun token heq => by
    simp [List.append_eq_singleton_iff, h.operand.ne_nil] at heq⟩
  reads parent hparent := by
    have hnode : lang.OperatorNode kind .unary := Language.operatorNode_of_mem hmem
    have hplain : lang.Plain (some kind) := .of_role hnode.role
    have hall : ReadsAll lang kind start [sketch, operator opField form] _ :=
      .cons (h.reads _ hplain) h.words_ne_nil
        (.cons (.operator hform hfound) (by simp) .nil)
    refine .branch hnode.apart (by simp) hall ?_
    rw [hnode.arity, ← Concrete.tagUnary_trailing h.operand.ne_nil hfirst hvalue htrailing]
    simp

end Operators

end Sketch

end Interlingua
