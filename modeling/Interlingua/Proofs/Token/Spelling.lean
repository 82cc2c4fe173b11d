import Interlingua.Proofs.Reading
import Interlingua.Proofs.Text.Quoted
import Interlingua.Proofs.Token.Binding

/-!
# Reading by spelling

A reader for all of `Term` that sees of a token only how it is spelled and its lexical role, and
knows the operator table of the language.

* `Spelling.joint?`, `Spelling.leading?` — what an operator spelling is after an operand, and where
  an operand starts.  One spelling may be both.
* `Spelling.expr`, `Spelling.climb`, `Spelling.primary`, `Spelling.arguments` — the reader.  It
  builds no node for parentheses.  `Spelling.climb_eq` and its kin say what each of them does.
* `Spelling.joint?_binary` and its kin — every form of the table is found again by its spelling.
-/

namespace Interlingua

/-- What is seen of a token: its spelling and its lexical role. -/
abbrev Face := String × TokenKind

def Token.face (token : Token) : Face := (token.value, token.kind)

@[simp] theorem Token.face_untagged (token : Token) : token.untagged.face = token.face := rfl

@[simp] theorem Token.face_plain (value : String) (kind : TokenKind) :
    (Token.plain value kind).face = (value, kind) := rfl

@[simp] theorem Token.face_ofForm (form : OperatorForm) :
    (Token.ofForm form).face = (form.value, .operator) := rfl

namespace Spelling

/-- What an operator is after an operand. -/
inductive Joint where
  | after (op : UnaryOp)
  | binary (op : BinaryOp)
  | assign (op : AssignOp)
  | ternary
  deriving DecidableEq, Repr

/-- The form of a spelling among the operators of a kind, if the form is one that is asked for. -/
def lookup? {α : Type} (all : List α) (form? : α → Option OperatorForm)
    (asked : OperatorForm → Bool) (value : String) : Option (α × OperatorForm) :=
  all.findSome? fun op =>
    ((form? op).filter fun form => asked form && form.value == value).map fun form => (op, form)

/-- What a spelling is after an operand. -/
def joint? (lang : Language) (value : String) : Option (Joint × OperatorForm) :=
  ((lookup? UnaryOp.all lang.operators.unary (!·.isLeading) value).map
      fun (op, form) => (.after op, form)) <|>
  ((lookup? BinaryOp.all lang.operators.binary (fun _ => true) value).map
      fun (op, form) => (.binary op, form)) <|>
  ((lookup? AssignOp.all lang.operators.assign (fun _ => true) value).map
      fun (op, form) => (.assign op, form)) <|>
  if lang.operators.ternary.1.value = value then some (.ternary, lang.operators.ternary.1) else none

/-- What a spelling is where an operand starts. -/
def leading? (lang : Language) (value : String) : Option (UnaryOp × OperatorForm) :=
  lookup? UnaryOp.all lang.operators.unary OperatorForm.isLeading value

/-- The literal that a constant is. -/
def literal? (lang : Language) (value : String) : Option Term :=
  if lang.operators.word .true = some value then some (.bool true)
  else if lang.operators.word .false = some value then some (.bool false)
  else if lang.operators.word .null = some value then some .null
  else
    match Text.readQuoted? value.toList with
    | some (text, []) => some (.str (String.ofList text))
    | some _ => none
    | none => (Text.readDigits? value.toList).map .int

/-- The conditional operator from its operands in the order of the language. -/
def conditional (lang : Language) (left center right : Term) : Term :=
  match lang.operators.ternaryLayout with
  | .condFirst => .ternary left center right
  | .thenFirst => .ternary center left right

/-- Skips a token that has to be of a kind. -/
def skip? (kind : TokenKind) : List Face → Option (Unit × List Face)
  | [] => none
  | (_, found) :: rest => if found = kind then some ((), rest) else none

/-- The same, with the bound on what is left. -/
def readSkip (kind : TokenKind) : (faces : List Face) → Option (Unit × Reading.Less faces)
  | [] => none
  | (_, found) :: rest => if found = kind then some ((), ⟨rest, by simp⟩) else none

theorem plain_readSkip (kind : TokenKind) (faces : List Face) :
    Reading.plain (readSkip kind faces) = skip? kind faces := by
  cases faces with
  | nil => rfl
  | cons face rest =>
    rw [readSkip, skip?]
    split <;> rfl

/-- The limit that nothing exceeds. -/
def top : Nat := 255

mutual
/-- Reads an expression whose operators bind at the limit or tighter. -/
def readExpr (lang : Language) (limit : Nat) (faces : List Face) :
    Option (Term × Reading.Less faces) := do
  let (left, ⟨rest, hrest⟩) ← readPrimary lang faces
  Reading.within (fun _ _ => by omega) (readClimb lang limit left rest)
termination_by (faces.length, 1)

/-- Goes on after a left operand.  Access binds tighter than every limit. -/
def readClimb (lang : Language) (limit : Nat) (left : Term) (faces : List Face) :
    Option (Term × Reading.NoMore faces) :=
  match faces with
  | (value, .operator) :: rest =>
    match joint? lang value with
    | none => some (left, ⟨(value, .operator) :: rest, Nat.le_refl _⟩)
    | some (joint, form) =>
      if limit < form.level then some (left, ⟨(value, .operator) :: rest, Nat.le_refl _⟩)
      else
        match joint with
        | .after op =>
          Reading.within (fun _ _ => by rw [List.length_cons]; omega)
            (readClimb lang limit (.unary op left) rest)
        | .binary op => do
          let (right, ⟨rest, hrest⟩) ← readExpr lang form.rightLimit rest
          Reading.within (fun _ _ => by rw [List.length_cons]; omega)
            (readClimb lang limit (.binary op left right) rest)
        | .assign op => do
          let (right, ⟨rest, hrest⟩) ← readExpr lang form.rightLimit rest
          Reading.within (fun _ _ => by rw [List.length_cons]; omega)
            (readClimb lang limit (.assign op left right) rest)
        | .ternary => do
          let (center, ⟨rest, hcenter⟩) ← readExpr lang (form.level - 1) rest
          let (_, ⟨rest, hskip⟩) ← readSkip .operator rest
          let (right, ⟨rest, hright⟩) ← readExpr lang form.rightLimit rest
          Reading.within (fun _ _ => by rw [List.length_cons]; omega)
            (readClimb lang limit (conditional lang left center right) rest)
  | (_, .separator) :: (name, .identifier) :: rest =>
    Reading.within (fun _ _ => by simp only [List.length_cons]; omega)
      (readClimb lang limit (.member left name) rest)
  | (_, .separator) :: (name, .callableIdentifier) :: rest => do
    let (args, ⟨rest, hrest⟩) ← readArguments lang rest
    Reading.within (fun _ _ => by simp only [List.length_cons]; omega)
      (readClimb lang limit (.method left name args) rest)
  | (value, .callOpenBrace) :: rest => do
    let (args, ⟨rest, hrest⟩) ← readArguments lang ((value, .callOpenBrace) :: rest)
    Reading.within (fun _ _ => by omega) (readClimb lang limit (.call left args) rest)
  | (_, .subscriptOpenBrace) :: rest => do
    let (position, ⟨rest, hrest⟩) ← readExpr lang top rest
    let (_, ⟨rest, hskip⟩) ← readSkip .subscriptCloseBrace rest
    Reading.within (fun _ _ => by rw [List.length_cons]; omega)
      (readClimb lang limit (.index left position) rest)
  | other => some (left, ⟨other, Nat.le_refl _⟩)
termination_by (faces.length, 1)

/-- Reads an operand up to what may follow it. -/
def readPrimary (lang : Language) (faces : List Face) : Option (Term × Reading.Less faces) :=
  match faces with
  | (_, .openBrace) :: rest => do
    let (inner, ⟨rest, hrest⟩) ← readExpr lang top rest
    let (_, ⟨rest, hskip⟩) ← readSkip .closeBrace rest
    some (inner, ⟨rest, by rw [List.length_cons]; omega⟩)
  | (value, .operator) :: rest => do
    let (op, form) ← leading? lang value
    let (operand, ⟨rest, hrest⟩) ← readExpr lang form.rightLimit rest
    some (.unary op operand, ⟨rest, by rw [List.length_cons]; omega⟩)
  | (value, .const) :: rest =>
    (literal? lang value).map fun literal => (literal, ⟨rest, by simp⟩)
  | (name, .identifier) :: rest => some (.ident name, ⟨rest, by simp⟩)
  | (name, .callableIdentifier) :: rest => do
    let (args, ⟨rest, hrest⟩) ← readArguments lang rest
    some (.call (.ident name) args, ⟨rest, by rw [List.length_cons]; omega⟩)
  | _ => none
termination_by (faces.length, 0)

/-- Reads arguments with their parentheses. -/
def readArguments (lang : Language) (faces : List Face) :
    Option (List Term × Reading.Less faces) :=
  match faces with
  | (_, .callOpenBrace) :: (_, .callCloseBrace) :: rest =>
    some ([], ⟨rest, by simp only [List.length_cons]; omega⟩)
  | (_, .callOpenBrace) :: rest =>
    Reading.within (fun _ _ => by rw [List.length_cons]; omega) (readArgumentList lang rest)
  | _ => none
termination_by (faces.length, 0)

/-- Reads one argument or more, and the parenthesis after them. -/
def readArgumentList (lang : Language) (faces : List Face) :
    Option (List Term × Reading.Less faces) := do
  let (arg, rest) ← readExpr lang top faces
  match rest with
  | ⟨(_, .comma) :: rest, hrest⟩ => do
    have hless : rest.length < faces.length := Nat.lt_of_succ_lt hrest
    let (args, ⟨later, hlater⟩) ← readArgumentList lang rest
    some (arg :: args, ⟨later, hlater.trans hless⟩)
  | ⟨(_, .callCloseBrace) :: rest, hrest⟩ => some ([arg], ⟨rest, Nat.lt_of_succ_lt hrest⟩)
  | _ => none
termination_by (faces.length, 2)
end

/-! The results without their bounds, and the equations that define the reader in terms of them. -/

def expr (lang : Language) (limit : Nat) (faces : List Face) : Option (Term × List Face) :=
  Reading.plain (readExpr lang limit faces)

def climb (lang : Language) (limit : Nat) (left : Term) (faces : List Face) :
    Option (Term × List Face) :=
  Reading.plain (readClimb lang limit left faces)

def primary (lang : Language) (faces : List Face) : Option (Term × List Face) :=
  Reading.plain (readPrimary lang faces)

def arguments (lang : Language) (faces : List Face) : Option (List Term × List Face) :=
  Reading.plain (readArguments lang faces)

def argumentList (lang : Language) (faces : List Face) : Option (List Term × List Face) :=
  Reading.plain (readArgumentList lang faces)

theorem expr_eq (lang : Language) (limit : Nat) (faces : List Face) :
    expr lang limit faces =
      (primary lang faces).bind fun (left, rest) => climb lang limit left rest := by
  rw [expr, readExpr]
  exact Reading.plain_bind fun left rest => Reading.plain_within ..

theorem climb_eq (lang : Language) (limit : Nat) (left : Term) (faces : List Face) :
    climb lang limit left faces =
      match faces with
      | (value, .operator) :: rest =>
        match joint? lang value with
        | none => some (left, faces)
        | some (joint, form) =>
          if limit < form.level then some (left, faces)
          else
            match joint with
            | .after op => climb lang limit (.unary op left) rest
            | .binary op => (expr lang form.rightLimit rest).bind fun (right, rest) =>
              climb lang limit (.binary op left right) rest
            | .assign op => (expr lang form.rightLimit rest).bind fun (right, rest) =>
              climb lang limit (.assign op left right) rest
            | .ternary => (expr lang (form.level - 1) rest).bind fun (center, rest) =>
              (skip? .operator rest).bind fun (_, rest) =>
              (expr lang form.rightLimit rest).bind fun (right, rest) =>
              climb lang limit (conditional lang left center right) rest
      | (_, .separator) :: (name, .identifier) :: rest => climb lang limit (.member left name) rest
      | (_, .separator) :: (name, .callableIdentifier) :: rest =>
        (arguments lang rest).bind fun (args, rest) =>
          climb lang limit (.method left name args) rest
      | (_, .callOpenBrace) :: _ =>
        (arguments lang faces).bind fun (args, rest) => climb lang limit (.call left args) rest
      | (_, .subscriptOpenBrace) :: rest => (expr lang top rest).bind fun (position, rest) =>
        (skip? .subscriptCloseBrace rest).bind fun (_, rest) =>
          climb lang limit (.index left position) rest
      | _ => some (left, faces) := by
  rw [climb, readClimb.eq_def]
  split
  · rename_i value rest
    split
    · rfl
    · rename_i joint form hj
      split
      · rfl
      · cases joint with
        | after op => exact Reading.plain_within ..
        | binary op | assign op =>
          exact Reading.plain_bind fun right rest => Reading.plain_within ..
        | ternary =>
          refine Reading.plain_bind fun center rest => ?_
          dsimp only
          rw [← plain_readSkip]
          refine Reading.plain_bind fun _ rest => ?_
          exact Reading.plain_bind fun right rest => Reading.plain_within ..
  · exact Reading.plain_within ..
  · exact Reading.plain_bind fun args rest => Reading.plain_within ..
  · exact Reading.plain_bind fun args rest => Reading.plain_within ..
  · refine Reading.plain_bind fun position rest => ?_
    dsimp only
    rw [← plain_readSkip]
    exact Reading.plain_bind fun _ rest => Reading.plain_within ..
  · rfl

theorem primary_eq (lang : Language) (faces : List Face) :
    primary lang faces =
      match faces with
      | (_, .openBrace) :: rest => (expr lang top rest).bind fun (inner, rest) =>
        (skip? .closeBrace rest).bind fun (_, rest) => some (inner, rest)
      | (value, .operator) :: rest => (leading? lang value).bind fun (op, form) =>
        (expr lang form.rightLimit rest).bind fun (operand, rest) => some (.unary op operand, rest)
      | (value, .const) :: rest => (literal? lang value).map fun literal => (literal, rest)
      | (name, .identifier) :: rest => some (.ident name, rest)
      | (name, .callableIdentifier) :: rest => (arguments lang rest).bind fun (args, rest) =>
        some (.call (.ident name) args, rest)
      | _ => none := by
  rw [primary, readPrimary.eq_def]
  split
  · refine Reading.plain_bind fun inner rest => ?_
    dsimp only
    rw [← plain_readSkip]
    exact Reading.plain_bind fun _ rest => rfl
  · rename_i value rest
    cases leading? lang value with
    | none => rfl
    | some found => exact Reading.plain_bind fun operand rest => rfl
  · rename_i value rest
    cases literal? lang value <;> rfl
  · rfl
  · exact Reading.plain_bind fun args rest => rfl
  · rfl

theorem arguments_eq (lang : Language) (faces : List Face) :
    arguments lang faces =
      match faces with
      | (_, .callOpenBrace) :: (_, .callCloseBrace) :: rest => some ([], rest)
      | (_, .callOpenBrace) :: rest => argumentList lang rest
      | _ => none := by
  rw [arguments, readArguments.eq_def]
  split
  · rfl
  · exact Reading.plain_within ..
  · rfl

theorem argumentList_eq (lang : Language) (faces : List Face) :
    argumentList lang faces = (expr lang top faces).bind fun
      | (arg, (_, .comma) :: rest) => (argumentList lang rest).bind fun (args, rest) =>
        some (arg :: args, rest)
      | (arg, (_, .callCloseBrace) :: rest) => some ([arg], rest)
      | _ => none := by
  rw [argumentList, readArgumentList]
  refine Reading.plain_bind fun arg rest => ?_
  obtain ⟨rest, hrest⟩ := rest
  cases rest with
  | nil => rfl
  | cons face rest =>
    obtain ⟨value, kind⟩ := face
    cases kind with
    | comma => exact Reading.plain_bind fun args rest => rfl
    | _ => rfl

/-! ## Spellings are found again -/

variable {lang : Language}

theorem joint?_binary {op : BinaryOp} {form : OperatorForm}
    (hform : lang.operators.binary op = some form) (hapart : lang.spellsApart op = true) :
    joint? lang form.value = some (.binary op, form) := by
  have hall := holds_of_table (p := fun op form =>
    !lang.spellsApart op || joint? lang form.value == some (.binary op, form)) op.mem_all hform
    (by cases lang <;> decide)
  rw [hapart, Bool.not_true, Bool.false_or] at hall
  exact beq_iff_eq.1 hall

theorem joint?_assign {op : AssignOp} {form : OperatorForm}
    (hform : lang.operators.assign op = some form) :
    joint? lang form.value = some (.assign op, form) := by
  have hall := holds_of_table (p := fun op form =>
    joint? lang form.value == some (.assign op, form)) op.mem_all hform
    (by cases lang <;> decide)
  exact beq_iff_eq.1 hall

theorem joint?_after {op : UnaryOp} {form : OperatorForm}
    (hform : lang.operators.unary op = some form) (hlead : form.isLeading = false) :
    joint? lang form.value = some (.after op, form) := by
  have hall := holds_of_table (p := fun op form =>
    form.isLeading || joint? lang form.value == some (.after op, form)) op.mem_all hform
    (by cases lang <;> decide)
  rw [hlead, Bool.false_or] at hall
  exact beq_iff_eq.1 hall

theorem joint?_ternary (lang : Language) :
    joint? lang lang.operators.ternary.1.value = some (.ternary, lang.operators.ternary.1) := by
  cases lang <;> decide

/-- The second part of the conditional operator ends the operand before it. -/
theorem joint?_ternary_second (lang : Language) :
    joint? lang lang.operators.ternary.2.value = none := by
  cases lang <;> decide

theorem leading?_eq {op : UnaryOp} {form : OperatorForm}
    (hform : lang.operators.unary op = some form) (hlead : form.isLeading = true) :
    leading? lang form.value = some (op, form) := by
  have hall := holds_of_table (p := fun op form =>
    !form.isLeading || leading? lang form.value == some (op, form)) op.mem_all hform
    (by cases lang <;> decide)
  rw [hlead, Bool.not_true, Bool.false_or] at hall
  exact beq_iff_eq.1 hall

/-! ## Literals are read back -/

theorem literal?_word_true {text : String} (h : lang.operators.word .true = some text) :
    literal? lang text = some (.bool true) := by
  rw [literal?, if_pos h]

theorem literal?_word_false {text : String} (h : lang.operators.word .false = some text) :
    literal? lang text = some (.bool false) := by
  have hne : lang.operators.word .true ≠ lang.operators.word .false := by cases lang <;> decide
  rw [literal?, if_neg (h ▸ hne), if_pos h]

theorem literal?_word_null {text : String} (h : lang.operators.word .null = some text) :
    literal? lang text = some .null := by
  have htrue : lang.operators.word .true ≠ lang.operators.word .null := by cases lang <;> decide
  have hfalse : lang.operators.word .false ≠ lang.operators.word .null := by cases lang <;> decide
  rw [literal?, if_neg (h ▸ htrue), if_neg (h ▸ hfalse), if_pos h]

/-- A text that starts with no letter is no word. -/
theorem word_ne (lang : Language) {text : String} {first : Char}
    (hfirst : text.toList.head? = some first)
    (halpha : first.isAlpha = false) (word : Word) : lang.operators.word word ≠ some text := by
  intro h
  have hall : (lang.operators.word word).all
      (fun text => (text.toList.head?).all Char.isAlpha) = true := by
    cases lang <;> cases word <;> decide
  simp [h, hfirst, halpha] at hall

theorem literal?_quote (lang : Language) (value : String) :
    literal? lang (Text.quote value) = some (.str value) := by
  have hfirst : (Text.quote value).toList.head? = some '"' := by rw [Text.toList_quote]; rfl
  have hne := word_ne lang hfirst (by decide)
  have hread := Text.readQuoted?_quoteChars value.toList []
  rw [List.append_nil] at hread
  rw [literal?, if_neg (hne _), if_neg (hne _), if_neg (hne _), Text.toList_quote, hread]
  simp

theorem literal?_numeral (lang : Language) (n : Nat) :
    literal? lang (Text.numeral n) = some (.int n) := by
  have hchars : (Text.numeral n).toList = Nat.toDigits 10 n := by
    simp [Text.numeral, Text.numeralChars]
  obtain ⟨first, rest, hdigits⟩ := List.exists_cons_of_ne_nil (Nat.toDigits_ne_nil (b := 10) (n := n))
  have hdigit : first.isDigit = true :=
    Text.isDigit_of_mem_digits (n := n) (by rw [hdigits]; exact List.mem_cons_self ..)
  have halpha : first.isAlpha = false := by
    delta Char.isDigit at hdigit
    delta Char.isAlpha Char.isUpper Char.isLower
    simp only [Bool.and_eq_true, decide_eq_true_eq, Bool.or_eq_false_iff, Bool.and_eq_false_iff,
      decide_eq_false_iff_not, UInt32.le_iff_toNat_le, Char.reduceVal,
      UInt32.reduceToNat] at hdigit ⊢
    omega
  have hfirst : (Text.numeral n).toList.head? = some first := by rw [hchars, hdigits]; rfl
  have hne := word_ne lang hfirst halpha
  have hquoted : Text.readQuoted? (Nat.toDigits 10 n) = none := by
    rw [hdigits, Text.readQuoted?]
    intro other h
    cases h
    exact absurd hdigit (by decide)
  rw [literal?, if_neg (hne _), if_neg (hne _), if_neg (hne _), hchars, hquoted,
    Text.readDigits?_toDigits]
  rfl

end Spelling

end Interlingua
