import Interlingua.Proofs.Effect.Once
import Interlingua.Proofs.Fields.Balance

/-!
# Expressions of Python close what they open

Whatever the expressions below it are, the text of an expression is put together by rules that keep
texts balanced.

* `View.IsLegible` — what an expression may say for that: names without quotes and brackets, strings
  that their literals carry, and in a format string no part whose text starts with a brace.
* `Python.balanced_expr` — one layer, case by case.
* `Python.yields_balanced` — hence the texts of all legible expressions are balanced.
-/

namespace Interlingua

open Fields

/-! ## What the languages share -/

namespace Site

variable {site : Site} {inv : Scope → Prop} {id left right : NodeId}

/-- The text of an expression below is balanced. -/
def Balances (site : Site) (inv : Scope → Prop) (id : NodeId) : Prop :=
  Yields inv (site.below id) Balanced

theorem balanced_operand (h : site.Balances inv id) (parent : OperatorForm) (side : Side) :
    Yields inv (site.operand parent id side) Balanced := by
  refine Yields.bind h fun text htext => ?_
  refine (Render.yields_follow fun _ _ => trivial).bind fun wrapped _ => ?_
  cases wrapped with
  | true => exact .pure htext.parenthesized
  | false => exact .pure htext

theorem balanced_between {form : OperatorForm} (hform : IsSeparator (" " ++ form.value ++ " "))
    (hl : site.Balances inv left) (hr : site.Balances inv right) :
    Yields inv (site.between form left right) Balanced := by
  refine (balanced_operand hl form .left).bind fun leftText hleft => ?_
  refine (balanced_operand hr form .right).bind fun rightText hright => .pure ?_
  have hall := hleft.join hform hright
  simpa [String.append_assoc] using hall

theorem balanced_args {ids : List NodeId} (h : ∀ id ∈ ids, site.Balances inv id) :
    Yields inv (site.args ids) Balanced :=
  (Yields.mapM h).bind fun _ htexts => .pure (.commas htexts)

theorem balanced_unary (hlang : site.lang = .python) (op : UnaryOp) (h : site.Balances inv id) :
    Yields inv (site.unary op id) Balanced := by
  unfold Site.unary
  rw [hlang]
  cases op with
  | neg | plus | bitNot | not =>
    refine (balanced_operand h _ .right).bind fun text htext => .pure ?_
    exact htext.after (by decide)
  | preInc | preDec | postInc | postDec | deref | addressOf => exact .throw _

theorem balanced_ternary (hlang : site.lang = .python) {cond whenTrue whenFalse : NodeId}
    (hc : site.Balances inv cond) (ht : site.Balances inv whenTrue)
    (hf : site.Balances inv whenFalse) :
    Yields inv (site.ternary cond whenTrue whenFalse) Balanced := by
  unfold Site.ternary
  rw [hlang]
  refine (balanced_operand ht _ .left).bind fun leftText hleft => ?_
  refine (balanced_operand hc _ .center).bind fun centerText hcenter => ?_
  refine (balanced_operand hf _ .right).bind fun rightText hright => .pure ?_
  have hall := (hleft.join (by decide : IsSeparator " if ") hcenter).join
    (by decide : IsSeparator " else ") hright
  have htext : leftText ++ " " ++ "if" ++ " " ++ centerText ++ " " ++ "else" ++ " " ++ rightText =
      leftText ++ " if " ++ centerText ++ " else " ++ rightText := by simp [← String.toList_inj]
  exact htext ▸ hall

end Site

/-! ## Words, numbers and types -/

namespace Fields

theorem isPlain_of_isDigit {c : Char} (h : c.isDigit = true) : isPlain c = true := by
  have hne : ∀ mark ∈ Surface.marks, c ≠ mark :=
    fun mark hmark => Surface.ne_of_isPlain (Surface.Shows.isPlain_of_isDigit h).1 hmark
  have hopen : opened? c = none := by
    unfold opened?
    split
    case h_4 => rfl
    all_goals exact absurd rfl (hne _ (by decide))
  simp [isPlain, isQuote, isClosing, hopen, hne _ (by decide : '"' ∈ Surface.marks),
    hne _ (by decide : '\'' ∈ Surface.marks), hne _ (by decide : ')' ∈ Surface.marks),
    hne _ (by decide : ']' ∈ Surface.marks), hne _ (by decide : '\x7d' ∈ Surface.marks)]

namespace IsInert

theorem append {text more : String} (h : IsInert text) (h' : IsInert more) :
    IsInert (text ++ more) := by
  intro c hc
  rw [String.toList_append] at hc
  exact (List.mem_append.1 hc).elim (h c) (h' c)

/-- Digits, perhaps with a point. -/
theorem number {text : String} (h : ∀ c ∈ text.toList, c.isDigit = true ∨ c = '.') :
    IsInert text := by
  intro c hc
  obtain hdigit | rfl := h c hc
  · exact isPlain_of_isDigit hdigit
  · decide

theorem numeral (value : Int) : IsInert (Text.numeral value) := by
  intro c hc
  rw [Text.numeral, String.toList_ofList] at hc
  cases value with
  | ofNat n => exact isPlain_of_isDigit (Text.isDigit_of_mem_digits hc)
  | negSucc n =>
    obtain rfl | hdigit := List.mem_cons.1 hc
    · decide
    · exact isPlain_of_isDigit (Text.isDigit_of_mem_digits hdigit)

theorem float (bits : UInt64) : IsInert (Decimal.Layout.pointed.writeBits bits) := by
  have hsign : ∀ negative, IsInert (Decimal.Layout.write.sign negative) := by decide
  unfold Decimal.Layout.writeBits
  cases Decimal.Binary64.ofBits bits with
  | nan => decide
  | infinite negative => exact (hsign negative).append (by decide)
  | zero negative => exact (hsign negative).append (by decide)
  | finite negative span =>
    refine (hsign negative).append (number fun c hc => ?_)
    rw [String.toList_ofList] at hc
    exact (Surface.Shows.writeDecimal_chars span.shortest).2 c hc

end IsInert

/-- A type that is spelled of inert names is balanced. -/
theorem balanced_of_spelling {text : String} (h : TypeSpelling .python IsInert text) :
    Balanced text := by
  have hwords : ∀ word ∈ Language.python.typeWords, IsInert word := by decide
  induction h with
  | head h => exact .of_isInert (h.elim (hwords _) id)
  | marked _ hmark => cases hmark
  | taking _ h _ ih => exact (Balanced.of_isInert (h.elim (hwords _) id)).indexed (.commas ih)

/-- How a type is written is balanced if its names are. -/
theorem balanced_typeName (ty : Ty) (h : ty.Named IsInert) :
    Grants (Python.typeName ty) Balanced := fun text htext =>
  balanced_of_spelling (Python.spelled_typeName ty h text htext)

end Fields

/-! ## Python -/

/-- What an expression may say for its text to be balanced: names without quotes and brackets,
strings that their literals carry, and in a format string no part whose text starts with a brace. -/
def View.IsLegible (view : View) : Expr → Prop
  | .ident name | .method _ name _ | .member _ name => IsInert name
  | .scoped path => ∀ name ∈ path, IsInert name
  | .str value kind => Language.python.Carries kind value.toList
  | .interpolated parts =>
    ∀ part ∈ parts, ∀ text, view.IsTextOf part text → text.toList.head? ≠ some '\x7b'
  | _ => True

/-- The expressions that some nodes hold are legible. -/
def View.AreLegible (view : View) (nodes : List NodeId) : Prop :=
  ∀ n ∈ nodes, ∀ e, view.arena.expr n = .ok e → view.IsLegible e

namespace Python

variable {site : Site} {inv : Scope → Prop} {id left right : NodeId}

theorem balanced_word (hlang : site.lang = .python) (word : Word) (e : Expr) :
    Yields inv (site.word word e) Balanced := by
  unfold Site.word
  rw [hlang]
  cases word with
  | superRef =>
    have hname : Balanced "super" := .of_isInert (by decide)
    have htext : "super" ++ parenthesized "" = "super()" := by decide
    exact .pure (htext ▸ hname.called .nil)
  | true | false | null | selfRef => exact .pure (.of_isInert (by decide))

/-- An operator between two texts is set off by blanks. -/
theorem isSeparator_of_form {form : OperatorForm} (h : form ∈ Language.python.infixes) :
    IsSeparator (" " ++ form.value ++ " ") := by
  have hall : ∀ form ∈ Language.python.infixes, IsSeparator (" " ++ form.value ++ " ") := by
    decide
  exact hall form h

/-! ### Comparisons -/

theorem balanced_chain (hlang : site.lang = .python) {items : List NodeId}
    (h : ∀ c ∈ site.arena.links items, site.Balances inv c) :
    Yields inv (chain site items) Balanced := by
  cases items with
  | nil => exact .pure .nil
  | cons first rest =>
    refine yields_chain_of_links (fun _ => Balanced) ?_ fun item hitem => ?_
    · refine yields_firstLink hlang fun op left right he form hform _ => ?_
      exact Site.balanced_between (isSeparator_of_form (hlang ▸ hform))
        (h left (by simp [Arena.links, Arena.leftOf, he]))
        (h right (by simp [Arena.links, Arena.rightOf, he]))
    · refine yields_nextLink hlang fun op left right he form hform _ => ?_
      have hright : right ∈ site.arena.rightOf item := by simp [Arena.rightOf, he]
      have hmem := List.mem_flatMap.2 ⟨item, hitem, hright⟩
      refine (Site.balanced_operand (h right (List.mem_append_right _ hmem)) form .right).mono
        fun text htext _ before hbefore => ?_
      simpa [String.append_assoc] using
        hbefore.join (isSeparator_of_form (hlang ▸ hform)) htext

theorem balanced_binary (hlang : site.lang = .python) (op : BinaryOp)
    (h : ∀ c ∈ site.view.written (.binary op left right), site.Balances inv c) :
    Yields inv (binaryExpr site op left right) Balanced := by
  refine yields_binaryExpr hlang op (fun hwritten => ?_) (fun hwritten => ?_)
    fun items hwritten => ?_
  · rw [hwritten] at h
    refine Yields.bind (h left (by simp)) fun leftText hleft => ?_
    refine Yields.bind (h right (by simp)) fun rightText hright => .pure ?_
    have hname : Balanced "isinstance" := .of_isInert (by decide)
    exact hname.called (.commas (List.forall_mem_cons.2 ⟨hleft, by simpa using hright⟩))
  · rw [hwritten] at h
    refine yields_infixed hlang op fun form hform _ => ?_
    exact Site.balanced_between (isSeparator_of_form (hlang ▸ hform)) (h left (by simp))
      (h right (by simp))
  · rw [hwritten] at h
    exact balanced_chain hlang h

/-! ### Assignments and steps -/

/-- The symbol of an assignment, set off by blanks. -/
theorem isSeparator_symbol (op : AssignOp) : IsSeparator (" " ++ op.symbol ++ " ") := by
  cases op <;> decide

/-- An assignment as a statement. -/
theorem balanced_assignment (htypes : ∀ id ty, site.arena.ty id = .ok ty → ty.Named IsInert)
    (op : AssignOp) {target value : NodeId}
    (hname : ∀ name, site.arena.expr target = .ok (.ident name) → IsInert name)
    (ht : site.Balances (Scope.Named IsInert) target)
    (hv : site.Balances (Scope.Named IsInert) value) :
    Yields (Scope.Named IsInert) (assignment site op target value) Balanced := by
  have hvalue := yields_assignedValue hv (fun _ htext => htext) fun _ htext => htext.parenthesized
  refine yields_assignment htypes op hvalue ?_ ?_
  · intro name he typing htyping valueText hvalue
    have htarget : Balanced name := .of_isInert (hname name he)
    have hfront : Balanced (name ++ typing) := by
      obtain rfl | ⟨ty, text, hty, htext, rfl⟩ := htyping
      · simpa using htarget
      · have hall := htarget.join (by decide : IsSeparator ": ")
          (balanced_typeName ty hty text htext)
        simpa [String.append_assoc] using hall
    exact hfront.join (by decide : IsSeparator " = ") hvalue
  · exact Yields.mono ht fun _ htarget _ hvalue => htarget.join (isSeparator_symbol op) hvalue

theorem balanced_assign (hlang : site.lang = .python)
    (htypes : ∀ id ty, site.arena.ty id = .ok ty → ty.Named IsInert)
    (op : AssignOp) {target value : NodeId}
    (hname : ∀ name, site.arena.expr target = .ok (.ident name) → IsInert name)
    (ht : site.Balances (Scope.Named IsInert) target)
    (hv : site.Balances (Scope.Named IsInert) value) :
    Yields (Scope.Named IsInert) (assignExpr site id op target value) Balanced := by
  refine yields_assignExpr Balanced op (fun _ => balanced_assignment htypes op hname ht hv)
    (fun _ _ form hform => ?_) (fun _ _ applied hbinary => ?_) (fun _ htext => htext)
    fun _ htext => htext.parenthesized
  · exact Site.balanced_between (isSeparator_of_form (Language.assign_mem_infixes hform)) ht hv
  · have hwritten : site.view.written (.binary applied target value) = [target, value] := by
      cases op <;> cases hbinary <;> simp [View.written, View.chained]
    refine Yields.bind ht fun targetText htarget => ?_
    refine (balanced_binary hlang applied fun c hc => ?_).bind fun valueText hvalue =>
      .pure (htarget.join (by decide : IsSeparator " := ") hvalue)
    rw [hwritten] at hc
    obtain rfl | rfl := by simpa using hc
    · exact ht
    · exact hv

theorem balanced_unary (hlang : site.lang = .python) (op : UnaryOp) {operand : NodeId}
    (h : site.Balances inv operand) : Yields inv (unaryExpr site id op operand) Balanced := by
  have hone : Balanced "1" := .of_isInert (by decide)
  refine yields_unaryExpr Balanced op (fun _ => Site.balanced_unary hlang op h) h
    (fun _ _ target htarget => ?_) fun _ _ _ applied happlied target htarget => ?_
  · rw [stepStatement_eq]
    exact htarget.join (isSeparator_symbol (stepAssign op)) hone
  · have hseparator : IsSeparator (" " ++ applied.symbol ++ " ") := by
      rcases happlied with rfl | rfl <;> decide
    rw [stepAssignment_eq]
    exact (htarget.join (by decide : IsSeparator " := ")
      (htarget.join hseparator hone)).parenthesized

/-! ### Other expressions -/

theorem balanced_cast {ty value : NodeId} (h : site.Balances inv value) :
    Yields inv (cast site ty value) Balanced := by
  refine (Render.yields_follow fun _ _ => trivial).bind fun t _ => ?_
  refine Yields.bind h fun text htext => .pure ?_
  cases t with
  | int | float | str | char | bool => exact (Balanced.of_isInert (by decide)).called htext
  | _ => exact htext

theorem balanced_collection (id : NodeId) (kind : CollectionKind) {items : List NodeId}
    (h : ∀ item ∈ items, site.Balances inv item) :
    Yields inv (collection site id kind items) Balanced := by
  refine (Site.balanced_args h).bind fun list hlist => .pure ?_
  cases kind with
  | list | array => exact hlist.inSquares
  | set =>
    dsimp only
    split
    · have hname : Balanced "set" := .of_isInert (by decide)
      have htext : "set" ++ parenthesized "" = "set()" := by decide
      exact htext ▸ hname.called .nil
    · exact hlist.inBraces
  | tuple =>
    dsimp only
    split
    · have hall := (hlist.append (.of_isInert (by decide : IsInert ",")) (by decide)).parenthesized
      have htext : "(" ++ list ++ ",)" = parenthesized (list ++ ",") := by
        simp [parenthesized, ← String.toList_inj]
      rw [htext]
      exact hall
    · exact hlist.parenthesized

theorem balanced_dict (id : NodeId) {entries : List (NodeId × NodeId)}
    (h : ∀ entry ∈ entries, site.Balances inv entry.1 ∧ site.Balances inv entry.2) :
    Yields inv (dict site id entries) Balanced := by
  have hentry : ∀ entry ∈ entries, Yields inv (do
      let keyText ← site.below entry.1
      let valueText ← site.below entry.2
      return keyText ++ ": " ++ valueText) Balanced := by
    intro entry hentry
    refine Yields.bind (h entry hentry).1 fun keyText hkey => ?_
    refine Yields.bind (h entry hentry).2 fun valueText hvalue => .pure ?_
    exact hkey.join (by decide) hvalue
  exact (Yields.mapM hentry).bind fun _ htexts => .pure (Balanced.commas htexts).inBraces

/-- A format string in which no part starts with a brace. -/
theorem balanced_interpolated {parts : List NodeId}
    (h : ∀ part ∈ parts.filter fun part => (site.arena.literal? part).isNone,
      Yields inv (site.below part) fun text =>
        Balanced text ∧ text.toList.head? ≠ some '\x7b') :
    Yields inv (interpolated site parts) Balanced := by
  have hpart : ∀ part ∈ parts, Yields inv (formatPart site part) InFormat := by
    intro part hpart
    refine (Render.yields_follow fun e he => he).bind fun e he => ?_
    have hliteral := Arena.literal?_eq he
    cases e with
    | str value kind => exact .pure (.formatText value)
    | _ =>
      refine (h part (List.mem_filter.2 ⟨hpart, by rw [hliteral]; rfl⟩)).bind
        fun text htext => .pure (.field htext.1 htext.2)
  exact (Yields.mapM hpart).bind fun _ htexts => .pure (.format (.join htexts))

theorem balanced_fillOf (t : Ty) : Balanced (fillOf t) := by
  unfold fillOf
  split
  · exact .of_isInert (by decide)
  · exact .of_isInert (by decide)
  · exact .of_isInert (by decide)
  · exact .quote ""
  · exact .of_isInert (by decide)

/-- Nested lists, one for each size. -/
theorem balanced_nested {text : String} {sizes : List String} (h : Balanced text)
    (hsizes : ∀ size ∈ sizes, Balanced size) : Balanced (sizes.foldl nested text) := by
  induction sizes generalizing text with
  | nil => exact h
  | cons size sizes ih =>
    have hfor : Balanced (text ++ " for _ in range") :=
      h.append (.of_isInert (by decide)) (by decide)
    have hall := (hfor.called (hsizes size List.mem_cons_self)).inSquares
    have htext : nested text size =
        "[" ++ (text ++ " for _ in range" ++ parenthesized size) ++ "]" := by
      simp [nested, parenthesized, ← String.toList_inj]
    rw [← htext] at hall
    exact ih hall fun other hother => hsizes other (List.mem_cons_of_mem _ hother)

theorem balanced_newArray (hlang : site.lang = .python) (ty : NodeId) (t : Ty) (dims : List NodeId)
    (init : Option NodeId)
    (h : ∀ c ∈ site.view.written (.newArray ty dims init), site.Balances inv c) :
    Yields inv (newArray site t dims init) Balanced := by
  unfold newArray
  cases init with
  | some init =>
    refine (Render.yields_follow fun e he => he).bind fun e he => ?_
    have hcpp : site.view.lang ≠ .cpp := by
      rw [show site.view.lang = .python from hlang]
      decide
    rw [View.written_newArray hcpp ty dims he] at h
    cases e with
    | collection kind items =>
      exact (Site.balanced_args h).bind fun _ hlist => .pure hlist.inSquares
    | _ => exact h init (by simp)
  | none =>
    have hdims : ∀ dim ∈ dims.reverse, site.Balances inv dim :=
      fun dim hdim => h dim (List.mem_reverse.1 hdim)
    cases hreverse : dims.reverse with
    | nil => exact .pure Balanced.nil.inSquares
    | cons innermost outer =>
      rw [hreverse] at hdims
      refine Yields.bind (hdims innermost (by simp)) fun size hsize => ?_
      refine (Yields.mapM fun dim hdim => hdims dim (List.mem_cons_of_mem _ hdim)).bind
        fun sizes hsizes => .pure (balanced_nested ?_ hsizes)
      have hall := (balanced_fillOf t).inSquares.join (by decide : IsSeparator " * ") hsize
      have htext : "[" ++ fillOf t ++ "] * " ++ size = "[" ++ fillOf t ++ "]" ++ " * " ++ size := by
        simp [← String.toList_inj]
      rw [htext]
      exact hall

/-! ### All expressions -/

/-- One layer: the text of a legible expression is balanced if those below it are. -/
theorem balanced_expr (hlang : site.lang = .python)
    (htypes : ∀ id ty, site.arena.ty id = .ok ty → ty.Named IsInert)
    (hshown : ∀ c scope text after, site.below c scope = .ok text after → site.view.IsTextOf c text)
    {e : Expr} (hlegible : site.view.IsLegible e)
    (hnames : ∀ c ∈ site.view.written e, ∀ name, site.arena.expr c = .ok (.ident name) →
      IsInert name)
    (h : ∀ c ∈ site.view.written e, site.Balances (Scope.Named IsInert) c) :
    Yields (Scope.Named IsInert) (dialect.expr site id e) Balanced := by
  have hchildren : site.view.written e = e.children.map Child.id →
      ∀ c ∈ e.children.map Child.id, site.Balances (Scope.Named IsInert) c :=
    fun hwritten c hc => h c (hwritten ▸ hc)
  cases e with
  | int value => exact .pure (.of_isInert (.numeral value))
  | float bits => exact .pure (.of_isInert (.float bits))
  | char value => exact .pure (.quote _)
  | str value kind => exact .pure (.stringLiteral hlegible)
  | ident name => exact .pure (.of_isInert hlegible)
  | «scoped» path =>
    refine .pure ?_
    rw [hlang]
    exact .intercalate (by decide) fun name hname => .of_isInert (hlegible name hname)
  | bool value => cases value <;> exact balanced_word hlang _ _
  | null | selfRef | superRef => exact balanced_word hlang _ _
  | binary op left right => exact balanced_binary hlang op h
  | unary op operand =>
    exact balanced_unary hlang op (hchildren rfl operand (by simp [Expr.children]))
  | assign op target value =>
    have htarget : target ∈ site.view.written (.assign op target value) := by
      simp [View.written, Expr.children]
    exact balanced_assign hlang htypes op (hnames target htarget) (h target htarget)
      (h value (by simp [View.written, Expr.children]))
  | ternary cond whenTrue whenFalse =>
    have hall := hchildren rfl
    exact Site.balanced_ternary hlang (hall cond (by simp [Expr.children]))
      (hall whenTrue (by simp [Expr.children])) (hall whenFalse (by simp [Expr.children]))
  | compound items =>
    have hwritten : site.view.written (.compound items) = site.arena.links items := if_pos hlang
    rw [hwritten] at h
    exact balanced_chain hlang h
  | paren inner =>
    refine Yields.bind (hchildren rfl inner (by simp [Expr.children])) fun text htext => ?_
    exact .pure htext.parenthesized
  | call callee args =>
    have hall := hchildren rfl
    refine (Site.balanced_operand (hall callee (by simp [Expr.children])) _ .left).bind
      fun target htarget => ?_
    exact (Site.balanced_args fun arg harg => hall arg (by simp [Expr.children, harg])).bind
      fun list hlist => .pure (htarget.called hlist)
  | method receiver name args =>
    have hall := hchildren rfl
    refine (Site.balanced_operand (hall receiver (by simp [Expr.children])) _ .left).bind
      fun target htarget => ?_
    refine (Site.balanced_args fun arg harg => hall arg (by simp [Expr.children, harg])).bind
      fun list hlist => .pure ?_
    exact (htarget.join (by decide : IsSeparator ".") (.of_isInert hlegible)).called hlist
  | index target position =>
    have hall := hchildren rfl
    refine (Site.balanced_operand (hall target (by simp [Expr.children])) _ .left).bind
      fun targetText htarget => ?_
    exact Yields.bind (hall position (by simp [Expr.children])) fun text htext =>
      .pure (htarget.indexed htext)
  | member target name =>
    refine (Site.balanced_operand (hchildren rfl target (by simp [Expr.children])) _ .left).bind
      fun text htext => .pure ?_
    exact htext.join (by decide : IsSeparator ".") (.of_isInert hlegible)
  | cast ty value => exact balanced_cast (h value (by simp [View.written]))
  | sizeOf value => exact .throw _
  | new ty args =>
    refine (Render.yields_follow (htypes ty)).bind fun t ht => ?_
    refine (Render.yields_allowed (balanced_typeName t ht)).bind fun name hname => ?_
    exact (Site.balanced_args h).bind fun list hlist => .pure (hname.called hlist)
  | newArray ty dims init =>
    refine (Render.yields_follow (htypes ty)).bind fun t _ => ?_
    exact balanced_newArray hlang ty t dims init h
  | collection kind items =>
    exact balanced_collection id kind fun item hitem =>
      hchildren rfl item (by simp [Expr.children, hitem])
  | dict entries =>
    rw [View.written_dict] at h
    refine balanced_dict id fun entry hentry => ⟨h entry.1 ?_, h entry.2 ?_⟩
    · exact List.mem_flatMap.2 ⟨entry, hentry, by simp⟩
    · exact List.mem_flatMap.2 ⟨entry, hentry, by simp⟩
  | interpolated parts =>
    have hjava : site.view.lang ≠ .java := by
      rw [show site.view.lang = .python from hlang]
      decide
    rw [View.written_interpolated hjava] at h
    refine balanced_interpolated fun part hpart scope text after hscope hrun => ?_
    obtain ⟨hafter, htext⟩ := h part hpart scope text after hscope hrun
    exact ⟨hafter, htext, hlegible part (List.mem_of_mem_filter hpart) text
      (hshown part scope text after hrun)⟩
  | sequence items =>
    exact Site.balanced_args fun item hitem =>
      hchildren rfl item (by simp [Expr.children, hitem])

/-- **The texts of legible expressions are balanced.** -/
theorem yields_balanced {view : View} (hlang : view.lang = .python)
    (htypes : ∀ t ty, view.arena.ty t = .ok ty → ty.Named IsInert) (depth : Nat) (id : NodeId)
    (hlegible : view.AreLegible (view.unfoldingTo depth id)) :
    Yields (Scope.Named IsInert) (view.exprTo depth id) Balanced := by
  induction depth generalizing id with
  | zero => exact .throw _
  | succ depth ih =>
    refine (Render.yields_follow fun e he => he).bind fun e he => ?_
    have hbelow : ∀ c ∈ view.written e, view.AreLegible (view.unfoldingTo depth c) :=
      fun c hc n hn => hlegible n (View.unfoldingTo_subset he hc hn)
    have hsite : Site.lang ⟨view, view.exprTo depth⟩ = .python := hlang
    rw [hlang]
    refine balanced_expr hsite htypes
      (fun c scope text after hrun => ⟨depth, scope, after, hrun⟩)
      (hlegible id View.self_mem_unfoldingTo e he) (fun c hc name hname => ?_)
      fun c hc => ih c (hbelow c hc)
    exact hbelow c hc c View.self_mem_unfoldingTo _ hname

end Python

end Interlingua
