import Interlingua.Proofs.Token.Spelling

/-!
# Unique readability

Two expressions whose tokens look alike are the same expression up to parentheses.

* `Term.bare` — a term without its parentheses.
* `Spelling.expr_print` — what a term prints is read as the bare term, whatever stands after it.
  As for operators alone, the invariant is on both ends of the term; besides, access, calls and
  operators after their operand go on from what is closed.
* `Language.bare_eq_of_faces_eq` — unique readability, since the reader is a function.
-/

namespace Interlingua

mutual
/-- A term without its parentheses. -/
def Term.bare : Term → Term
  | .ident name => .ident name
  | .int value => .int value
  | .bool value => .bool value
  | .null => .null
  | .str value => .str value
  | .binary op left right => .binary op left.bare right.bare
  | .unary op operand => .unary op operand.bare
  | .assign op target value => .assign op target.bare value.bare
  | .ternary cond whenTrue whenFalse => .ternary cond.bare whenTrue.bare whenFalse.bare
  | .paren inner => inner.bare
  | .call callee args => .call callee.bare (Term.bareAll args)
  | .method receiver name args => .method receiver.bare name (Term.bareAll args)
  | .index target position => .index target.bare position.bare
  | .member target name => .member target.bare name

/-- Terms without their parentheses. -/
def Term.bareAll : List Term → List Term
  | [] => []
  | term :: terms => term.bare :: Term.bareAll terms
end

mutual
/-- Whether every binary operator has a spelling of its own. -/
def Term.spellsApart (lang : Language) : Term → Bool
  | .ident _ | .int _ | .bool _ | .null | .str _ => true
  | .binary op left right =>
    lang.spellsApart op && left.spellsApart lang && right.spellsApart lang
  | .unary _ operand => operand.spellsApart lang
  | .assign _ target value => target.spellsApart lang && value.spellsApart lang
  | .ternary cond whenTrue whenFalse =>
    cond.spellsApart lang && whenTrue.spellsApart lang && whenFalse.spellsApart lang
  | .paren inner => inner.spellsApart lang
  | .call callee args => callee.spellsApart lang && Term.allSpellApart lang args
  | .method receiver _ args => receiver.spellsApart lang && Term.allSpellApart lang args
  | .index target position => target.spellsApart lang && position.spellsApart lang
  | .member target _ => target.spellsApart lang

/-- The same for all of some terms. -/
def Term.allSpellApart (lang : Language) : List Term → Bool
  | [] => true
  | term :: terms => term.spellsApart lang && Term.allSpellApart lang terms
end

namespace Spelling

variable {lang : Language} {limit : Nat} {left : Term} {rest : List Face}

/-! ## Steps of the reader -/

/-- What comes next does not go on from an operand that is read under the limit. -/
def Stops (lang : Language) (limit : Nat) : List Face → Prop
  | [] => True
  | (value, .operator) :: _ =>
    ∀ joint form, joint? lang value = some (joint, form) → limit < form.level
  | (_, .separator) :: _ | (_, .callOpenBrace) :: _ | (_, .subscriptOpenBrace) :: _ => False
  | _ => True

theorem Stops.mono {less : Nat} {faces : List Face} (h : Stops lang limit faces)
    (hle : less ≤ limit) : Stops lang less faces := by
  unfold Stops at h ⊢
  split at h
  · trivial
  · exact fun joint form hj => Nat.lt_of_le_of_lt hle (h joint form hj)
  · exact h
  · exact h
  · exact h
  · trivial

theorem climb_stops {faces : List Face} (left : Term) (h : Stops lang limit faces) :
    climb lang limit left faces = some (left, faces) := by
  rw [climb_eq]
  split
  · rename_i value rest
    split
    · rfl
    · rename_i joint form hj
      rw [if_pos (h joint form hj)]
  · exact h.elim
  · exact h.elim
  · exact h.elim
  · exact h.elim
  · rfl

section Joints

variable {value : String} {form : OperatorForm} {op : UnaryOp} {binary : BinaryOp} {assign : AssignOp}

theorem climb_after (hj : joint? lang value = some (.after op, form)) (hlevel : form.level ≤ limit) :
    climb lang limit left ((value, .operator) :: rest) = climb lang limit (.unary op left) rest := by
  rw [climb_eq]
  simp only [hj]
  rw [if_neg (by omega)]

theorem climb_binary (hj : joint? lang value = some (.binary binary, form))
    (hlevel : form.level ≤ limit) :
    climb lang limit left ((value, .operator) :: rest) = (expr lang form.rightLimit rest).bind
      fun (right, rest) => climb lang limit (.binary binary left right) rest := by
  rw [climb_eq]
  simp only [hj]
  rw [if_neg (by omega)]

theorem climb_assign (hj : joint? lang value = some (.assign assign, form))
    (hlevel : form.level ≤ limit) :
    climb lang limit left ((value, .operator) :: rest) = (expr lang form.rightLimit rest).bind
      fun (right, rest) => climb lang limit (.assign assign left right) rest := by
  rw [climb_eq]
  simp only [hj]
  rw [if_neg (by omega)]

theorem climb_ternary {center right : Term} {second : String} {middle after : List Face}
    (hj : joint? lang value = some (.ternary, form)) (hlevel : form.level ≤ limit)
    (hcenter : expr lang (form.level - 1) middle = some (center, (second, .operator) :: after))
    (hright : expr lang form.rightLimit after = some (right, rest)) :
    climb lang limit left ((value, .operator) :: middle) =
      climb lang limit (conditional lang left center right) rest := by
  rw [climb_eq]
  simp only [hj]
  rw [if_neg (by omega)]
  simp [hcenter, hright, skip?]

end Joints

theorem climb_member (name : String) :
    climb lang limit left ((".", .separator) :: (name, .identifier) :: rest) =
      climb lang limit (.member left name) rest := by
  rw [climb_eq]

theorem climb_method {args : List Term} {faces : List Face} (name : String)
    (h : arguments lang faces = some (args, rest)) :
    climb lang limit left ((".", .separator) :: (name, .callableIdentifier) :: faces) =
      climb lang limit (.method left name args) rest := by
  rw [climb_eq]
  simp [h]

theorem climb_call {args : List Term} {value : String} {faces : List Face}
    (h : arguments lang ((value, .callOpenBrace) :: faces) = some (args, rest)) :
    climb lang limit left ((value, .callOpenBrace) :: faces) =
      climb lang limit (.call left args) rest := by
  rw [climb_eq]
  simp [h]

theorem climb_index {position : Term} {value closing : String} {faces : List Face}
    (h : expr lang top faces = some (position, (closing, .subscriptCloseBrace) :: rest)) :
    climb lang limit left ((value, .subscriptOpenBrace) :: faces) =
      climb lang limit (.index left position) rest := by
  rw [climb_eq]
  simp [h, skip?]

/-- No argument starts with the parenthesis that ends arguments. -/
theorem arguments_of_list {args : List Term} {value : String} {faces : List Face}
    (h : argumentList lang faces = some (args, rest)) :
    arguments lang ((value, .callOpenBrace) :: faces) = some (args, rest) := by
  rw [arguments_eq]
  split
  · rename_i heq
    cases heq
    rw [argumentList_eq, expr_eq, primary_eq] at h
    simp at h
  · rename_i heq
    cases heq
    exact h
  · rename_i hno
    exact absurd rfl (hno value faces)

/-- Arguments are read between their parentheses, whether there are any or none. -/
theorem arguments_print {args : List Term} {printed : List Token}
    (hp : Term.argTokens? lang args = some printed)
    (h : args ≠ [] → ∀ rest, argumentList lang (printed.map Token.face ++
      (")", .callCloseBrace) :: rest) = some (Term.bareAll args, rest)) (rest : List Face) :
    arguments lang (("(", .callOpenBrace) :: (printed.map Token.face ++
      (")", .callCloseBrace) :: rest)) = some (Term.bareAll args, rest) := by
  cases args with
  | nil =>
    cases hp
    rw [arguments_eq]
    rfl
  | cons arg args => exact arguments_of_list (h (by simp) rest)

/-! ## What is printed is read -/

/-- Wherever the tokens stand, they are read as the bare term: reading goes on after them with the
term as left operand, provided that the term is within the limit and that what follows does not
reach into its end. -/
def Reads (lang : Language) (term : Term) (printed : List Token) : Prop :=
  ∀ (rest : List Face) (limit : Nat), term.level lang ≤ limit →
    lang.operators.access.level ≤ limit →
    (∀ edge, term.edge? lang = some edge → Stops lang edge rest) →
    expr lang limit (printed.map Token.face ++ rest) = climb lang limit term.bare rest

theorem access_le_top (lang : Language) : lang.operators.access.level ≤ top := by
  cases lang <;> decide

namespace Reads

variable {term : Term} {printed : List Token} {parent : OperatorForm}

/-- A term that fills the space between delimiters is read up to the closing one. -/
theorem enclosed (h : Reads lang term printed) (hstop : ∀ limit, Stops lang limit rest) :
    expr lang top (printed.map Token.face ++ rest) = some (term.bare, rest) := by
  rw [h rest top (Nat.le_of_lt (term.level_lt lang)) (access_le_top lang) fun edge _ => hstop edge]
  exact climb_stops _ (hstop top)

/-- A group is read as what is inside it, whatever the limit is. -/
theorem grouped (h : Reads lang term printed) :
    expr lang limit ((Token.plain "(" .openBrace :: printed ++
        [Token.plain ")" .closeBrace]).map Token.face ++ rest) =
      climb lang limit term.bare rest := by
  have hread : expr lang top (printed.map Token.face ++ (")", .closeBrace) :: rest) =
      some (term.bare, (")", .closeBrace) :: rest) := h.enclosed fun _ => trivial
  rw [expr_eq, primary_eq]
  simp [hread, skip?]

/-- An operand is read as its term, grouped or not. -/
theorem placed {side : Side} (h : Reads lang term printed)
    (haccess : lang.operators.access.level ≤ limit)
    (hbare : term.wraps lang parent side = false → term.level lang ≤ limit ∧
      ∀ edge, term.edge? lang = some edge → Stops lang edge rest) :
    expr lang limit ((term.placed lang parent side printed).map Token.face ++ rest) =
      climb lang limit term.bare rest := by
  unfold Term.placed
  cases hw : term.wraps lang parent side with
  | true =>
    rw [if_pos rfl]
    exact h.grouped
  | false =>
    rw [if_neg (by decide)]
    exact h rest limit (hbare hw).1 haccess (hbare hw).2

/-- The left operand ends before its operator. -/
theorem first {joint : Joint} (h : Reads lang term printed) (hfits : lang.fits parent = true)
    (hplace : parent.place ≠ .after) (hj : joint? lang parent.value = some (joint, parent))
    (haccess : lang.operators.access.level ≤ limit) (hlevel : parent.level ≤ limit) :
    expr lang limit ((term.placed lang parent .left printed).map Token.face ++
        (parent.value, .operator) :: rest) =
      climb lang limit term.bare ((parent.value, .operator) :: rest) := by
  refine h.placed haccess fun hw => ⟨Term.level_le_of_left hw hlevel, fun edge hedge => ?_⟩
  intro joint' form' hj'
  rw [hj] at hj'
  cases hj'
  exact Term.edge_lt_of_left hfits hplace hw hedge

/-- The last operand is read to its end. -/
theorem last (h : Reads lang term printed) (hfits : lang.fits parent = true)
    (hplace : parent.place ≠ .after) (hstop : Stops lang parent.rightLimit rest) :
    expr lang parent.rightLimit ((term.placed lang parent .right printed).map Token.face ++ rest) =
      some (term.bare, rest) := by
  rw [h.placed (Language.fits_rightLimit hfits hplace) fun hw => ?_]
  · exact climb_stops _ hstop
  · have hle := Term.level_le_rightLimit hw
    exact ⟨hle, fun edge hedge => hstop.mono ((Term.edge?_le_level hedge).trans hle)⟩

/-- The middle operand is read to the second part of its operator. -/
theorem middle (h : Reads lang term printed) (hfits : lang.fits parent = true)
    (hplace : parent.place ≠ .after) (hstop : ∀ limit, Stops lang limit rest) :
    expr lang (parent.level - 1) ((term.placed lang parent .center printed).map Token.face ++ rest) =
      some (term.bare, rest) := by
  have haccess : lang.operators.access.level ≤ parent.level - 1 := by
    simp only [Language.fits, hplace, if_false, decide_eq_true_eq] at hfits
    omega
  rw [h.placed haccess fun hw => ⟨Term.level_le_pred_of_center hw, fun edge _ => hstop edge⟩]
  exact climb_stops _ (hstop _)

/-- What access and operators after their operand go on from is closed, so anything may follow. -/
theorem target (h : Reads lang term printed) (hlevel : parent.level = lang.operators.access.level)
    (haccess : lang.operators.access.level ≤ limit) :
    expr lang limit ((term.placed lang parent .left printed).map Token.face ++ rest) =
      climb lang limit term.bare rest := by
  refine h.placed haccess fun hw => ⟨Term.level_le_of_left hw (hlevel ▸ haccess), fun edge hedge => ?_⟩
  rw [Term.edge?_eq_none_of_after hlevel hw] at hedge
  cases hedge

/-- A term of one token that is an operand by itself. -/
theorem single {value : String} {kind : TokenKind}
    (h : ∀ rest, primary lang ((value, kind) :: rest) = some (term.bare, rest)) :
    Reads lang term [.plain value kind] := by
  intro rest limit _ _ _
  rw [expr_eq]
  simp [h]

/-- An operator between two operands, given how the reader goes on at it. -/
theorem between {left right : Term} {lefts rights : List Token} {joint : Joint}
    {node : Term → Term → Term} (hl : Reads lang left lefts) (hr : Reads lang right rights)
    (hfits : lang.fits parent = true) (hplace : parent.place ≠ .after)
    (hj : joint? lang parent.value = some (joint, parent))
    (hform : term.form? lang = some parent) (hbare : term.bare = node left.bare right.bare)
    (hclimb : ∀ {limit : Nat} {left : Term} {rest : List Face}, parent.level ≤ limit →
      climb lang limit left ((parent.value, .operator) :: rest) =
        (expr lang parent.rightLimit rest).bind
          fun (right, rest) => climb lang limit (node left right) rest) :
    Reads lang term (left.placed lang parent .left lefts ++ .ofForm parent ::
      right.placed lang parent .right rights) := by
  intro rest limit hlevel haccess hstop
  have hlimit : parent.level ≤ limit := by simpa [Term.level, hform] using hlevel
  have hstop : Stops lang parent.rightLimit rest :=
    hstop _ (by simp [Term.edge?, hform, OperatorForm.edge?, hplace])
  rw [List.map_append, List.append_assoc, List.map_cons, List.cons_append, Token.face_ofForm,
    hl.first hfits hplace hj haccess hlimit, hclimb hlimit, hr.last hfits hplace hstop, hbare]
  rfl

/-- An operator before its operand. -/
theorem leading {op : UnaryOp} {form : OperatorForm} (h : Reads lang term printed)
    (hform : lang.operators.unary op = some form) (hlead : form.isLeading = true) :
    Reads lang (.unary op term) (.ofForm form :: term.placed lang form .right printed) := by
  intro rest limit _ _ hstop
  have hplace : form.place ≠ .after := by
    simp only [OperatorForm.isLeading, Bool.and_eq_true, beq_iff_eq] at hlead
    simp [hlead.2]
  have hform? : (Term.unary op term).form? lang = some form := hform
  have hstop : Stops lang form.rightLimit rest :=
    hstop _ (by simp [Term.edge?, hform?, OperatorForm.edge?, hplace])
  have hoperand := h.last (Language.fits_unary hform) hplace hstop
  rw [List.map_cons, List.cons_append, Token.face_ofForm, expr_eq, primary_eq]
  simp [leading?_eq hform hlead, hoperand, Term.bare]

/-- An operator after its operand. -/
theorem trailing {op : UnaryOp} {form : OperatorForm} (h : Reads lang term printed)
    (hform : lang.operators.unary op = some form) (hlead : form.isLeading = false) :
    Reads lang (.unary op term) (term.placed lang form .left printed ++ [.ofForm form]) := by
  intro rest limit _ haccess _
  have hlevel : form.level = lang.operators.access.level := by
    have hfits := Language.fits_unary hform
    rw [Language.fits, Language.place_unary hform hlead] at hfits
    simp only [if_true, decide_eq_true_eq] at hfits
    exact hfits.2.2
  rw [List.map_append, List.append_assoc, h.target hlevel haccess]
  exact climb_after (joint?_after hform hlead) (hlevel ▸ haccess)

/-- The conditional operator, whatever its operands stand for. -/
theorem conditional {left center right : Term} {lefts centers rights : List Token}
    (hl : Reads lang left lefts) (hc : Reads lang center centers) (hr : Reads lang right rights)
    (hform : term.form? lang = some lang.operators.ternary.1)
    (hbare : term.bare = Spelling.conditional lang left.bare center.bare right.bare) :
    Reads lang term (left.placed lang lang.operators.ternary.1 .left lefts ++
      .ofForm lang.operators.ternary.1 ::
        (center.placed lang lang.operators.ternary.1 .center centers ++
          .ofForm lang.operators.ternary.2 ::
            right.placed lang lang.operators.ternary.1 .right rights)) := by
  intro rest limit hlevel haccess hstop
  have hfits := lang.fits_ternary
  have hplace : lang.operators.ternary.1.place ≠ .after := by cases lang <;> decide
  have hlimit : lang.operators.ternary.1.level ≤ limit := by
    simpa [Term.level, hform] using hlevel
  have hstop : Stops lang lang.operators.ternary.1.rightLimit rest :=
    hstop _ (by simp [Term.edge?, hform, OperatorForm.edge?, hplace])
  -- the second part is no operator after an operand, so the middle operand ends there
  have hsecond : ∀ (limit : Nat) (faces : List Face),
      Stops lang limit ((lang.operators.ternary.2.value, .operator) :: faces) := by
    intro limit faces joint form hj
    rw [joint?_ternary_second] at hj
    cases hj
  simp only [List.map_append, List.append_assoc, List.map_cons, List.cons_append, Token.face_ofForm]
  rw [hl.first hfits hplace (joint?_ternary lang) haccess hlimit,
    climb_ternary (joint?_ternary lang) hlimit
      (hc.middle hfits hplace fun limit => hsecond limit _) (hr.last hfits hplace hstop), hbare]

end Reads

mutual
/-- **What a term prints is read as the bare term.** -/
theorem expr_print : ∀ (term : Term) {printed : List Token}, term.spellsApart lang = true →
    term.tokens? lang = some printed → Reads lang term printed
  | .ident name, printed, _, hp => by
    cases hp
    exact .single fun rest => by rw [primary_eq]; rfl
  | .int value, printed, _, hp => by
    cases hp
    exact .single fun rest => by rw [primary_eq]; simp [literal?_numeral, Term.bare]
  | .str value, printed, _, hp => by
    cases hp
    exact .single fun rest => by rw [primary_eq]; simp [literal?_quote, Term.bare]
  | .bool true, printed, _, hp => by
    obtain ⟨text, hword, rfl⟩ := Option.map_eq_some_iff.1 hp
    exact .single fun rest => by rw [primary_eq]; simp [literal?_word_true hword, Term.bare]
  | .bool false, printed, _, hp => by
    obtain ⟨text, hword, rfl⟩ := Option.map_eq_some_iff.1 hp
    exact .single fun rest => by rw [primary_eq]; simp [literal?_word_false hword, Term.bare]
  | .null, printed, _, hp => by
    obtain ⟨text, hword, rfl⟩ := Option.map_eq_some_iff.1 hp
    exact .single fun rest => by rw [primary_eq]; simp [literal?_word_null hword, Term.bare]
  | .binary op left right, printed, ha, hp => by
    simp only [Term.spellsApart, Bool.and_eq_true] at ha
    simp only [Term.tokens?, Option.bind_eq_bind, Option.bind_eq_some_iff, Option.pure_def,
      Option.some.injEq] at hp
    obtain ⟨form, hform, lefts, hlefts, rights, hrights, rfl⟩ := hp
    have hplace : form.place ≠ .after := Language.place_binary hform
    exact (expr_print left ha.1.2 hlefts).between (expr_print right ha.2 hrights)
      (Language.fits_binary hform) hplace (joint?_binary hform ha.1.1) hform rfl
      (climb_binary (joint?_binary hform ha.1.1))
  | .assign op target value, printed, ha, hp => by
    simp only [Term.spellsApart, Bool.and_eq_true] at ha
    simp only [Term.tokens?, Option.bind_eq_bind, Option.bind_eq_some_iff, Option.pure_def,
      Option.some.injEq] at hp
    obtain ⟨form, hform, lefts, hlefts, rights, hrights, rfl⟩ := hp
    exact (expr_print target ha.1 hlefts).between (expr_print value ha.2 hrights)
      (Language.fits_assign hform) (Language.place_assign hform) (joint?_assign hform)
      (by simp [Term.form?, hform]) rfl (climb_assign (joint?_assign hform))
  | .unary op operand, printed, ha, hp => by
    simp only [Term.spellsApart] at ha
    simp only [Term.tokens?, Option.bind_eq_bind, Option.bind_eq_some_iff, Option.pure_def,
      Option.some.injEq] at hp
    obtain ⟨form, hform, tokens, htokens, rfl⟩ := hp
    have ho := expr_print operand ha htokens
    cases hlead : form.isLeading with
    | true => exact ho.leading hform hlead
    | false => exact ho.trailing hform hlead
  | .ternary cond whenTrue whenFalse, printed, ha, hp => by
    simp only [Term.spellsApart, Bool.and_eq_true] at ha
    simp only [Term.tokens?, Option.bind_eq_bind, Option.bind_eq_some_iff, Option.pure_def,
      Option.some.injEq] at hp
    obtain ⟨conds, hconds, trues, htrues, falses, hfalses, rfl⟩ := hp
    have hc := expr_print cond ha.1.1 hconds
    have ht := expr_print whenTrue ha.1.2 htrues
    have hf := expr_print whenFalse ha.2 hfalses
    cases hlayout : lang.operators.ternaryLayout with
    | condFirst => exact hc.conditional ht hf rfl (by simp [Spelling.conditional, hlayout, Term.bare])
    | thenFirst => exact ht.conditional hc hf rfl (by simp [Spelling.conditional, hlayout, Term.bare])
  | .paren inner, printed, ha, hp => by
    simp only [Term.spellsApart] at ha
    simp only [Term.tokens?, Option.bind_eq_bind, Option.bind_eq_some_iff, Option.pure_def,
      Option.some.injEq] at hp
    obtain ⟨tokens, htokens, rfl⟩ := hp
    exact fun rest limit _ _ _ => (expr_print inner ha htokens).grouped
  | .call callee args, printed, ha, hp => by
    simp only [Term.spellsApart, Bool.and_eq_true] at ha
    simp only [Term.tokens?, Option.bind_eq_bind, Option.bind_eq_some_iff, Option.pure_def,
      Option.some.injEq] at hp
    obtain ⟨targets, htargets, list, hlist, rfl⟩ := hp
    have hargs := arguments_print hlist fun hne => argumentList_print args hne ha.2 hlist
    intro rest limit _ haccess _
    rcases Term.calleeTokens_cases htargets with ⟨name, rfl, rfl⟩ | ⟨tokens, htokens, rfl⟩
    · rw [expr_eq, primary_eq]
      simp [hargs rest, Term.bare]
    · simp only [List.map_append, List.append_assoc, List.map_cons, List.cons_append, List.map_nil,
        List.nil_append, Token.face_plain]
      rw [(expr_print callee ha.1 htokens).target rfl haccess, climb_call (hargs rest)]
      rfl
  | .method receiver name args, printed, ha, hp => by
    simp only [Term.spellsApart, Bool.and_eq_true] at ha
    simp only [Term.tokens?, Option.bind_eq_bind, Option.bind_eq_some_iff, Option.pure_def,
      Option.some.injEq] at hp
    obtain ⟨tokens, htokens, list, hlist, rfl⟩ := hp
    have hargs := arguments_print hlist fun hne => argumentList_print args hne ha.2 hlist
    intro rest limit _ haccess _
    simp only [List.map_append, List.append_assoc, List.map_cons, List.cons_append, List.map_nil,
      List.nil_append, Token.face_plain]
    rw [(expr_print receiver ha.1 htokens).target rfl haccess, climb_method name (hargs rest)]
    rfl
  | .index target position, printed, ha, hp => by
    simp only [Term.spellsApart, Bool.and_eq_true] at ha
    simp only [Term.tokens?, Option.bind_eq_bind, Option.bind_eq_some_iff, Option.pure_def,
      Option.some.injEq] at hp
    obtain ⟨tokens, htokens, positions, hpositions, rfl⟩ := hp
    intro rest limit _ haccess _
    simp only [List.map_append, List.append_assoc, List.map_cons, List.cons_append, List.map_nil,
      List.nil_append, Token.face_plain]
    rw [(expr_print target ha.1 htokens).target rfl haccess,
      climb_index ((expr_print position ha.2 hpositions).enclosed fun _ => trivial)]
    rfl
  | .member target name, printed, ha, hp => by
    simp only [Term.spellsApart] at ha
    simp only [Term.tokens?, Option.bind_eq_bind, Option.bind_eq_some_iff, Option.pure_def,
      Option.some.injEq] at hp
    obtain ⟨tokens, htokens, rfl⟩ := hp
    intro rest limit _ haccess _
    simp only [List.map_append, List.append_assoc, List.map_cons, List.cons_append, List.map_nil,
      List.nil_append, Token.face_plain]
    rw [(expr_print target ha htokens).target rfl haccess, climb_member]
    rfl

/-- One argument or more are read up to the closing parenthesis. -/
theorem argumentList_print : ∀ (args : List Term) {printed : List Token}, args ≠ [] →
    Term.allSpellApart lang args = true → Term.argTokens? lang args = some printed →
    ∀ rest, argumentList lang (printed.map Token.face ++ (")", .callCloseBrace) :: rest) =
      some (Term.bareAll args, rest)
  | [], _, hne, _, _, _ => absurd rfl hne
  | [arg], printed, _, ha, hp, rest => by
    simp only [Term.allSpellApart, Bool.and_eq_true] at ha
    have harg : expr lang top (printed.map Token.face ++ (")", .callCloseBrace) :: rest) =
        some (arg.bare, (")", .callCloseBrace) :: rest) :=
      (expr_print arg ha.1 hp).enclosed fun _ => trivial
    rw [argumentList_eq]
    simp [harg, Term.bareAll]
  | arg :: next :: args, printed, _, ha, hp, rest => by
    rw [Term.allSpellApart, Bool.and_eq_true] at ha
    rw [Term.argTokens?_cons_cons] at hp
    simp only [Option.bind_eq_bind, Option.bind_eq_some_iff, Option.pure_def,
      Option.some.injEq] at hp
    obtain ⟨tokens, htokens, others, hothers, rfl⟩ := hp
    have hargs := argumentList_print (next :: args) (by simp) ha.2 hothers rest
    have harg : expr lang top (tokens.map Token.face ++
          (",", .comma) :: (others.map Token.face ++ (")", .callCloseBrace) :: rest)) =
        some (arg.bare, (",", .comma) :: (others.map Token.face ++ (")", .callCloseBrace) :: rest)) :=
      (expr_print arg ha.1 htokens).enclosed fun _ => trivial
    simp only [List.map_append, List.append_assoc, List.map_cons, List.cons_append,
      Token.face_plain]
    rw [argumentList_eq, harg]
    simp [hargs, Term.bareAll]
end

end Spelling

/-! ## Unique readability -/

/-- The tokens of an identity that names a term are read as the bare term. -/
theorem Spelling.expr_linearize {lang : Language} {arena : Arena} {id : NodeId} {term : Term}
    {tokens : Tokens} (hat : term.At arena id) (hapart : term.spellsApart lang = true)
    (h : lang.linearize arena id = .ok tokens) :
    expr lang top (tokens.toList.map Token.face) = some (term.bare, []) := by
  have hprinted : term.tokens? lang = some (tokens.toList.map Token.untagged) := by
    rw [← hat.linearize_eq lang, h]
    rfl
  have hread : expr lang top ((tokens.toList.map Token.untagged).map Token.face ++ []) =
      some (term.bare, []) := (expr_print term hapart hprinted).enclosed fun _ => trivial
  simpa [Function.comp_def] using hread

/-- **Expressions whose tokens look alike differ in parentheses only.** -/
theorem Language.bare_eq_of_faces_eq (lang : Language) {arena arena' : Arena} {id id' : NodeId}
    {term term' : Term} {tokens tokens' : Tokens} (hat : term.At arena id)
    (hat' : term'.At arena' id') (hapart : term.spellsApart lang = true)
    (hapart' : term'.spellsApart lang = true) (h : lang.linearize arena id = .ok tokens)
    (h' : lang.linearize arena' id' = .ok tokens')
    (hfaces : tokens.toList.map Token.face = tokens'.toList.map Token.face) :
    term.bare = term'.bare := by
  have hread := Spelling.expr_linearize hat hapart h
  rw [hfaces, Spelling.expr_linearize hat' hapart' h'] at hread
  exact (Prod.mk.inj (Option.some.inj hread)).1.symm

/-- `f(a - (b - c))++`, once with the parentheses that the grouping rules ask for and once with
parentheses of the tree itself. -/
theorem Language.bare_eq_of_faces_eq_grouped :
    let difference : Term := .binary .sub (.ident "b") (.ident "c")
    let term (right : Term) : Term :=
      .unary .postInc (.call (.ident "f") [.binary .sub (.ident "a") right])
    let shared : Array Node := #[.expr (.ident "f"), .expr (.ident "a"), .expr (.ident "b"),
      .expr (.ident "c"), .expr (.binary .sub ⟨2⟩ ⟨3⟩)]
    let arena : Arena := ⟨shared ++ #[.expr (.binary .sub ⟨1⟩ ⟨4⟩), .expr (.call ⟨0⟩ [⟨5⟩]),
      .expr (.unary .postInc ⟨6⟩)]⟩
    let arena' : Arena := ⟨shared ++ #[.expr (.paren ⟨4⟩), .expr (.binary .sub ⟨1⟩ ⟨5⟩),
      .expr (.call ⟨0⟩ [⟨6⟩]), .expr (.unary .postInc ⟨7⟩)]⟩
    ∃ tokens tokens', Language.java.linearize arena ⟨7⟩ = .ok tokens ∧
      Language.java.linearize arena' ⟨8⟩ = .ok tokens' ∧
      tokens.toList.map Token.face = tokens'.toList.map Token.face ∧
      (term difference).bare = (term (.paren difference)).bare := by
  intro difference term shared arena arena'
  have hat : (term difference).At arena ⟨7⟩ :=
    ⟨⟨6⟩, rfl, ⟨0⟩, [⟨5⟩], rfl, rfl, ⟨⟨1⟩, ⟨4⟩, rfl, rfl, ⟨2⟩, ⟨3⟩, rfl, rfl, rfl⟩, trivial⟩
  have hat' : (term (.paren difference)).At arena' ⟨8⟩ :=
    ⟨⟨7⟩, rfl, ⟨0⟩, [⟨6⟩], rfl, rfl,
      ⟨⟨1⟩, ⟨5⟩, rfl, rfl, ⟨4⟩, rfl, ⟨2⟩, ⟨3⟩, rfl, rfl, rfl⟩, trivial⟩
  refine ⟨_, _, rfl, rfl, by decide, ?_⟩
  exact Language.java.bare_eq_of_faces_eq hat hat' (by decide) (by decide) rfl rfl (by decide)

end Interlingua
