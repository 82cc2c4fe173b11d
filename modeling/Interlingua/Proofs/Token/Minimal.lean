import Interlingua.Proofs.Arena.Unfolding
import Interlingua.Proofs.Emit.Structure
import Interlingua.Proofs.Token.Climbing

/-!
# No parentheses can be left out

Parentheses are printed around an operand only where it has to be grouped, and a reader that goes by
binding levels makes another tree of the tokens that are left without them.  The argument counts: a
tree is read off tokens only if they have a group for each operand of it that has to be grouped.

* `Operation.groups` — how many operands of a tree have to be grouped.  So many groups are printed
  (`Operation.opens_print`).
* `Climbing.follow` — names and operators take turns, and each group that is closed is open.
* `Climbing.exists_expr` — tokens that take turns are read, and what is read is *settled*: either a
  group is to spare, or the tree is within the limit and nothing that follows reaches into its end.
* `Token.Pair` — a group among tokens, told by its two parentheses.
* `Climbing.read_without` — **without any one pair of parentheses, the tokens are read as another
  tree.**
-/

namespace Interlingua

/-! ## Groups -/

namespace Token

/-- How many groups some tokens open. -/
def opens (tokens : List Token) : Nat := tokens.countP (·.kind == .openBrace)

@[simp] theorem opens_nil : opens [] = 0 := rfl

@[simp] theorem opens_append (first second : List Token) :
    opens (first ++ second) = opens first + opens second := List.countP_append

theorem opens_cons (token : Token) (tokens : List Token) :
    opens (token :: tokens) = opens tokens + if token.kind = .openBrace then 1 else 0 := by
  simp [opens, List.countP_cons]

theorem opens_cons_of_ne {token : Token} (h : token.kind ≠ .openBrace) (tokens : List Token) :
    opens (token :: tokens) = opens tokens := by
  simp [opens_cons, h]

@[simp] theorem opens_untagged (tokens : List Token) :
    opens (tokens.map untagged) = opens tokens := by
  induction tokens with
  | nil => rfl
  | cons token tokens ih =>
    rw [List.map_cons, opens_cons, opens_cons, ih]
    rfl

end Token

open Token (opens)

/-- An operand that is grouped has one group more. -/
theorem Term.opens_placed (lang : Language) (parent : OperatorForm) (side : Side) (term : Term)
    (tokens : List Token) :
    opens (term.placed lang parent side tokens) =
      opens tokens + (term.wraps lang parent side).toNat := by
  unfold placed
  cases term.wraps lang parent side with
  | true => simp [Token.opens_cons, Token.plain]
  | false => simp

namespace Operation

variable {lang : Language}

/-- How many operands of a tree have to be grouped. -/
def groups (lang : Language) : Operation → Nat
  | .ident _ => 0
  | .binary op left right =>
    left.groups lang + right.groups lang +
      match lang.operators.binary op with
      | some form =>
        (left.term.wraps lang form .left).toNat + (right.term.wraps lang form .right).toNat
      | none => 0
  | .unary op operand =>
    operand.groups lang +
      match lang.operators.unary op with
      | some form => (operand.term.wraps lang form .right).toNat
      | none => 0

theorem groups_binary {op : BinaryOp} {form : OperatorForm}
    (hform : lang.operators.binary op = some form) (left right : Operation) :
    (binary op left right).groups lang = left.groups lang + right.groups lang +
      ((left.term.wraps lang form .left).toNat + (right.term.wraps lang form .right).toNat) := by
  rw [groups, hform]

/-- **A tree is printed with a group for each operand that has to be grouped, and no other.** -/
theorem opens_print : ∀ {tree : Operation} {printed : List Token}, tree.isReadable lang = true →
    tree.term.tokens? lang = some printed → opens printed = tree.groups lang
  | .ident _, _, _, hp => by
    cases hp
    rfl
  | .binary op left right, printed, hr, hp => by
    simp only [isReadable, Bool.and_eq_true] at hr
    obtain ⟨⟨⟨hsome, -⟩, hl⟩, hr⟩ := hr
    obtain ⟨form, hform⟩ := Option.isSome_iff_exists.1 hsome
    simp only [term, Term.tokens?, hform, Option.bind_eq_bind, Option.bind_some,
      Option.bind_eq_some_iff, Option.pure_def, Option.some.injEq] at hp
    obtain ⟨lefts, hlefts, rights, hrights, rfl⟩ := hp
    have hopens := opens_print hl hlefts
    have hopens' := opens_print hr hrights
    rw [Token.opens_append, Token.opens_cons_of_ne (by simp [Token.ofForm]), Term.opens_placed,
      Term.opens_placed, groups_binary hform, hopens, hopens']
    omega
  | .unary op operand, printed, hr, hp => by
    simp only [isReadable, Bool.and_eq_true] at hr
    obtain ⟨hlead, ho⟩ := hr
    obtain ⟨form, hform, hlead⟩ := (Option.any_eq_true _ _).1 hlead
    simp only [term, Term.tokens?, hform, hlead, Option.bind_eq_bind, Option.bind_some,
      Option.bind_eq_some_iff, Option.pure_def, Option.some.injEq, if_true] at hp
    obtain ⟨inner, hinner, rfl⟩ := hp
    rw [Token.opens_cons_of_ne (by simp [Token.ofForm]), Term.opens_placed, opens_print ho hinner,
      groups, hform]

end Operation

/-! ## Operands that need no group -/

namespace OperatorForm

variable {lang : Language} {parent child : OperatorForm}

/-- What ends before an operator that chains needs no group on its left. -/
theorem mustGroup_left_eq_false (hparent : lang.fits parent = true) (hchild : lang.fits child = true)
    (hstrict : parent.strict = false) (hlead : parent.isLeading = false)
    (h : child.rightLimit < parent.level) : parent.mustGroup child .left = false := by
  simp only [Language.fits, decide_eq_true_eq] at hparent hchild
  unfold rightLimit at h
  unfold mustGroup
  by_cases hlevel : child.level = parent.level
  · have hassoc : child.assoc = parent.assoc := by rw [hchild.1, hparent.1, hlevel]
    rw [if_neg (by simpa using hlevel), hstrict, hlead]
    cases hside : parent.assoc with
    | left => simp
    | right =>
      -- operators that are grouped from the right go on at their own level
      rw [hassoc, hside] at h
      change child.level < parent.level at h
      omega
  · rw [if_pos (by simpa using hlevel)]
    have hlt : ¬ parent.level < child.level := by
      split at h <;> omega
    simp [hlt]

/-- What is within the limit of an operator that chains needs no group on its right. -/
theorem mustGroup_right_eq_false (hstrict : parent.strict = false)
    (hlead : parent.isLeading = false) (hpos : 0 < parent.level)
    (h : child.level ≤ parent.rightLimit) : parent.mustGroup child .right = false := by
  unfold rightLimit at h
  unfold mustGroup
  by_cases hlevel : child.level = parent.level
  · rw [if_neg (by simpa using hlevel), hstrict, hlead]
    cases hside : parent.assoc with
    | left =>
      rw [hside] at h
      change child.level ≤ parent.level - 1 at h
      omega
    | right => simp
  · rw [if_pos (by simpa using hlevel)]
    have hlt : ¬ parent.level < child.level := by
      split at h <;> omega
    simp [hlt]

end OperatorForm

namespace Climbing

variable {lang : Language}

/-! ## Names and operators that take turns -/

/-- How many groups are open, and whether an operand is due, after one more token.  An operator has
to chain and to have a spelling of its own. -/
def advance (lang : Language) (state : Nat × Bool) (token : Token) : Option (Nat × Bool) :=
  match state, token.kind with
  | (depth, true), .openBrace => some (depth + 1, true)
  | (depth, true), .identifier => some (depth, false)
  | (depth, false), .closeBrace =>
    if (binaryAt? lang token).isNone ∧ 0 < depth then some (depth - 1, false) else none
  | (depth, false), .operator =>
    if (binaryAt? lang token).any fun (op, form) =>
        lang.operators.binary op == some form && !form.strict then
      some (depth, true)
    else none
  | _, _ => none

/-- How many groups are open, and whether an operand is due, after some tokens; none if one of them
is out of turn. -/
def follow (lang : Language) (state : Nat × Bool) (tokens : List Token) : Option (Nat × Bool) :=
  tokens.foldlM (advance lang) state

@[simp] theorem follow_nil (state : Nat × Bool) : follow lang state [] = some state := rfl

theorem follow_cons (state : Nat × Bool) (token : Token) (tokens : List Token) :
    follow lang state (token :: tokens) =
      (advance lang state token).bind fun next => follow lang next tokens := rfl

theorem follow_append (state : Nat × Bool) (first second : List Token) :
    follow lang state (first ++ second) =
      (follow lang state first).bind fun next => follow lang next second :=
  List.foldlM_append ..

theorem follow_cons_eq_some {state final : Nat × Bool} {token : Token} {tokens : List Token}
    (h : follow lang state (token :: tokens) = some final) :
    ∃ next, advance lang state token = some next ∧ follow lang next tokens = some final := by
  rw [follow_cons] at h
  exact Option.bind_eq_some_iff.1 h

/-- What can come where an operand is due. -/
theorem advance_due {depth : Nat} {token : Token} {next : Nat × Bool}
    (h : advance lang (depth, true) token = some next) :
    (token.kind = .openBrace ∧ next = (depth + 1, true)) ∨
      (token.kind = .identifier ∧ next = (depth, false)) := by
  unfold advance at h
  split at h
  · rename_i hstate hkind
    cases hstate
    cases h
    exact .inl ⟨hkind, rfl⟩
  · rename_i hstate hkind
    cases hstate
    cases h
    exact .inr ⟨hkind, rfl⟩
  · rename_i hstate _
    cases hstate
  · rename_i hstate _
    cases hstate
  · cases h

/-- What can come after an operand. -/
theorem advance_done {depth : Nat} {token : Token} {next : Nat × Bool}
    (h : advance lang (depth, false) token = some next) :
    (token.kind = .closeBrace ∧ binaryAt? lang token = none ∧ 0 < depth ∧
        next = (depth - 1, false)) ∨
      (∃ op form, token.kind = .operator ∧ binaryAt? lang token = some (op, form) ∧
        lang.operators.binary op = some form ∧ form.strict = false ∧ next = (depth, true)) := by
  unfold advance at h
  split at h
  · rename_i hstate _
    cases hstate
  · rename_i hstate _
    cases hstate
  · rename_i hstate hkind
    cases hstate
    split at h
    · rename_i hclose
      cases h
      exact .inl ⟨hkind, Option.isNone_iff_eq_none.1 hclose.1, hclose.2, rfl⟩
    · cases h
  · rename_i hstate hkind
    cases hstate
    split at h
    · rename_i hany
      cases h
      obtain ⟨⟨op, form⟩, hat, hform⟩ := (Option.any_eq_true _ _).1 hany
      simp only [Bool.and_eq_true, beq_iff_eq, Bool.not_eq_true'] at hform
      exact .inr ⟨op, form, hkind, hat, hform.1, hform.2, rfl⟩
    · cases h
  · cases h

/-! ## Reading what takes turns -/

/-- A tree that was read with some groups to its credit.  Either one of them is to spare, or the
tree is within the limit and what follows does not reach into its end. -/
structure Settled (lang : Language) (limit credit : Nat) (tree : Operation) (rest : List Token) :
    Prop where
  groups_le : tree.groups lang ≤ credit
  level_le : credit = tree.groups lang → tree.term.level lang ≤ limit
  stops : credit = tree.groups lang →
    ∀ form, tree.term.form? lang = some form → Stops lang form.rightLimit rest

theorem isLeading_binary {op : BinaryOp} {form : OperatorForm}
    (h : lang.operators.binary op = some form) : form.isLeading = false := by
  have hall : (lang.operators.binary op).all (!·.isLeading) = true := by
    cases lang <;> cases op <;> rfl
  simpa [h] using hall

namespace Settled

variable {limit credit credit' : Nat} {left right tree : Operation} {token : Token}
  {rest : List Token} {op : BinaryOp} {form : OperatorForm}

theorem ident (limit : Nat) (name : String) (rest : List Token) :
    Settled lang limit 0 (.ident name) rest where
  groups_le := Nat.le_refl 0
  level_le _ := Nat.zero_le limit
  stops _ form hform := by cases hform

/-- Between parentheses a tree has a group to spare. -/
theorem grouped (h : Settled lang limit credit tree rest) (limit' : Nat) (rest' : List Token) :
    Settled lang limit' (credit + 1) tree rest' := by
  have hle := h.groups_le
  refine ⟨by omega, fun heq => ?_, fun heq => ?_⟩
  · omega
  · omega

/-- What stands before an operator has its own group if it needs one. -/
theorem left_le (h : Settled lang limit credit left (token :: rest))
    (hat : binaryAt? lang token = some (op, form))
    (hform : lang.operators.binary op = some form) (hstrict : form.strict = false) :
    left.groups lang + (left.term.wraps lang form .left).toNat ≤ credit := by
  have hle := h.groups_le
  by_cases hcredit : credit = left.groups lang
  · have hbare : left.term.wraps lang form .left = false := by
      unfold Term.wraps
      cases hchild : left.term.form? lang with
      | none => rfl
      | some child =>
        have hlt := h.stops hcredit child hchild token rfl op form hat
        exact OperatorForm.mustGroup_left_eq_false (Language.fits_binary hform)
          (Term.fits_form hchild) hstrict (isLeading_binary hform) hlt
    rw [hbare]
    exact hle
  · have hone := Bool.toNat_le (left.term.wraps lang form .left)
    omega

/-- What stands after an operator has its own group if it needs one. -/
theorem right_le (h : Settled lang form.rightLimit credit right rest)
    (hform : lang.operators.binary op = some form) (hstrict : form.strict = false) :
    right.groups lang + (right.term.wraps lang form .right).toNat ≤ credit := by
  have hle := h.groups_le
  by_cases hcredit : credit = right.groups lang
  · have hlevel := h.level_le hcredit
    have hbare : right.term.wraps lang form .right = false := by
      unfold Term.wraps
      unfold Term.level at hlevel
      cases hchild : right.term.form? lang with
      | none => rfl
      | some child =>
        rw [hchild] at hlevel
        have hpos : 0 < form.level := by
          have hfits := Language.fits_binary hform
          have hplace := Language.place_binary hform
          simp only [Language.fits, hplace, if_false, decide_eq_true_eq] at hfits
          omega
        exact OperatorForm.mustGroup_right_eq_false hstrict (isLeading_binary hform) hpos hlevel
    rw [hbare]
    exact hle
  · have hone := Bool.toNat_le (right.term.wraps lang form .right)
    omega

/-- Two operands that are settled make a tree that is. -/
theorem binary (hleft : Settled lang limit credit left (token :: rest'))
    (hright : Settled lang form.rightLimit credit' right rest)
    (hat : binaryAt? lang token = some (op, form))
    (hform : lang.operators.binary op = some form) (hstrict : form.strict = false)
    (hlevel : form.level ≤ limit) (hstops : Stops lang form.rightLimit rest) :
    Settled lang limit (credit + credit') (.binary op left right) rest := by
  have hform? : (Operation.binary op left right).term.form? lang = some form := hform
  have hl := hleft.left_le hat hform hstrict
  have hr := hright.right_le hform hstrict
  refine ⟨?_, fun _ => ?_, fun _ found hfound => ?_⟩
  · rw [Operation.groups_binary hform]
    omega
  · simpa [Term.level, hform?] using hlevel
  · rw [hform?] at hfound
    cases hfound
    exact hstops

end Settled

mutual
/-- **Tokens that take turns are read, and what is read is settled.** -/
theorem exists_expr (limit depth : Nat) (tokens : List Token)
    (h : follow lang (depth, true) tokens = some (0, false)) :
    ∃ tree rest spent, expr lang limit tokens = some (tree, rest) ∧
      rest.length < tokens.length ∧ opens tokens = spent + opens rest ∧
      follow lang (depth, false) rest = some (0, false) ∧ Stops lang limit rest ∧
      Settled lang limit spent tree rest := by
  obtain ⟨left, rest, credit, hprimary, hlt, hopens, hfollow, hleft⟩ :=
    exists_primary limit depth tokens h
  obtain ⟨tree, last, spent, hclimb, hle, hopens', hfollow', hstops, htree⟩ :=
    exists_climb limit depth left rest credit hfollow hleft
  refine ⟨tree, last, credit + spent, ?_, by omega, by omega, hfollow', hstops, htree⟩
  rw [expr_eq, hprimary]
  exact hclimb
termination_by (tokens.length, 1)

theorem exists_climb (limit depth : Nat) (left : Operation) (tokens : List Token) (credit : Nat)
    (h : follow lang (depth, false) tokens = some (0, false))
    (hleft : Settled lang limit credit left tokens) :
    ∃ tree rest spent, climb lang limit left tokens = some (tree, rest) ∧
      rest.length ≤ tokens.length ∧ opens tokens = spent + opens rest ∧
      follow lang (depth, false) rest = some (0, false) ∧ Stops lang limit rest ∧
      Settled lang limit (credit + spent) tree rest := by
  -- nothing is spent where the reader goes no further
  have hstay : Stops lang limit tokens →
      ∃ tree rest spent, climb lang limit left tokens = some (tree, rest) ∧
        rest.length ≤ tokens.length ∧ opens tokens = spent + opens rest ∧
        follow lang (depth, false) rest = some (0, false) ∧ Stops lang limit rest ∧
        Settled lang limit (credit + spent) tree rest := fun hstops =>
    ⟨left, tokens, 0, climb_stops left hstops, Nat.le_refl _, by omega, h, hstops, hleft⟩
  match tokens, h, hleft, hstay with
  | [], _, _, hstay => exact hstay (stops_nil limit)
  | token :: rest, h, hleft, hstay =>
    obtain ⟨next, hnext, hrest⟩ := follow_cons_eq_some h
    rcases advance_done hnext with
      ⟨-, hnone, -, -⟩ | ⟨op, form, hkind, hat, hform, hstrict, rfl⟩
    · refine hstay fun other hother op form hat => ?_
      cases hother
      rw [hnone] at hat
      cases hat
    · by_cases hlimit : limit < form.level
      · refine hstay fun other hother op' form' hat' => ?_
        cases hother
        rw [hat] at hat'
        cases hat'
        exact hlimit
      · have hlevel : form.level ≤ limit := by omega
        obtain ⟨right, later, spent, hexpr, hlt, hopens, hfollow, hstops, hright⟩ :=
          exists_expr form.rightLimit depth rest hrest
        obtain ⟨tree, last, spent', hclimb, hle, hopens', hfollow', hstops', htree⟩ :=
          exists_climb limit depth (.binary op left right) later (credit + spent) hfollow
            (hleft.binary hright hat hform hstrict hlevel hstops)
        refine ⟨tree, last, spent + spent', ?_, ?_, ?_, hfollow', hstops', ?_⟩
        · rw [climb_binary left hat hlevel, hexpr]
          exact hclimb
        · rw [List.length_cons]
          omega
        · rw [Token.opens_cons_of_ne (by simp [hkind])]
          omega
        · rwa [← Nat.add_assoc]
termination_by (tokens.length, 0)

theorem exists_primary (limit depth : Nat) (tokens : List Token)
    (h : follow lang (depth, true) tokens = some (0, false)) :
    ∃ tree rest spent, primary lang tokens = some (tree, rest) ∧
      rest.length < tokens.length ∧ opens tokens = spent + opens rest ∧
      follow lang (depth, false) rest = some (0, false) ∧
      Settled lang limit spent tree rest := by
  match tokens, h with
  | [], h => cases h
  | token :: rest, h =>
    obtain ⟨next, hnext, hrest⟩ := follow_cons_eq_some h
    rcases advance_due hnext with ⟨hkind, rfl⟩ | ⟨hkind, rfl⟩
    · obtain ⟨inner, later, spent, hexpr, hlt, hopens, hfollow, hstops, hinner⟩ :=
        exists_expr top (depth + 1) rest hrest
      match later, hfollow with
      | [], hfollow => cases hfollow
      | close :: last, hfollow =>
        obtain ⟨next, hnext, hlast⟩ := follow_cons_eq_some hfollow
        rcases advance_done hnext with ⟨hclose, -, -, rfl⟩ | ⟨op, form, -, hat, hform, -, -⟩
        · refine ⟨inner, last, spent + 1, ?_, ?_, ?_, hlast, hinner.grouped limit last⟩
          · rw [primary_eq]
            simp [hkind, hexpr, hclose]
          · simp only [List.length_cons] at hlt ⊢
            omega
          · rw [Token.opens_cons_of_ne (by simp [hclose])] at hopens
            rw [Token.opens_cons, if_pos hkind]
            omega
        · -- no operator exceeds the limit that a group is read with
          have hlt := hstops close rfl op form hat
          have hfits := Language.fits_binary hform
          simp only [Language.fits, decide_eq_true_eq, top] at hfits hlt
          omega
    · refine ⟨.ident token.value, rest, 0, ?_, by simp, ?_, hrest, .ident limit _ rest⟩
      · rw [primary_eq]
        simp [hkind]
      · rw [Token.opens_cons_of_ne (by simp [hkind])]
        omega
termination_by (tokens.length, 0)
end

/-! ## What is printed takes turns -/

theorem follow_untagged (state : Nat × Bool) (tokens : List Token) :
    follow lang state (tokens.map Token.untagged) = follow lang state tokens := by
  induction tokens generalizing state with
  | nil => rfl
  | cons token tokens ih =>
    rw [List.map_cons, follow_cons, follow_cons]
    exact congrArg (Option.bind _) (funext ih)

theorem follow_grouped {tokens : List Token} {depth : Nat}
    (h : follow lang (depth + 1, true) tokens = some (depth + 1, false)) :
    follow lang (depth, true) (.plain "(" .openBrace :: tokens ++ [.plain ")" .closeBrace]) =
      some (depth, false) := by
  have hopen : advance lang (depth, true) (.plain "(" .openBrace) = some (depth + 1, true) := rfl
  have hclose : advance lang (depth + 1, false) (.plain ")" .closeBrace) = some (depth, false) :=
    rfl
  rw [List.cons_append, follow_cons, hopen, Option.bind_some, follow_append, h, Option.bind_some,
    follow_cons, hclose]
  rfl

theorem follow_placed {tokens : List Token}
    (h : ∀ depth, follow lang (depth, true) tokens = some (depth, false)) (parent : OperatorForm)
    (side : Side) (term : Term) (depth : Nat) :
    follow lang (depth, true) (term.placed lang parent side tokens) = some (depth, false) := by
  unfold Term.placed
  split
  · exact follow_grouped (h (depth + 1))
  · exact h depth

end Climbing

namespace Operation

variable {lang : Language}

/-- Whether there are only names and binary operators, each of which chains and has a spelling of
its own. -/
def isChaining (lang : Language) : Operation → Bool
  | .ident _ => true
  | .binary op left right =>
    (lang.operators.binary op).any (!·.strict) && lang.spellsApart op && left.isChaining lang &&
      right.isChaining lang
  | .unary .. => false

theorem isReadable_of_isChaining : ∀ {tree : Operation}, tree.isChaining lang = true →
    tree.isReadable lang = true
  | .ident _, _ => rfl
  | .binary op left right, h => by
    simp only [isChaining, Bool.and_eq_true] at h
    obtain ⟨⟨⟨hany, hapart⟩, hl⟩, hr⟩ := h
    obtain ⟨form, hform, -⟩ := (Option.any_eq_true _ _).1 hany
    simp [isReadable, hform, hapart, isReadable_of_isChaining hl, isReadable_of_isChaining hr]

/-- In what a tree prints, names and operators take turns. -/
theorem follow_print : ∀ {tree : Operation} {printed : List Token}, tree.isChaining lang = true →
    tree.term.tokens? lang = some printed →
    ∀ depth, Climbing.follow lang (depth, true) printed = some (depth, false)
  | .ident _, _, _, hp, depth => by
    cases hp
    rfl
  | .binary op left right, printed, h, hp, depth => by
    simp only [isChaining, Bool.and_eq_true] at h
    obtain ⟨⟨⟨hany, hapart⟩, hl⟩, hr⟩ := h
    obtain ⟨form, hform, hstrict⟩ := (Option.any_eq_true _ _).1 hany
    simp only [term, Term.tokens?, hform, Option.bind_eq_bind, Option.bind_some,
      Option.bind_eq_some_iff, Option.pure_def, Option.some.injEq] at hp
    obtain ⟨lefts, hlefts, rights, hrights, rfl⟩ := hp
    have hat : Climbing.binaryAt? lang (.ofForm form) = some (op, form) :=
      Climbing.binaryAt?_ofForm hform hapart rfl
    have hoperator : Climbing.advance lang (depth, false) (.ofForm form) = some (depth, true) := by
      simp only [Bool.not_eq_true'] at hstrict
      simp [Climbing.advance, Token.ofForm] at hat ⊢
      simp [hat, hform, hstrict]
    rw [Climbing.follow_append, Climbing.follow_placed (follow_print hl hlefts), Option.bind_some,
      Climbing.follow_cons, hoperator, Option.bind_some,
      Climbing.follow_placed (follow_print hr hrights)]

/-- The node of a tree without its operands. -/
def layer : Operation → Node
  | .ident name => .expr (.ident name)
  | .binary op _ _ => .expr (.binary op .invalid .invalid)
  | .unary op _ => .expr (.unary op .invalid)

theorem skeleton_of_at {arena : Arena} {tree : Operation} {id : NodeId} {x : Node}
    (h : tree.term.At arena id) (hx : arena.node id = .ok x) : x.skeleton = tree.layer := by
  cases tree with
  | ident name =>
    simp only [term, Term.At] at h
    rw [Arena.node_of_expr h] at hx
    cases hx
    rfl
  | binary op left right =>
    simp only [term, Term.At] at h
    obtain ⟨l, r, he, -, -⟩ := h
    rw [Arena.node_of_expr he] at hx
    cases hx
    rfl
  | unary op operand =>
    simp only [term, Term.At] at h
    obtain ⟨o, he, -⟩ := h
    rw [Arena.node_of_expr he] at hx
    cases hx
    rfl

/-- What compares as equal is of one kind with one operator, and its children compare as equal. -/
theorem layer_of_sameTo {a b : Arena} {tree other : Operation} {depth : Nat} {i j : NodeId}
    (hi : tree.term.At a i) (hj : other.term.At b j)
    (hsame : Arena.sameTo a b depth i j = .ok true) :
    tree.layer = other.layer ∧ ∃ less x y, a.node i = .ok x ∧ b.node j = .ok y ∧
      List.Forall₂ (fun m n => Arena.sameTo a b less m.id n.id = .ok true) x.children y.children := by
  obtain ⟨less, x, y, hx, hy, hskeleton, hchildren⟩ := Arena.nodes_of_sameTo hsame
  refine ⟨?_, less, x, y, hx, hy, hchildren⟩
  rw [← skeleton_of_at hi hx, ← skeleton_of_at hj hy, hskeleton]

/-- Identities that compare as equal name one tree. -/
theorem eq_of_sameTo {a b : Arena} {tree other : Operation} {depth : Nat} {i j : NodeId}
    (hi : tree.term.At a i) (hj : other.term.At b j)
    (hsame : Arena.sameTo a b depth i j = .ok true) : tree = other := by
  induction tree generalizing other depth i j with
  | ident name =>
    obtain ⟨hlayer, -⟩ := layer_of_sameTo hi hj hsame
    cases other with
    | ident name' => simpa [layer] using hlayer
    | _ => simp [layer] at hlayer
  | binary op left right ihleft ihright =>
    obtain ⟨hlayer, less, x, y, hx, hy, hchildren⟩ := layer_of_sameTo hi hj hsame
    cases other with
    | binary op' left' right' =>
      simp only [term, Term.At] at hi hj
      obtain ⟨l, r, he, hl, hr⟩ := hi
      obtain ⟨l', r', he', hl', hr'⟩ := hj
      rw [Arena.node_of_expr he] at hx
      rw [Arena.node_of_expr he'] at hy
      cases hx
      cases hy
      simp only [Node.children, Expr.children, List.forall₂_cons] at hchildren
      have hop : op = op' := by simpa [layer] using hlayer
      rw [hop, ihleft hl hl' hchildren.1, ihright hr hr' hchildren.2.1]
    | _ => simp [layer] at hlayer
  | unary op operand ih =>
    obtain ⟨hlayer, less, x, y, hx, hy, hchildren⟩ := layer_of_sameTo hi hj hsame
    cases other with
    | unary op' operand' =>
      simp only [term, Term.At] at hi hj
      obtain ⟨o, he, ho⟩ := hi
      obtain ⟨o', he', ho'⟩ := hj
      rw [Arena.node_of_expr he] at hx
      rw [Arena.node_of_expr he'] at hy
      cases hx
      cases hy
      simp only [Node.children, Expr.children, List.forall₂_cons] at hchildren
      have hop : op = op' := by simpa [layer] using hlayer
      rw [hop, ih ho ho' hchildren.1]
    | _ => simp [layer] at hlayer

/-- A tree that was built apart from another compares as different from it. -/
theorem same_build_eq_false {arena : Arena} {id : NodeId} {tree other : Operation}
    (hat : tree.term.At arena id) (hne : other ≠ tree) :
    arena.same id (other.build {}).2 (other.build {}).1 = .ok false := by
  have hbuilt := (other.build_at {}).2
  obtain ⟨verdict, hverdict, -⟩ := Arena.same_eq hat.grounded hbuilt.grounded
  cases verdict with
  | false => exact hverdict
  | true => exact absurd (eq_of_sameTo hat hbuilt hverdict).symm hne

end Operation

/-! ## Leaving out a pair of parentheses -/

namespace Token

/-- How many groups are open after one more token; none if it closes one that is not open. -/
def nest (depth : Nat) (token : Token) : Option Nat :=
  match token.kind with
  | .openBrace => some (depth + 1)
  | .closeBrace => if 0 < depth then some (depth - 1) else none
  | _ => some depth

/-- A group among tokens: two parentheses, and between them every group that is opened is closed
and no other. -/
structure Pair (tokens : List Token) where
  before : List Token
  opening : Token
  inside : List Token
  closing : Token
  after : List Token
  split : tokens = before ++ opening :: (inside ++ closing :: after)
  opens : opening.kind = .openBrace
  closes : closing.kind = .closeBrace
  matched : inside.foldlM nest 0 = some 0

/-- The tokens without the two parentheses. -/
def Pair.without {tokens : List Token} (pair : Pair tokens) : List Token :=
  pair.before ++ (pair.inside ++ pair.after)

theorem Pair.opens_without {tokens : List Token} (pair : Pair tokens) :
    Token.opens tokens = Token.opens pair.without + 1 := by
  have hclose : pair.closing.kind ≠ .openBrace := by simp [pair.closes]
  have hsplit := congrArg Token.opens pair.split
  simp only [opens_append, opens_cons_of_ne hclose, opens_cons pair.opening, if_pos pair.opens]
    at hsplit
  simp only [without, opens_append]
  omega

end Token

namespace Climbing

variable {lang : Language}

/-- What takes turns takes turns under fewer open groups too, as long as it closes no other groups
than its own. -/
theorem follow_lower : ∀ {inside : List Token} {own own' depth : Nat} {due : Bool}
    {final : Nat × Bool}, inside.foldlM Token.nest own = some own' →
    follow lang (depth + own, due) inside = some final →
    final.1 = depth + own' ∧ ∀ lower, follow lang (lower + own, due) inside =
      some (lower + own', final.2)
  | [], own, own', depth, due, final, hnest, h => by
    cases hnest
    cases h
    exact ⟨rfl, fun lower => rfl⟩
  | token :: inside, own, own', depth, due, final, hnest, h => by
    obtain ⟨next, hnext, hrest⟩ := follow_cons_eq_some h
    rw [List.foldlM_cons] at hnest
    obtain ⟨open', hopen, hinside⟩ := Option.bind_eq_some_iff.1 hnest
    have key : ∀ due', next = (depth + open', due') →
        (∀ lower, advance lang (lower + own, due) token = some (lower + open', due')) →
        final.1 = depth + own' ∧ ∀ lower, follow lang (lower + own, due) (token :: inside) =
          some (lower + own', final.2) := by
      intro due' heq hstep
      rw [heq] at hrest
      obtain ⟨hfinal, hall⟩ := follow_lower hinside hrest
      refine ⟨hfinal, fun lower => ?_⟩
      rw [follow_cons, hstep lower, Option.bind_some, hall lower]
    cases due with
    | true =>
      rcases advance_due hnext with ⟨hkind, rfl⟩ | ⟨hkind, rfl⟩
      · have hopen' : own + 1 = open' := by simpa [Token.nest, hkind] using hopen
        refine key true (by rw [← hopen', Nat.add_assoc]) fun lower => ?_
        rw [← hopen', ← Nat.add_assoc]
        simp [advance, hkind]
      · have hopen' : own = open' := by simpa [Token.nest, hkind] using hopen
        refine key false (by rw [hopen']) fun lower => ?_
        simp [advance, hkind, hopen']
    | false =>
      rcases advance_done hnext with
        ⟨hkind, hnone, -, rfl⟩ | ⟨op, form, hkind, hat, hform, hstrict, rfl⟩
      · have hclose : 0 < own ∧ own - 1 = open' := by simpa [Token.nest, hkind] using hopen
        obtain ⟨hpos, hopen'⟩ := hclose
        refine key false (by rw [← hopen', Nat.add_sub_assoc hpos]) fun lower => ?_
        rw [← hopen', ← Nat.add_sub_assoc hpos]
        have hopened : 0 < lower + own := by omega
        simp only [advance, hkind, hnone, Option.isNone_none, hopened, and_self, if_true]
      · have hopen' : own = open' := by simpa [Token.nest, hkind] using hopen
        refine key true (by rw [hopen']) fun lower => ?_
        simp [advance, hkind, hat, hform, hstrict, hopen']

/-- Without a pair of parentheses, names and operators still take turns. -/
theorem follow_without {tokens : List Token} (pair : Token.Pair tokens) {state final : Nat × Bool}
    (h : follow lang state tokens = some final) : follow lang state pair.without = some final := by
  rw [pair.split, follow_append] at h
  obtain ⟨⟨depth, due⟩, hbefore, h⟩ := Option.bind_eq_some_iff.1 h
  obtain ⟨opened, hopened, h⟩ := follow_cons_eq_some h
  have hdue : due = true ∧ opened = (depth + 1, true) := by
    cases due with
    | true =>
      rcases advance_due hopened with ⟨-, rfl⟩ | ⟨hkind, -⟩
      · exact ⟨rfl, rfl⟩
      · rw [pair.opens] at hkind
        cases hkind
    | false =>
      rcases advance_done hopened with ⟨hkind, -⟩ | ⟨_, _, hkind, -⟩ <;>
        · rw [pair.opens] at hkind
          cases hkind
  obtain ⟨rfl, rfl⟩ := hdue
  rw [follow_append] at h
  obtain ⟨⟨inner, due'⟩, hinside, h⟩ := Option.bind_eq_some_iff.1 h
  have hwithin : follow lang (depth + 1 + 0, true) pair.inside = some (inner, due') := hinside
  obtain ⟨hinner, hlower⟩ := follow_lower pair.matched hwithin
  obtain rfl : inner = depth + 1 := hinner
  have hinside' : follow lang (depth, true) pair.inside = some (depth, due') := hlower depth
  obtain ⟨closed, hclosed, hafter⟩ := follow_cons_eq_some h
  have hdue' : due' = false ∧ closed = (depth, false) := by
    cases due' with
    | true =>
      rcases advance_due hclosed with ⟨hkind, -⟩ | ⟨hkind, -⟩ <;>
        · rw [pair.closes] at hkind
          cases hkind
    | false =>
      rcases advance_done hclosed with ⟨-, -, -, rfl⟩ | ⟨_, _, hkind, -⟩
      · exact ⟨rfl, rfl⟩
      · rw [pair.closes] at hkind
        cases hkind
  obtain ⟨rfl, rfl⟩ := hdue'
  rw [Token.Pair.without, follow_append, hbefore, Option.bind_some, follow_append, hinside',
    Option.bind_some, hafter]

/-- Tokens that take turns are read as a tree, and they have a group for each operand of it that
has to be grouped. -/
theorem exists_read {tokens : Tokens} (h : follow lang (0, true) tokens.toList = some (0, false)) :
    ∃ tree, read? lang tokens = some tree ∧ tree.groups lang ≤ opens tokens.toList := by
  obtain ⟨tree, rest, spent, hexpr, -, hopens, hfollow, hstops, htree⟩ :=
    exists_expr top 0 tokens.toList h
  match rest, hfollow with
  | [], _ =>
    have hle := htree.groups_le
    rw [Token.opens_nil] at hopens
    exact ⟨tree, by simp [read?, hexpr], by omega⟩
  | token :: rest, hfollow =>
    obtain ⟨next, hnext, -⟩ := follow_cons_eq_some hfollow
    rcases advance_done hnext with ⟨-, -, hpos, -⟩ | ⟨op, form, -, hat, hform, -, -⟩
    · exact absurd hpos (Nat.lt_irrefl 0)
    · have hlt := hstops token rfl op form hat
      have hfits := Language.fits_binary hform
      simp only [Language.fits, decide_eq_true_eq, top] at hfits hlt
      omega

/-- **No pair of parentheses can be left out.**  A tree of names and operators that chain has
tokens, and without any one pair of parentheses among them the reader still takes all tokens, but
the tree that it builds is not structurally equal to the one in the arena. -/
theorem read_without (lang : Language) (arena : Arena) (id : NodeId) (tree : Operation)
    (hat : tree.term.At arena id) (hchaining : tree.isChaining lang = true) :
    ∃ tokens, lang.linearize arena id = .ok tokens ∧
      ∀ pair : Token.Pair tokens.toList, ∃ other, read? lang ⟨pair.without⟩ = some other ∧
        arena.same id (other.build {}).2 (other.build {}).1 = .ok false := by
  have hreadable := Operation.isReadable_of_isChaining hchaining
  obtain ⟨tokens, htokens, hprinted⟩ := Operation.exists_linearize hat hreadable
  have hfollow : follow lang (0, true) tokens.toList = some (0, false) := by
    rw [← follow_untagged]
    exact Operation.follow_print hchaining hprinted 0
  have hgroups : opens tokens.toList = tree.groups lang := by
    rw [← Token.opens_untagged]
    exact Operation.opens_print hreadable hprinted
  refine ⟨tokens, htokens, fun pair => ?_⟩
  have hone := pair.opens_without
  have hreads : ∃ other, read? lang ⟨pair.without⟩ = some other ∧
      other.groups lang ≤ opens pair.without := exists_read (follow_without pair hfollow)
  obtain ⟨other, hread, hle⟩ := hreads
  refine ⟨other, hread, Operation.same_build_eq_false hat ?_⟩
  -- one group too few is left for the same tree
  rintro rfl
  change other.groups lang ≤ opens pair.without at hle
  omega

/-- `a - (b - c)`: differences are grouped from the left, so the one pair of parentheses counts. -/
theorem read_without_difference :
    let tree : Operation :=
      .binary .sub (.ident "a") (.binary .sub (.ident "b") (.ident "c"))
    tree.isChaining .java = true ∧
      ∃ tokens, Language.java.linearize (tree.build {}).2 (tree.build {}).1 = .ok tokens ∧
        tokens.values = ["a", "-", "(", "b", "-", "c", ")"] ∧
        ∀ pair : Token.Pair tokens.toList, ∃ other, read? .java ⟨pair.without⟩ = some other ∧
          (tree.build {}).2.same (tree.build {}).1 (other.build {}).2 (other.build {}).1 =
            .ok false := by
  intro tree
  have hchaining : tree.isChaining .java = true := by decide
  obtain ⟨tokens, htokens, hpairs⟩ :=
    read_without .java _ _ tree (Operation.build_at tree {}).2 hchaining
  refine ⟨hchaining, tokens, htokens, ?_, hpairs⟩
  have hvalues : (Language.java.linearize (tree.build {}).2 (tree.build {}).1).toOption.map
      Tokens.values = some ["a", "-", "(", "b", "-", "c", ")"] := by decide
  simpa [htokens, Except.toOption] using hvalues

end Climbing

end Interlingua
