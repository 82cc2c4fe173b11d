import Interlingua.Proofs.Token.Term

/-!
# How tightly operators bind

What the grouping rules leave without parentheses, and what the operator tables of the languages
have in common.

* `OperatorForm.rightLimit` — the level up to which the last operand of an operator goes on.
* `OperatorForm.edge?` — the limit that is still in force where an expression ends.
* `Language.fits` — the three facts that reading needs about a form: all forms of a level are
  grouped from one side, those that stand after their operand bind as tightly as access does, and
  all others bind weaker.  Every form of every language fits.
* `Term.level`, `Term.edge?` — the same of a term: how it binds as a whole, and the limit in force
  at its end.
-/

namespace Interlingua

namespace OperatorForm

/-- The level up to which the last operand of an operator goes on. -/
def rightLimit (form : OperatorForm) : Nat :=
  match form.assoc with
  | .left => form.level - 1
  | .right => form.level

/-- The limit in force where an expression with this operator ends; none where the operator
itself ends it. -/
def edge? (form : OperatorForm) : Option Nat :=
  if form.place = .after then none else some form.rightLimit

variable {parent child : OperatorForm}

theorem rightLimit_le (form : OperatorForm) : form.rightLimit ≤ form.level := by
  unfold rightLimit
  split <;> omega

theorem edge?_le {form : OperatorForm} {limit : Nat} (h : form.edge? = some limit) :
    limit ≤ form.level := by
  unfold edge? at h
  split at h
  · cases h
  · cases h
    exact form.rightLimit_le

/-- What is not grouped binds at least as tightly. -/
theorem level_le_of_not_mustGroup {side : Side} (h : parent.mustGroup child side = false) :
    child.level ≤ parent.level := by
  unfold mustGroup at h
  split at h
  · simp only [decide_eq_false_iff_not] at h
    omega
  · rename_i heq
    simp only [ne_eq, Decidable.not_not] at heq
    omega

/-- At the same level, only the operand on the side that the parent groups from goes without
parentheses. -/
theorem side_of_not_mustGroup {side : Side} (h : parent.mustGroup child side = false)
    (hlevel : child.level = parent.level) :
    (parent.assoc = .left ∧ side = .left) ∨ (parent.assoc = .right ∧ side = .right) := by
  unfold mustGroup at h
  rw [if_neg (by simpa using hlevel)] at h
  split at h
  · cases h
  · split at h
    · cases h
    · cases hassoc : parent.assoc with
      | left =>
        rw [hassoc] at h
        exact .inl ⟨rfl, by simpa using h⟩
      | right =>
        rw [hassoc] at h
        exact .inr ⟨rfl, by simpa using h⟩

/-- The last operand is read to its end under the limit of its operator. -/
theorem level_le_rightLimit (h : parent.mustGroup child .right = false) :
    child.level ≤ parent.rightLimit := by
  have hle := level_le_of_not_mustGroup h
  unfold rightLimit
  by_cases hlevel : child.level = parent.level
  · rcases side_of_not_mustGroup h hlevel with ⟨-, hside⟩ | ⟨hassoc, -⟩
    · cases hside
    · rw [hassoc]
      omega
  · split <;> omega

/-- The middle operand binds tighter than its operator. -/
theorem level_lt_of_center (h : parent.mustGroup child .center = false) :
    child.level < parent.level := by
  have hle := level_le_of_not_mustGroup h
  by_cases hlevel : child.level = parent.level
  · rcases side_of_not_mustGroup h hlevel with ⟨-, hside⟩ | ⟨-, hside⟩ <;> cases hside
  · omega

end OperatorForm

namespace Language

/-- The side that the operators of a level are grouped from. -/
def assocAt : Language → Nat → Assoc
  | .java, level => if level ∈ [2, 13, 14] then .right else .left
  | .python, level => if level ∈ [2, 3, 11, 14, 15] then .right else .left
  | .cpp, level => if level ∈ [3, 16] then .right else .left

/-- Whether a binary operator has a spelling of its own.  Identity is spelled like equality where
the language does not tell them apart. -/
def spellsApart : Language → BinaryOp → Bool
  | .python, _ => true
  | .java, op | .cpp, op => op ≠ .refEq && op ≠ .refNotEq

/-- What reading needs to know about a form. -/
def fits (lang : Language) (form : OperatorForm) : Bool :=
  form.assoc = lang.assocAt form.level ∧ form.level < 255 ∧
    if form.place = .after then form.level = lang.operators.access.level
    else lang.operators.access.level < form.level

theorem fits_binary {lang : Language} {op : BinaryOp} {form : OperatorForm}
    (h : lang.operators.binary op = some form) : lang.fits form = true := by
  have hall : (lang.operators.binary op).all lang.fits = true := by
    cases lang <;> cases op <;> rfl
  simpa [h] using hall

theorem fits_unary {lang : Language} {op : UnaryOp} {form : OperatorForm}
    (h : lang.operators.unary op = some form) : lang.fits form = true := by
  have hall : (lang.operators.unary op).all lang.fits = true := by
    cases lang <;> cases op <;> rfl
  simpa [h] using hall

theorem fits_assign {lang : Language} {op : AssignOp} {form : OperatorForm}
    (h : lang.operators.assign op = some form) : lang.fits form = true := by
  have hall : (lang.operators.assign op).all lang.fits = true := by
    cases lang <;> cases op <;> rfl
  simpa [h] using hall

theorem fits_ternary (lang : Language) : lang.fits lang.operators.ternary.1 = true := by
  cases lang <;> rfl

theorem place_binary {lang : Language} {op : BinaryOp} {form : OperatorForm}
    (h : lang.operators.binary op = some form) : form.place ≠ .after := by
  have hall : (lang.operators.binary op).all (·.place == .between) = true := by
    cases lang <;> cases op <;> rfl
  simp [h] at hall
  simp [hall]

theorem place_assign {lang : Language} {op : AssignOp} {form : OperatorForm}
    (h : lang.operators.assign op = some form) : form.place ≠ .after := by
  have hall : (lang.operators.assign op).all (·.place == .between) = true := by
    cases lang <;> cases op <;> rfl
  simp [h] at hall
  simp [hall]

theorem place_unary {lang : Language} {op : UnaryOp} {form : OperatorForm}
    (h : lang.operators.unary op = some form) (hlead : form.isLeading = false) :
    form.place = .after := by
  have hall : (lang.operators.unary op).all (fun form => form.isLeading || form.place == .after) =
      true := by
    cases lang <;> cases op <;> rfl
  simpa [h, hlead] using hall

variable {lang : Language} {parent child : OperatorForm}

/-- A form that stands before or between operands leaves a limit that access does not reach. -/
theorem fits_rightLimit (h : lang.fits parent = true) (hplace : parent.place ≠ .after) :
    lang.operators.access.level ≤ parent.rightLimit := by
  simp only [fits, hplace, if_false, decide_eq_true_eq] at h
  unfold OperatorForm.rightLimit
  split <;> omega

/-- What stands as the left operand ends before its operator: the limit in force there does not
reach the operator. -/
theorem edge_lt_of_left (hp : lang.fits parent = true) (hc : lang.fits child = true)
    (hplace : parent.place ≠ .after) (h : parent.mustGroup child .left = false) {limit : Nat}
    (hedge : child.edge? = some limit) : limit < parent.level := by
  have hle := OperatorForm.level_le_of_not_mustGroup h
  have hlimit := OperatorForm.edge?_le hedge
  simp only [fits, hplace, if_false, decide_eq_true_eq] at hp hc
  by_cases hlevel : child.level = parent.level
  · -- at the same level the operand is grouped from the left, too, so its limit is lower
    have hassoc : parent.assoc = .left := by
      rcases OperatorForm.side_of_not_mustGroup h hlevel with ⟨ha, -⟩ | ⟨-, hside⟩
      · exact ha
      · cases hside
    have hchild : child.assoc = .left := by rw [hc.1, hlevel, ← hp.1, hassoc]
    unfold OperatorForm.edge? OperatorForm.rightLimit at hedge
    rw [hchild] at hedge
    split at hedge
    · cases hedge
    · cases hedge
      change child.level - 1 < parent.level
      omega
  · omega

/-- What stands before an operator that follows its operand leaves no limit in force. -/
theorem closed_of_after (hc : lang.fits child = true)
    (hlevel : parent.level = lang.operators.access.level)
    (h : parent.mustGroup child .left = false) : child.edge? = none := by
  have hle := OperatorForm.level_le_of_not_mustGroup h
  unfold OperatorForm.edge?
  split
  · rfl
  · rename_i hplace
    simp only [fits, hplace, if_false, decide_eq_true_eq] at hc
    omega

end Language

namespace Term

variable {lang : Language} {parent : OperatorForm} {term : Term}

/-- How tightly a term binds; an atom binds tightest. -/
def level (lang : Language) (term : Term) : Nat := ((term.form? lang).map OperatorForm.level).getD 0

/-- The limit in force where a term ends. -/
def edge? (lang : Language) (term : Term) : Option Nat := (term.form? lang).bind OperatorForm.edge?

theorem fits_form {form : OperatorForm} (h : term.form? lang = some form) :
    lang.fits form = true := by
  cases term with
  | binary op _ _ => exact Language.fits_binary h
  | unary op _ => exact Language.fits_unary h
  | assign op _ _ =>
    simp only [form?, Option.or_eq_some_iff] at h
    rcases h with h | ⟨-, h⟩ <;> exact Language.fits_assign h
  | ternary _ _ _ =>
    cases h
    exact Language.fits_ternary lang
  | _ => cases h

theorem level_lt (lang : Language) (term : Term) : term.level lang < 255 := by
  unfold level
  cases hf : term.form? lang with
  | none => simp
  | some form =>
    have hfits := fits_form hf
    simp only [Language.fits, decide_eq_true_eq] at hfits
    exact hfits.2.1

theorem edge?_le_level {limit : Nat} (h : term.edge? lang = some limit) :
    limit ≤ term.level lang := by
  unfold edge? at h
  unfold level
  cases hf : term.form? lang with
  | none => simp [hf] at h
  | some form =>
    rw [hf] at h
    exact OperatorForm.edge?_le h

theorem mustGroup_of_not_wraps {side : Side} {form : OperatorForm}
    (h : term.wraps lang parent side = false) (hf : term.form? lang = some form) :
    parent.mustGroup form side = false := by
  simpa [wraps, hf] using h

/-- The last operand, ungrouped, is within the limit that it is read with. -/
theorem level_le_rightLimit (h : term.wraps lang parent .right = false) :
    term.level lang ≤ parent.rightLimit := by
  unfold level
  cases hf : term.form? lang with
  | none => simp
  | some form => exact OperatorForm.level_le_rightLimit (mustGroup_of_not_wraps h hf)

/-- The middle operand, ungrouped, binds tighter than its operator. -/
theorem level_le_pred_of_center (h : term.wraps lang parent .center = false) :
    term.level lang ≤ parent.level - 1 := by
  unfold level
  cases hf : term.form? lang with
  | none => simp
  | some form =>
    have := OperatorForm.level_lt_of_center (mustGroup_of_not_wraps h hf)
    simp only [Option.map_some, Option.getD_some]
    omega

/-- The left operand, ungrouped, is within every limit that its operator is within. -/
theorem level_le_of_left {limit : Nat} (h : term.wraps lang parent .left = false)
    (hlimit : parent.level ≤ limit) : term.level lang ≤ limit := by
  unfold level
  cases hf : term.form? lang with
  | none => simp
  | some form =>
    have := OperatorForm.level_le_of_not_mustGroup (mustGroup_of_not_wraps h hf)
    simp only [Option.map_some, Option.getD_some]
    omega

/-- The left operand, ungrouped, ends before its operator. -/
theorem edge_lt_of_left (hp : lang.fits parent = true) (hplace : parent.place ≠ .after)
    (h : term.wraps lang parent .left = false) {limit : Nat} (hedge : term.edge? lang = some limit) :
    limit < parent.level := by
  unfold edge? at hedge
  cases hf : term.form? lang with
  | none => simp [hf] at hedge
  | some form =>
    rw [hf] at hedge
    exact Language.edge_lt_of_left hp (fits_form hf) hplace (mustGroup_of_not_wraps h hf) hedge

/-- What stands, ungrouped, before an operator that follows it leaves no limit in force. -/
theorem edge?_eq_none_of_after (hlevel : parent.level = lang.operators.access.level)
    (h : term.wraps lang parent .left = false) : term.edge? lang = none := by
  unfold edge?
  cases hf : term.form? lang with
  | none => rfl
  | some form =>
    exact Language.closed_of_after (fits_form hf) hlevel (mustGroup_of_not_wraps h hf)

end Term

end Interlingua
