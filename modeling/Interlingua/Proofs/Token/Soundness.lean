import Interlingua.Proofs.Token.Indexed

/-!
# Tags of a concrete syntax tree

The tree comes from outside and may be malformed: a field may be missing, may be there twice or may
hold an operator, and a leaf may lie outside the source.  The tags are sound all the same, since a
tag is only made from the position of an operator that was read before.

* `Concrete.Sound` — tags that name positions out of a set, and none its own.
* `Concrete.sound_read` — the tags of a node are sound, by the nodes below it.
* `Language.tokenize_sound` — **for each source and each tree no index is outside the list of
  tokens, and every tag names an operator other than the token that it is a tag of.**
-/

namespace Interlingua


namespace Concrete

/-- Every tag names a position out of a set, and no token names its own. -/
def Sound (names : Nat → Prop) : Nat → List Token → Prop
  | _, [] => True
  | start, token :: rest =>
    (∀ tag ∈ token.tag, names tag.operator ∧ tag.operator ≠ start) ∧ Sound names (start + 1) rest

/-- The positions of operators are all in a set. -/
def Covers (names : Nat → Prop) : Nat → List Bool → Prop
  | _, [] => True
  | start, isOperator :: rest => (isOperator = true → names start) ∧ Covers names (start + 1) rest

variable {lang : Language} {source : List Char} {kind : String} {names : Nat → Prop} {start : Nat}
  {groups : List Group}

theorem sound_append {first second : List Token} :
    Sound names start (first ++ second) ↔
      Sound names start first ∧ Sound names (start + first.length) second := by
  induction first generalizing start with
  | nil => simp [Sound]
  | cons token first ih =>
    rw [List.cons_append, Sound, Sound, ih, List.length_cons, and_assoc, Nat.add_right_comm,
      Nat.add_assoc]

theorem covers_append {first second : List Bool} :
    Covers names start (first ++ second) ↔
      Covers names start first ∧ Covers names (start + first.length) second := by
  induction first generalizing start with
  | nil => simp [Covers]
  | cons isOperator first ih =>
    rw [List.cons_append, Covers, Covers, ih, List.length_cons, and_assoc, Nat.add_right_comm,
      Nat.add_assoc]

theorem Sound.tagAll {operator : Nat} (hnames : names operator) (side : Side) {tokens : List Token}
    (hout : operator < start ∨ start + tokens.length ≤ operator) :
    Sound names start (Token.tagAll operator side tokens) := by
  induction tokens generalizing start with
  | nil => trivial
  | cons token tokens ih =>
    rw [List.length_cons] at hout
    refine ⟨?_, ih (by omega)⟩
    rintro tag ⟨⟩
    exact ⟨hnames, by change operator ≠ start; omega⟩

/-- A group of an operator node is sound if it was before it was tagged. -/
theorem sound_groups (h : Laid start groups) {change : Group → List Token}
    (hlength : ∀ group ∈ groups, (change group).length = group.tokens.length)
    (hsound : ∀ group ∈ groups, Sound names group.start (change group)) :
    Sound names start (groups.flatMap change) := by
  induction groups generalizing start with
  | nil => trivial
  | cons head rest ih =>
    obtain ⟨rfl, hrest⟩ := h
    obtain ⟨hhead, hlength⟩ := List.forall_mem_cons.1 hlength
    obtain ⟨hheads, hsound⟩ := List.forall_mem_cons.1 hsound
    rw [List.flatMap_cons, sound_append, hhead]
    exact ⟨hheads, ih hrest hlength hsound⟩

theorem covers_groups (h : Laid start groups)
    (hcovers : Covers names start ((groups.flatMap Group.tokens).map Token.isOperator)) :
    ∀ group ∈ groups, Covers names group.start (group.tokens.map Token.isOperator) := by
  induction groups generalizing start with
  | nil => simp
  | cons head rest ih =>
    obtain ⟨rfl, hrest⟩ := h
    rw [List.flatMap_cons, List.map_append, covers_append, List.length_map] at hcovers
    exact List.forall_mem_cons.2 ⟨hcovers.1, ih hrest hcovers.2⟩

/-- The operator of a node is no operand of itself. -/
theorem sound_tagOperands (h : Laid start groups)
    (hcovers : Covers names start ((groups.flatMap Group.tokens).map Token.isOperator))
    (hsound : ∀ group ∈ groups, Sound names group.start group.tokens) :
    Sound names start (tagOperands lang kind groups) := by
  cases hoperator : operatorAt? groups with
  | none =>
    rw [tagOperands, hoperator]
    exact sound_groups h (fun _ _ => rfl) hsound
  | some operator =>
    obtain ⟨owner, howner, rfl, hside, hone⟩ := exists_of_operatorAt? hoperator
    obtain ⟨token, htoken, hisOperator⟩ := owner.exists_of_isOperator hone
    have hnames : names owner.start := by
      have hcovered := covers_groups h hcovers owner howner
      rw [htoken] at hcovered
      exact hcovered.1 hisOperator
    rw [tagOperands_of_operator hoperator]
    refine sound_groups h (fun group _ => ?_) fun group hgroup => ?_
    · split <;> simp [Token.tagAll]
    · cases hown : ownSide lang kind owner.start groups group with
      | none => exact hsound group hgroup
      | some side =>
        refine Sound.tagAll hnames side ?_
        have hne : owner ≠ group := by
          rintro rfl
          rw [ownSide_operator hside hone] at hown
          cases hown
        have happart := (h.eq_or_apart howner hgroup).resolve_left hne
        have hlength : owner.stop = owner.start + 1 := by rw [Group.stop, htoken]; rfl
        unfold Group.stop at happart hlength
        omega

theorem sound_tagUnary {tokens : List Token}
    (hcovers : Covers names start (tokens.map Token.isOperator))
    (hsound : Sound names start tokens) : Sound names start (tagUnary lang start tokens) := by
  match tokens with
  | [] | [_] => exact hsound
  | first :: second :: rest =>
    cases hfirst : first.isOperator with
    | true =>
      rw [tagUnary_of_first hfirst]
      exact ⟨hsound.1, .tagAll (hcovers.1 hfirst) .right (.inl (Nat.lt_succ_self _))⟩
    | false =>
      obtain ⟨front, last, hsplit⟩ := List.eq_nil_or_concat (first :: second :: rest)
        |>.resolve_left (List.cons_ne_nil _ _)
      rw [List.concat_eq_append] at hsplit
      rw [tagUnary_of_last hfirst hsplit]
      rw [hsplit] at hcovers hsound
      cases hlast : last.isOperator with
      | false => exact hsound
      | true =>
        rw [List.map_append, covers_append, List.length_map] at hcovers
        rw [if_pos rfl, sound_append]
        refine ⟨.tagAll (hcovers.2.1 hlast) .left (.inr (Nat.le_refl _)), ?_⟩
        have hlength : (Token.tagAll (start + front.length) .left front).length = front.length :=
          List.length_map ..
        rw [hlength]
        -- the operator keeps its tag
        exact (sound_append.1 hsound).2

theorem tag_leafToken? {parent : Option String} {leaf : Cst} {token : Token}
    (h : leafToken? lang source parent leaf = some token) : token.tag = none := by
  unfold leafToken? at h
  cases hslice : Text.slice? source leaf.start leaf.stop with
  | none => simp [hslice] at h
  | some part =>
    simp only [hslice] at h
    split at h
    · cases h
    · split at h <;>
        · cases h
          rfl

theorem isOperator_afterOperand (lang : Language) (token : Token) :
    (afterOperand lang token).isOperator = token.isOperator := by
  simp [afterOperand, Token.isOperator]

mutual
/-- **The tags of a node are sound, if the positions of its operators are in the set.** -/
theorem sound_read (names : Nat → Prop) (lang : Language) (source : List Char)
    (parent : Option String) (offset : Nat) : (node : Cst) →
    Covers names offset ((read lang source parent offset node).map Token.isOperator) →
    Sound names offset (read lang source parent offset node)
  | .node kind field start stop children, hcovers => by
    rw [read] at hcovers ⊢
    split
    · cases hleaf : leafToken? lang source parent (.leaf kind start stop field) with
      | none => trivial
      | some token =>
        refine ⟨?_, trivial⟩
        rw [tag_leafToken? hleaf]
        nofun
    · rename_i hbranch
      rw [if_neg hbranch] at hcovers
      have hlaid := laid_readAll lang source kind offset children
      have hgroups := sound_readAll names lang source kind offset children
      simp only at hcovers ⊢
      generalize readAll lang source kind offset children = groups at hcovers hlaid hgroups ⊢
      cases harity : lang.grammar.operatorArity? kind with
      | none =>
        rw [harity] at hcovers
        exact sound_groups hlaid (fun _ _ => rfl) (hgroups hcovers)
      | some arity =>
        rw [harity] at hcovers
        cases arity with
        | unary =>
          have hsame : (tagUnary lang offset (groups.flatMap Group.tokens)).map Token.isOperator =
              (groups.flatMap Group.tokens).map Token.isOperator :=
            map_tagUnary (fun _ _ => rfl) (isOperator_afterOperand lang) offset _
          rw [hsame] at hcovers
          exact sound_tagUnary hcovers (sound_groups hlaid (fun _ _ => rfl) (hgroups hcovers))
        | binary | ternary =>
          have hsame : (tagOperands lang kind groups).map Token.isOperator =
              (groups.flatMap Group.tokens).map Token.isOperator :=
            map_tagOperands (fun _ _ => rfl) groups
          rw [hsame] at hcovers
          exact sound_tagOperands hlaid hcovers (hgroups hcovers)

theorem sound_readAll (names : Nat → Prop) (lang : Language) (source : List Char) (kind : String)
    (offset : Nat) : (children : List Cst) →
    Covers names offset
      (((readAll lang source kind offset children).flatMap Group.tokens).map Token.isOperator) →
    ∀ group ∈ readAll lang source kind offset children, Sound names group.start group.tokens
  | [], _ => by
    intro group hgroup
    cases hgroup
  | child :: rest, hcovers => by
    rw [readAll, List.flatMap_cons, List.map_append, covers_append, List.length_map] at hcovers
    exact List.forall_mem_cons.2 ⟨sound_read names lang source (some kind) offset child hcovers.1,
      sound_readAll names lang source kind _ rest hcovers.2⟩
end

theorem Sound.of_get {tokens : List Token} (h : Sound names start tokens) {index : Nat}
    {token : Token} {tag : OperandTag} (hget : tokens[index]? = some token)
    (htag : token.tag = some tag) : names tag.operator ∧ tag.operator ≠ start + index := by
  induction tokens generalizing start index with
  | nil => cases hget
  | cons head tokens ih =>
    cases index with
    | zero =>
      cases hget
      exact h.1 tag htag
    | succ index =>
      have hrest := ih h.2 hget
      rwa [Nat.add_right_comm] at hrest

theorem covers_of_get {flags : List Bool}
    (h : ∀ index, flags[index]? = some true → names (start + index)) :
    Covers names start flags := by
  induction flags generalizing start with
  | nil => trivial
  | cons isOperator flags ih =>
    refine ⟨fun hoperator => h 0 (congrArg some hoperator), ih fun index hget => ?_⟩
    rw [Nat.add_right_comm]
    exact h (index + 1) hget

end Concrete

/-- **Tokenizing is sound on any input.**  Whatever the source and the tree are, no access to the
list of tokens fails, and every tag in it names an operator of the list that is another token than
the one that it is a tag of. -/
theorem Language.tokenize_sound (lang : Language) (source : String) (root : Cst) :
    Indexed.tokenize lang source root = .ok (lang.tokenize source root) ∧
      ∀ index token tag, (lang.tokenize source root).get? index = some token →
        token.tag = some tag →
        ∃ operator, (lang.tokenize source root).get? tag.operator = some operator ∧
          operator.isOperator = true ∧ tag.operator ≠ index := by
  refine ⟨Indexed.tokenize_eq lang source root, fun index token tag hget htag => ?_⟩
  let names : Nat → Prop := fun position =>
    ∃ operator, (lang.tokenize source root).get? position = some operator ∧
      operator.isOperator = true
  have hcovers : Concrete.Covers names 0
      ((Concrete.read lang source.toList none 0 root).map Token.isOperator) := by
    refine Concrete.covers_of_get fun position hposition => ?_
    rw [List.getElem?_map] at hposition
    obtain ⟨operator, hoperator, hisOperator⟩ := Option.map_eq_some_iff.1 hposition
    rw [Nat.zero_add]
    exact ⟨operator, hoperator, hisOperator⟩
  have hsound := Concrete.sound_read names lang source.toList none 0 root hcovers
  obtain ⟨⟨operator, hoperator, hisOperator⟩, hne⟩ := hsound.of_get hget htag
  rw [Nat.zero_add] at hne
  exact ⟨operator, hoperator, hisOperator, hne⟩

/-- A field that is there twice, and a leaf outside the source. -/
example :
    ((Language.java.tokenize "a + b"
      (.node "binary_expression" none 0 5
        [.leaf "identifier" 0 1 (some "right"), .leaf "+" 2 3 none,
          .leaf "identifier" 4 5 (some "right"),
          .leaf "identifier" 9 12 (some "left")])).toList.map Token.tag) =
      [some ⟨1, .right⟩, none, some ⟨1, .right⟩] := by decide

end Interlingua
