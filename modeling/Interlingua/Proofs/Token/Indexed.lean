import Interlingua.Proofs.Token.Frontier

/-!
# Tokenizing by index

The tokens of a syntax tree are collected in one list, and operands are tagged in it by their
positions, once the children of an operator are there.  The list only ever grows, so what is known
of a child by its span stays true; whatever the tree is like, its children lie beside each other.

* `Concrete.Laid` — groups that stand one after another; different ones have no token in common.
* `Indexed.collect` — the tokens of a node are added to a list, with each access to it checked.
* `Indexed.filter_contains` — a position is in the span of one operand at most.
* `Indexed.collect_eq` — **no access fails, and what is added are the tokens of the node.**
-/

namespace Interlingua

namespace Concrete

variable {lang : Language} {source : List Char} {kind : String} {start offset : Nat}
  {groups : List Group}

/-! ## Groups one after another -/

/-- Groups that stand one after another, from a position on. -/
def Laid : Nat → List Group → Prop
  | _, [] => True
  | start, group :: rest => group.start = start ∧ Laid group.stop rest

theorem laid_readAll (lang : Language) (source : List Char) (kind : String) (offset : Nat)
    (children : List Cst) : Laid offset (readAll lang source kind offset children) := by
  induction children generalizing offset with
  | nil => trivial
  | cons child rest ih => exact ⟨rfl, ih _⟩

namespace Laid

theorem start_le (h : Laid start groups) {group : Group} (hmem : group ∈ groups) :
    start ≤ group.start := by
  induction groups generalizing start with
  | nil => cases hmem
  | cons head rest ih =>
    obtain ⟨rfl, hrest⟩ := h
    cases hmem with
    | head => exact Nat.le_refl _
    | tail _ hmem =>
      have hnext : head.start ≤ head.stop := Nat.le_add_right ..
      exact hnext.trans (ih hrest hmem)

theorem stop_le (h : Laid start groups) {group : Group} (hmem : group ∈ groups) :
    group.stop ≤ start + (groups.flatMap Group.tokens).length := by
  induction groups generalizing start with
  | nil => cases hmem
  | cons head rest ih =>
    obtain ⟨rfl, hrest⟩ := h
    rw [List.flatMap_cons, List.length_append, ← Nat.add_assoc]
    cases hmem with
    | head => exact Nat.le_add_right ..
    | tail _ hmem => exact ih hrest hmem

theorem pairwise (h : Laid start groups) : groups.Pairwise (·.stop ≤ ·.start) := by
  induction groups generalizing start with
  | nil => exact .nil
  | cons head rest ih =>
    obtain ⟨rfl, hrest⟩ := h
    exact .cons (fun group hgroup => hrest.start_le hgroup) (ih hrest)

/-- Two groups are the same one or have no position in common. -/
theorem eq_or_apart (h : Laid start groups) {first second : Group} (hfirst : first ∈ groups)
    (hsecond : second ∈ groups) :
    first = second ∨ first.stop ≤ second.start ∨ second.stop ≤ first.start := by
  induction groups generalizing start with
  | nil => cases hfirst
  | cons head rest ih =>
    obtain ⟨rfl, hrest⟩ := h
    cases hfirst with
    | head =>
      cases hsecond with
      | head => exact .inl rfl
      | tail _ hsecond => exact .inr (.inl (hrest.start_le hsecond))
    | tail _ hfirst =>
      cases hsecond with
      | head => exact .inr (.inr (hrest.start_le hfirst))
      | tail _ hsecond => exact ih hrest hfirst hsecond

end Laid

/-- The positions of a group. -/
def Group.span (group : Group) : Span := ⟨group.start, group.stop⟩

theorem Group.contains_span {group : Group} {index : Nat} :
    group.span.contains index = true ↔ group.start ≤ index ∧ index < group.stop := by
  rw [Span.contains, Bool.and_eq_true, decide_eq_true_iff, decide_eq_true_iff]
  rfl

/-- A position is in one group at most. -/
theorem Laid.eq_of_contains (h : Laid start groups) {first second : Group}
    (hfirst : first ∈ groups) (hsecond : second ∈ groups) {index : Nat}
    (hin : first.span.contains index = true) (hin' : second.span.contains index = true) :
    first = second := by
  rw [Group.contains_span] at hin hin'
  refine (h.eq_or_apart hfirst hsecond).resolve_right ?_
  omega

theorem Laid.filter_contains (h : Laid start groups) {group : Group} (hmem : group ∈ groups)
    {index : Nat} (hin : group.span.contains index = true) :
    groups.filter (·.span.contains index) = [group] := by
  induction groups generalizing start with
  | nil => cases hmem
  | cons head rest ih =>
    have hsame := h.eq_of_contains hmem (List.mem_cons_self ..) hin
    obtain ⟨rfl, hrest⟩ := h
    cases hmem with
    | head =>
      have hnone : rest.filter (·.span.contains index) = [] := by
        refine List.filter_eq_nil_iff.2 fun other hother hin' => ?_
        have hstart := hrest.start_le hother
        rw [Group.contains_span] at hin hin'
        omega
      rw [List.filter_cons, if_pos hin, hnone]
    | tail _ hmem =>
      have hstart := hrest.start_le hmem
      have hout : ¬head.span.contains index = true := by
        rw [Group.contains_span] at hin ⊢
        omega
      rw [List.filter_cons, if_neg hout, ih hrest hmem]

/-- The operand that a group of an operator node is. -/
def ownSide (lang : Language) (kind : String) (operator : Nat) (groups : List Group)
    (group : Group) : Option Side :=
  match group.side with
  | some side => some side
  | none =>
    if lang.grammar.positional kind && group.isLoose then
      sideByOrder (lang.grammar.operatorArity? kind) operator (groups.filter Group.isLoose) group
    else none

theorem tagOperands_of_operator {operator : Nat} (h : operatorAt? groups = some operator) :
    tagOperands lang kind groups = groups.flatMap fun group =>
      match ownSide lang kind operator groups group with
      | some side => Token.tagAll operator side group.tokens
      | none => group.tokens := by
  rw [tagOperands, h]
  rfl

theorem Group.isLoose_iff {group : Group} :
    group.isLoose = true ↔ group.side = none ∧ group.isOperator = false ∧ group.tokens ≠ [] := by
  simp [isLoose, and_assoc]

theorem exists_of_operatorAt? {operator : Nat} (h : operatorAt? groups = some operator) :
    ∃ group ∈ groups, group.start = operator ∧ group.side = none ∧ group.isOperator = true := by
  obtain ⟨group, hfind, rfl⟩ := Option.map_eq_some_iff.1 h
  have hgroup := List.find?_some hfind
  rw [Bool.and_eq_true, Option.isNone_iff_eq_none] at hgroup
  exact ⟨group, List.mem_of_find?_eq_some hfind, rfl, hgroup⟩

theorem Group.exists_of_isOperator {group : Group} (h : group.isOperator = true) :
    ∃ token, group.tokens = [token] ∧ token.isOperator = true := by
  unfold isOperator at h
  split at h
  · rename_i token htokens
    exact ⟨token, htokens, h⟩
  · cases h

/-- The operator of a node is none of its operands. -/
theorem ownSide_operator {operator : Nat} {group : Group} (hside : group.side = none)
    (hoperator : group.isOperator = true) :
    ownSide lang kind operator groups group = none := by
  have hloose : group.isLoose = false := by simp [Group.isLoose, hoperator]
  simp [ownSide, hside, hloose]

/-! ## Unary nodes -/

section Unary

variable {first second last : Token} {front rest : List Token}

theorem tagUnary_of_first (h : first.isOperator = true) :
    tagUnary lang start (first :: second :: rest) =
      first :: Token.tagAll start .right (second :: rest) := by
  rw [tagUnary, if_pos h]
  exact List.cons_ne_nil _ _

theorem tagUnary_of_last (h : first.isOperator = false)
    (hsplit : first :: second :: rest = front ++ [last]) :
    tagUnary lang start (first :: second :: rest) =
      if last.isOperator then
        Token.tagAll (start + front.length) .left front ++ [afterOperand lang last]
      else front ++ [last] := by
  have hlength : (first :: second :: rest).length = front.length + 1 := by simp [hsplit]
  rw [tagUnary, if_neg (by simp [h]), hlength, hsplit, List.getLast?_concat, List.dropLast_concat]
  · rfl
  · exact List.cons_ne_nil _ _

end Unary

end Concrete

/-! ## Spans of a list -/

theorem mapIdx_eq_map {tokens : List Token} {change : Nat → Token → Token} {same : Token → Token}
    (h : ∀ index < tokens.length, ∀ token, change index token = same token) :
    tokens.mapIdx change = tokens.map same := by
  refine List.ext_getElem (by simp) fun index hindex _ => ?_
  rw [List.length_mapIdx] at hindex
  simp [h index hindex]

theorem mapIdx_eq_self {tokens : List Token} {change : Nat → Token → Token}
    (h : ∀ index < tokens.length, ∀ token, change index token = token) :
    tokens.mapIdx change = tokens := by
  have hmap : tokens.mapIdx change = tokens.map id := mapIdx_eq_map h
  rwa [List.map_id] at hmap

namespace Tokens

theorem get_append (before after : List Token) (token : Token) :
    (Tokens.mk (before ++ token :: after)).get before.length = .ok token := by
  simp [get, get?]

/-- Tagging a span tags over the tokens that stand there. -/
theorem tagSpan_append (before middle after : List Token) (operator : Nat) (side : Side) :
    (Tokens.mk (before ++ (middle ++ after))).tagSpan
        ⟨before.length, before.length + middle.length⟩ operator side =
      .ok ⟨before ++ (Token.tagAll operator side middle ++ after)⟩ := by
  have hin : before.length + middle.length ≤ (Tokens.mk (before ++ (middle ++ after))).size := by
    simp [size, ← Nat.add_assoc]
  have hcontains : ∀ index, Span.contains ⟨before.length, before.length + middle.length⟩ index =
      decide (before.length ≤ index ∧ index < before.length + middle.length) := by
    intro index
    simp [Span.contains]
  rw [tagSpan, if_pos hin]
  refine congrArg (Except.ok ∘ Tokens.mk) ?_
  rw [List.mapIdx_append, List.mapIdx_append]
  congr 1
  · refine mapIdx_eq_self fun index hindex token => ?_
    rw [hcontains, if_neg]
    simp only [decide_eq_true_eq]
    omega
  congr 1
  · refine mapIdx_eq_map fun index hindex token => ?_
    rw [hcontains, if_pos]
    simp only [decide_eq_true_eq]
    omega
  · refine mapIdx_eq_self fun index hindex token => ?_
    rw [hcontains, if_neg]
    simp only [decide_eq_true_eq]
    omega

/-- Tagging spans one after another: the last span that a token is in tags it. -/
theorem foldlM_tagSpan {tokens : Tokens} {operands : List (Side × Span)} (operator : Nat)
    (h : ∀ operand ∈ operands, operand.2.stop ≤ tokens.size) :
    operands.foldlM (fun tokens operand => tokens.tagSpan operand.2 operator operand.1) tokens =
      .ok ⟨tokens.toList.mapIdx fun index token =>
        (operands.filter (·.2.contains index)).foldl
          (fun token operand => token.tagged ⟨operator, operand.1⟩) token⟩ := by
  induction operands generalizing tokens with
  | nil =>
    exact congrArg (Except.ok ∘ Tokens.mk) (mapIdx_eq_self fun _ _ _ => rfl).symm
  | cons operand operands ih =>
    obtain ⟨hhead, hrest⟩ := List.forall_mem_cons.1 h
    rw [List.foldlM_cons, tagSpan, if_pos hhead]
    refine (ih ?_).trans ?_
    · intro other hother
      rw [size, List.length_mapIdx]
      exact hrest other hother
    · rw [List.mapIdx_mapIdx]
      refine congrArg (Except.ok ∘ Tokens.mk) (congrArg (List.mapIdx · tokens.toList) ?_)
      funext index token
      rw [List.filter_cons]
      cases operand.2.contains index <;> simp

end Tokens

/-! ## The tokenizer -/

namespace Indexed

open Concrete

/-- What is known of the children of an operator node that are collected so far. -/
structure Survey where
  operator : Option Nat := none
  operands : List (Side × Span) := []
  /-- Spans of children that are held by no field of an operand. -/
  loose : List Span := []

/-- Whether a span is nothing but one operator. -/
def isOperatorAt (tokens : Tokens) (span : Span) : Except Fault Bool := do
  if span.length = 1 then
    return (← tokens.get span.start).isOperator
  else
    return false

/-- Takes note of one more child, which is all that the list ends with. -/
def Survey.add (lang : Language) (kind : String) (tokens : Tokens) (side : Option Side)
    (span : Span) (survey : Survey) : Except Fault Survey :=
  match side with
  | some side => .ok { survey with operands := survey.operands ++ [(side, span)] }
  | none => do
    if ← isOperatorAt tokens span then
      return { survey with operator := survey.operator <|> some span.start }
    else if lang.grammar.positional kind && !span.isEmpty then
      return { survey with loose := survey.loose ++ [span] }
    else
      return survey

/-- The operands among the loose spans: of a ternary operator the first three, of another one the
nearest on each side. -/
def byOrder (arity : Option Arity) (operator : Nat) (loose : List Span) : List (Side × Span) :=
  if arity = some .ternary then [Side.left, .center, .right].zip loose
  else
    ((loose.reverse.find? (·.stop ≤ operator)).map (Side.left, ·)).toList ++
      ((loose.find? (operator < ·.start)).map (Side.right, ·)).toList

/-- The operands of an operator: those that fields hold, and then those that order tells. -/
def Survey.placed (lang : Language) (kind : String) (operator : Nat) (survey : Survey) :
    List (Side × Span) :=
  survey.operands ++
    if lang.grammar.positional kind then
      byOrder (lang.grammar.operatorArity? kind) operator survey.loose
    else []

/-- Tags the operands of an operator node. -/
def tagOperands (lang : Language) (kind : String) (tokens : Tokens) (survey : Survey) :
    Except Fault Tokens :=
  match survey.operator with
  | none => .ok tokens
  | some operator =>
    (survey.placed lang kind operator).foldlM
      (fun tokens operand => tokens.tagSpan operand.2 operator operand.1) tokens

/-- Tags the operand of a unary node: what follows an operator, or else what precedes one. -/
def tagUnary (lang : Language) (tokens : Tokens) (span : Span) : Except Fault Tokens := do
  if span.length < 2 then
    return tokens
  else if (← tokens.get span.start).isOperator then
    tokens.tagSpan ⟨span.start + 1, span.stop⟩ span.start .right
  else if (← tokens.get (span.stop - 1)).isOperator then
    let read := tokens.toList.modify (span.stop - 1) (afterOperand lang)
    Tokens.tagSpan ⟨read⟩ ⟨span.start, span.stop - 1⟩ (span.stop - 1) .left
  else
    return tokens

mutual
/-- Adds the tokens of a node to a list, given the kind of its parent. -/
def collect (lang : Language) (source : List Char) (parent : Option String) (tokens : Tokens) :
    Cst → Except Fault Tokens
  | .node kind field start stop children =>
    if children.isEmpty || lang.grammar.stopNodes.contains kind then
      match leafToken? lang source parent (.leaf kind start stop field) with
      | some token => .ok (tokens.push token)
      | none => .ok tokens
    else
      match lang.grammar.operatorArity? kind with
      | some .unary => do
        let collected ← collectAll lang source kind tokens children
        tagUnary lang collected (collected.since tokens.size)
      | some .binary | some .ternary => do
        let (collected, survey) ← surveyAll lang source kind tokens {} children
        tagOperands lang kind collected survey
      | none => collectAll lang source kind tokens children

/-- Adds the tokens of the children of a node. -/
def collectAll (lang : Language) (source : List Char) (kind : String) (tokens : Tokens) :
    List Cst → Except Fault Tokens
  | [] => .ok tokens
  | child :: rest => do
    let collected ← collect lang source (some kind) tokens child
    collectAll lang source kind collected rest

/-- Adds the tokens of the children of an operator node, and takes note of their spans. -/
def surveyAll (lang : Language) (source : List Char) (kind : String) (tokens : Tokens)
    (survey : Survey) : List Cst → Except Fault (Tokens × Survey)
  | [] => .ok (tokens, survey)
  | child :: rest => do
    let collected ← collect lang source (some kind) tokens child
    let side := child.field.bind (lang.grammar.operandSide? kind)
    let next ← survey.add lang kind collected side (collected.since tokens.size)
    surveyAll lang source kind collected next rest
end

/-- The tokens of a source text along its concrete syntax tree. -/
def tokenize (lang : Language) (source : String) (root : Cst) : Except Fault Tokens :=
  collect lang source.toList none {} root

/-! ## What the survey finds -/

namespace Survey

variable {lang : Language} {kind : String} {groups : List Group}

/-- What there is to know of groups. -/
def ofGroups (lang : Language) (kind : String) (groups : List Group) : Survey where
  operator := operatorAt? groups
  operands := groups.filterMap fun group => group.side.map (·, group.span)
  loose :=
    if lang.grammar.positional kind then (groups.filter Group.isLoose).map Group.span else []

/-- One survey after another. -/
def append (first second : Survey) : Survey where
  operator := first.operator <|> second.operator
  operands := first.operands ++ second.operands
  loose := first.loose ++ second.loose

theorem append_assoc (first second third : Survey) :
    (first.append second).append third = first.append (second.append third) := by
  simp [append, Option.or_assoc]

theorem ofGroups_cons (group : Group) (groups : List Group) :
    ofGroups lang kind (group :: groups) =
      (ofGroups lang kind [group]).append (ofGroups lang kind groups) := by
  simp only [ofGroups, append, mk.injEq]
  refine ⟨?_, ?_, ?_⟩
  · unfold operatorAt?
    rw [List.find?_cons, List.find?_cons]
    split <;> simp
  · rw [← List.filterMap_append, List.singleton_append]
  · split
    · rw [← List.map_append, ← List.filter_append, List.singleton_append]
    · rfl

theorem isOperatorAt_eq (before : List Token) (group : Group)
    (hstart : group.start = before.length) :
    isOperatorAt ⟨before ++ group.tokens⟩ group.span = .ok group.isOperator := by
  unfold isOperatorAt
  have hlength : group.span.length = group.tokens.length := by
    simp [Group.span, Group.stop, Span.length]
  match htokens : group.tokens with
  | [] => simp [hlength, htokens, Group.isOperator, pure, Except.pure]
  | [token] =>
    have hone : group.span.length = 1 := by rw [hlength, htokens]; rfl
    have hget : (Tokens.mk (before ++ [token])).get group.span.start = .ok token := by
      rw [Group.span, hstart]
      exact Tokens.get_append before [] token
    rw [if_pos hone, hget]
    simp [Group.isOperator, htokens, bind, Except.bind, pure, Except.pure]
  | _ :: _ :: _ => simp [hlength, htokens, Group.isOperator, pure, Except.pure]

/-- A child that was just collected is noted as the group that it is. -/
theorem add_eq (survey : Survey) (before : List Token) (group : Group)
    (hstart : group.start = before.length) :
    survey.add lang kind ⟨before ++ group.tokens⟩ group.side group.span =
      .ok (survey.append (ofGroups lang kind [group])) := by
  unfold add
  cases hside : group.side with
  | some side =>
    have hloose : group.isLoose = false := by simp [Group.isLoose, hside]
    simp [append, ofGroups, operatorAt?, hside, hloose]
  | none =>
    have hempty : group.span.isEmpty = group.tokens.isEmpty := by
      cases htokens : group.tokens <;> simp [Group.span, Group.stop, Span.isEmpty, htokens]
    simp only [isOperatorAt_eq before group hstart, hempty]
    cases hoperator : group.isOperator with
    | true =>
      have hloose : group.isLoose = false := by simp [Group.isLoose, hoperator]
      have hsurvey : ofGroups lang kind [group] = { operator := some group.start } := by
        simp [ofGroups, operatorAt?, hside, hloose, hoperator]
      rw [hsurvey]
      simp [append, Group.span, bind, Except.bind, pure, Except.pure]
    | false =>
      have hloose : group.isLoose = !group.tokens.isEmpty := by
        simp [Group.isLoose, hside, hoperator]
      have hsurvey : ofGroups lang kind [group] =
          { loose := if lang.grammar.positional kind && !group.tokens.isEmpty then [group.span]
              else [] } := by
        cases hempty : group.tokens.isEmpty <;>
          simp [ofGroups, operatorAt?, hside, hloose, hoperator, hempty]
      rw [hsurvey]
      cases lang.grammar.positional kind && !group.tokens.isEmpty <;>
        simp [append, bind, Except.bind, pure, Except.pure]

end Survey

/-! ## What the operands are tagged with -/

variable {lang : Language} {kind : String} {start operator index : Nat} {groups loose : List Group}
  {group : Group}

/-- The operands that fields hold. -/
theorem filter_operands (h : Laid start groups) (hmem : group ∈ groups)
    (hin : group.span.contains index = true) :
    (Survey.ofGroups lang kind groups).operands.filter (·.2.contains index) =
      group.side.toList.map (·, group.span) := by
  have hcommute : (Survey.ofGroups lang kind groups).operands.filter (·.2.contains index) =
      (groups.filter (·.span.contains index)).filterMap
        fun other => other.side.map (·, other.span) := by
    rw [Survey.ofGroups, List.filter_filterMap, List.filterMap_filter]
    congr 1
    funext other
    cases other.side with
    | none => simp
    | some side => simp [Option.filter]
  rw [hcommute, h.filter_contains hmem hin]
  cases hside : group.side <;> simp [hside]

/-- The operands of a ternary operator by order. -/
theorem filter_zip (hapart : loose.Pairwise (·.stop ≤ ·.start))
    (hfull : ∀ other ∈ loose, other.tokens ≠ []) (hmem : group ∈ loose)
    (hin : group.span.contains index = true) (sides : List Side) :
    (sides.zip (loose.map Group.span)).filter (·.2.contains index) =
      (((loose.map Group.start).zip sides).lookup group.start).toList.map (·, group.span) := by
  induction loose generalizing sides with
  | nil => cases hmem
  | cons head rest ih =>
    obtain ⟨hhead, hrest⟩ := List.pairwise_cons.1 hapart
    cases sides with
    | nil => rfl
    | cons side sides =>
      simp only [List.map_cons, List.zip_cons_cons, List.lookup_cons]
      cases hmem with
      | head =>
        have hnone : (sides.zip (rest.map Group.span)).filter (·.2.contains index) = [] := by
          refine List.filter_eq_nil_iff.2 fun operand hoperand hin' => ?_
          obtain ⟨other, hother, hspan⟩ := List.mem_map.1 (List.of_mem_zip hoperand).2
          rw [← hspan, Group.contains_span] at hin'
          rw [Group.contains_span] at hin
          have hstop := hhead other hother
          omega
        rw [List.filter_cons, if_pos hin, hnone]
        simp
      | tail _ hmem =>
        have hstop := hhead group hmem
        have hlength := List.length_pos_iff.2 (hfull head (List.mem_cons_self ..))
        have hne : (group.start == head.start) = false := by
          simp only [beq_eq_false_iff_ne]
          unfold Group.stop at hstop
          omega
        have hout : ¬head.span.contains index = true := by
          rw [Group.contains_span] at hin ⊢
          omega
        rw [List.filter_cons, if_neg hout, hne]
        exact ih hrest (fun other hother => hfull other (List.mem_cons_of_mem _ hother)) hmem sides

/-- An operand that is looked for among the loose groups. -/
theorem filter_found (h : Laid start groups) {found : Option Group}
    (hfound : ∀ other ∈ found, other ∈ groups ∧ other.tokens ≠ []) (hmem : group ∈ groups)
    (hfull : group.tokens ≠ []) (hin : group.span.contains index = true) (side : Side) :
    ((found.map fun other => (side, other.span)).toList.filter (·.2.contains index)) =
      if found.map Group.start = some group.start then [(side, group.span)] else [] := by
  cases found with
  | none => rfl
  | some other =>
    obtain ⟨hother, hne⟩ := hfound other rfl
    have hlength := List.length_pos_iff.2 hne
    have hlength' := List.length_pos_iff.2 hfull
    by_cases hstart : other.start = group.start
    · have hsame : other = group := by
        refine (h.eq_or_apart hother hmem).resolve_right ?_
        unfold Group.stop
        omega
      simp [hsame, hin]
    · have hout : other.span.contains index = false := by
        rw [← Bool.not_eq_true]
        intro hin'
        exact hstart (congrArg Group.start (h.eq_of_contains hother hmem hin' hin))
      simp [hstart, hout]

theorem snd_mem_byOrder {arity : Option Arity} {spans : List Span} {operand : Side × Span}
    (h : operand ∈ byOrder arity operator spans) : operand.2 ∈ spans := by
  unfold byOrder at h
  split at h
  · exact (List.of_mem_zip h).2
  · rw [List.mem_append, Option.mem_toList, Option.mem_toList] at h
    rcases h with h | h
    · obtain ⟨span, hspan, rfl⟩ := Option.map_eq_some_iff.1 h
      exact List.mem_reverse.1 (List.mem_of_find?_eq_some hspan)
    · obtain ⟨span, hspan, rfl⟩ := Option.map_eq_some_iff.1 h
      exact List.mem_of_find?_eq_some hspan

/-- The operands of a node by order are those that its loose groups are. -/
theorem filter_byOrder (h : Laid start groups) (hmem : group ∈ groups)
    (hin : group.span.contains index = true) (arity : Option Arity) :
    (byOrder arity operator ((groups.filter Group.isLoose).map Group.span)).filter
        (·.2.contains index) =
      (if group.isLoose then sideByOrder arity operator (groups.filter Group.isLoose) group
        else none).toList.map (·, group.span) := by
  have hloose : ∀ other ∈ groups.filter Group.isLoose, other ∈ groups ∧ other.tokens ≠ [] := by
    intro other hother
    obtain ⟨hgroups, hother⟩ := List.mem_filter.1 hother
    exact ⟨hgroups, (Group.isLoose_iff.1 hother).2.2⟩
  cases hcase : group.isLoose with
  | false =>
    refine List.filter_eq_nil_iff.2 fun operand hoperand hin' => ?_
    obtain ⟨other, hother, hspan⟩ := List.mem_map.1 (snd_mem_byOrder hoperand)
    rw [← hspan] at hin'
    obtain rfl := h.eq_of_contains (hloose other hother).1 hmem hin' hin
    rw [(List.mem_filter.1 hother).2] at hcase
    cases hcase
  | true =>
    have hmember : group ∈ groups.filter Group.isLoose := List.mem_filter.2 ⟨hmem, hcase⟩
    rw [if_pos rfl, byOrder, sideByOrder]
    split
    · exact filter_zip (h.pairwise.filter _) (fun other hother => (hloose other hother).2) hmember
        hin _
    · have hleft : ∀ other ∈ (groups.filter Group.isLoose).reverse.find? (·.stop ≤ operator),
          other ∈ groups ∧ other.tokens ≠ [] := fun other hother =>
        hloose other (List.mem_reverse.1 (List.mem_of_find?_eq_some hother))
      have hright : ∀ other ∈ (groups.filter Group.isLoose).find? (operator < ·.start),
          other ∈ groups ∧ other.tokens ≠ [] := fun other hother =>
        hloose other (List.mem_of_find?_eq_some hother)
      have hfull := (hloose group hmember).2
      rw [List.filter_append, ← List.map_reverse, List.find?_map, List.find?_map, Option.map_map,
        Option.map_map, List.getLast?_filter]
      refine (congrArg₂ (· ++ ·) (filter_found h hleft hmem hfull hin .left)
        (filter_found h hright hmem hfull hin .right)).trans ?_
      by_cases hat : (((groups.filter Group.isLoose).reverse.find? (·.stop ≤ operator)).map
          Group.start) = some group.start
      · -- what ends before the operator does not start behind it
        have hnot : (((groups.filter Group.isLoose).find? (operator < ·.start)).map
            Group.start) ≠ some group.start := by
          intro hat'
          obtain ⟨before, hbefore, hstart⟩ := Option.map_eq_some_iff.1 hat
          obtain ⟨behind, hbehind, hstart'⟩ := Option.map_eq_some_iff.1 hat'
          have hstop : before.stop ≤ operator := by simpa using List.find?_some hbefore
          have hlater : operator < behind.start := by simpa using List.find?_some hbehind
          have horder : before.start ≤ before.stop := Nat.le_add_right ..
          omega
        rw [if_pos hat, if_pos hat, if_neg hnot]
        rfl
      · rw [if_neg hat, if_neg hat, List.nil_append]
        split <;> rfl

/-- **A position in a group is in the span of the operand that the group is, and in no other.** -/
theorem filter_contains (h : Laid start groups) (hmem : group ∈ groups)
    (hin : group.span.contains index = true) :
    ((Survey.ofGroups lang kind groups).placed lang kind operator).filter (·.2.contains index) =
      (ownSide lang kind operator groups group).toList.map (·, group.span) := by
  rw [Survey.placed, List.filter_append, filter_operands h hmem hin, ownSide]
  cases hpositional : lang.grammar.positional kind with
  | false => cases group.side <;> simp
  | true =>
    simp only [Survey.ofGroups, hpositional, if_true, Bool.true_and]
    rw [filter_byOrder h hmem hin]
    cases hside : group.side with
    | none => rfl
    | some side =>
      have hloose : group.isLoose = false := by simp [Group.isLoose, hside]
      simp [hloose]

theorem exists_of_mem_placed {operand : Side × Span}
    (hmem : operand ∈ (Survey.ofGroups lang kind groups).placed lang kind operator) :
    ∃ group ∈ groups, operand.2 = group.span := by
  rcases List.mem_append.1 hmem with hmem | hmem
  · obtain ⟨group, hgroup, hoperand⟩ := List.mem_filterMap.1 hmem
    obtain ⟨side, -, rfl⟩ := Option.map_eq_some_iff.1 hoperand
    exact ⟨group, hgroup, rfl⟩
  · split at hmem
    · rename_i hpositional
      have hspan := snd_mem_byOrder hmem
      rw [Survey.ofGroups, if_pos hpositional] at hspan
      obtain ⟨group, hgroup, hspan⟩ := List.mem_map.1 hspan
      exact ⟨group, (List.mem_filter.1 hgroup).1, hspan.symm⟩
    · cases hmem

/-- A change by position that changes each group in one way. -/
theorem mapIdx_groups (h : Laid start groups) {change : Nat → Token → Token}
    {same : Concrete.Group → Token → Token}
    (hsame : ∀ group ∈ groups, ∀ index, group.span.contains index = true → ∀ token,
      change index token = same group token) :
    (groups.flatMap Group.tokens).mapIdx (fun index => change (index + start)) =
      groups.flatMap fun group => group.tokens.map (same group) := by
  induction groups generalizing start with
  | nil => rfl
  | cons head rest ih =>
    obtain ⟨rfl, hrest⟩ := h
    rw [List.flatMap_cons, List.flatMap_cons, List.mapIdx_append]
    congr 1
    · refine mapIdx_eq_map fun index hindex token => ?_
      refine hsame head (List.mem_cons_self ..) _ (Group.contains_span.2 ?_) token
      unfold Group.stop
      omega
    · rw [← ih hrest fun group hgroup => hsame group (List.mem_cons_of_mem _ hgroup)]
      congr 1
      funext index
      rw [Group.stop, Nat.add_assoc, Nat.add_comm head.tokens.length]

/-- Tagging the spans of operands tags the groups that the operands are. -/
theorem tagOperands_eq (before : List Token) (h : Laid before.length groups) :
    tagOperands lang kind ⟨before ++ groups.flatMap Group.tokens⟩
        (Survey.ofGroups lang kind groups) =
      .ok ⟨before ++ Concrete.tagOperands lang kind groups⟩ := by
  unfold tagOperands
  cases hoperator : operatorAt? groups with
  | none => simp [Survey.ofGroups, hoperator, Concrete.tagOperands]
  | some operator =>
    have hin : ∀ operand ∈ (Survey.ofGroups lang kind groups).placed lang kind operator,
        operand.2.stop ≤ (Tokens.mk (before ++ groups.flatMap Group.tokens)).size := by
      intro operand hoperand
      obtain ⟨group, hgroup, hspan⟩ := exists_of_mem_placed hoperand
      rw [hspan, Tokens.size, List.length_append]
      exact h.stop_le hgroup
    have hfound : (Survey.ofGroups lang kind groups).operator = some operator := hoperator
    rw [hfound]
    refine (Tokens.foldlM_tagSpan operator hin).trans (congrArg (Except.ok ∘ Tokens.mk) ?_)
    rw [List.mapIdx_append, tagOperands_of_operator hoperator]
    congr 1
    · refine mapIdx_eq_self fun index hindex token => ?_
      have hnone : ((Survey.ofGroups lang kind groups).placed lang kind operator).filter
          (·.2.contains index) = [] := by
        refine List.filter_eq_nil_iff.2 fun operand hoperand hcontains => ?_
        obtain ⟨group, hgroup, hspan⟩ := exists_of_mem_placed hoperand
        rw [hspan, Group.contains_span] at hcontains
        have hstart := h.start_le hgroup
        omega
      rw [hnone]
      rfl
    · refine (mapIdx_groups h fun group hgroup index hcontains token =>
        congrArg (List.foldl _ token) (filter_contains h hgroup hcontains)).trans ?_
      refine List.flatMap_congr fun group _ => ?_
      cases ownSide lang kind operator groups group with
      | none => exact List.map_id _
      | some side => rfl

theorem modify_append (before : List Token) (last : Token) (change : Token → Token) :
    (before ++ [last]).modify before.length change = before ++ [change last] := by
  induction before with
  | nil => rfl
  | cons first before ih => exact congrArg (first :: ·) ih

/-- Tagging the operand of a unary node by its span tags its tokens. -/
theorem tagUnary_eq (lang : Language) (before list : List Token) :
    tagUnary lang ⟨before ++ list⟩ ⟨before.length, before.length + list.length⟩ =
      .ok ⟨before ++ Concrete.tagUnary lang before.length list⟩ := by
  match list with
  | [] => simp [tagUnary, Concrete.tagUnary, Span.length, pure, Except.pure]
  | [_] => simp [tagUnary, Concrete.tagUnary, Span.length, pure, Except.pure]
  | first :: second :: rest =>
    have hlong : ¬Span.length ⟨before.length,
        before.length + (first :: second :: rest).length⟩ < 2 := by
      simp [Span.length]
    rw [tagUnary, if_neg hlong, Tokens.get_append]
    cases hfirst : first.isOperator with
    | true =>
      have htag :=
        Tokens.tagSpan_append (before ++ [first]) (second :: rest) [] before.length .right
      simp only [List.append_nil, List.append_assoc, List.singleton_append, List.length_append,
        List.length_singleton, Nat.add_assoc, Nat.add_comm 1] at htag
      simp only [bind, Except.bind, hfirst, if_true, tagUnary_of_first hfirst]
      exact htag
    | false =>
      obtain ⟨front, last, hsplit⟩ := List.eq_nil_or_concat (first :: second :: rest)
        |>.resolve_left (List.cons_ne_nil _ _)
      rw [List.concat_eq_append] at hsplit
      have hstop : before.length + (first :: second :: rest).length - 1 =
          before.length + front.length := by
        rw [hsplit, List.length_append]
        rfl
      have hget : (Tokens.mk (before ++ (front ++ [last]))).get (before.length + front.length) =
          .ok last := by
        rw [← List.append_assoc, ← List.length_append]
        exact Tokens.get_append (before ++ front) [] last
      have hmodify := modify_append (before ++ front) last (afterOperand lang)
      rw [List.append_assoc, List.length_append] at hmodify
      simp only [bind, Except.bind, hfirst, hstop, Bool.false_eq_true, if_false,
        tagUnary_of_last hfirst hsplit]
      rw [hsplit, hget]
      cases hlast : last.isOperator with
      | false => simp [hlast, pure, Except.pure]
      | true =>
        have htag := Tokens.tagSpan_append before front [afterOperand lang last]
          (before.length + front.length) .left
        simp only [hlast, if_true, hmodify, List.append_assoc]
        exact htag

mutual
/-- **The tokens of a node are added to those that are there, and no access to the list fails.** -/
theorem collect_eq (lang : Language) (source : List Char) (parent : Option String)
    (tokens : Tokens) : (node : Cst) →
    collect lang source parent tokens node =
      .ok ⟨tokens.toList ++ read lang source parent tokens.size node⟩
  | .node kind field start stop children => by
    rw [collect, Concrete.read]
    split
    · cases leafToken? lang source parent (.leaf kind start stop field) with
      | none => exact congrArg (Except.ok ∘ Tokens.mk) (List.append_nil _).symm
      | some token => rfl
    · cases lang.grammar.operatorArity? kind with
      | none => exact collectAll_eq lang source kind tokens children
      | some arity =>
        have hlaid := laid_readAll lang source kind tokens.size children
        cases arity with
        | unary =>
          rw [collectAll_eq lang source kind tokens children]
          have hspan := tagUnary_eq lang tokens.toList
            ((readAll lang source kind tokens.size children).flatMap Group.tokens)
          rw [← List.length_append] at hspan
          exact hspan
        | binary | ternary =>
          rw [surveyAll_eq lang source kind tokens {} children]
          exact tagOperands_eq tokens.toList hlaid

theorem collectAll_eq (lang : Language) (source : List Char) (kind : String) (tokens : Tokens) :
    (children : List Cst) →
    collectAll lang source kind tokens children =
      .ok ⟨tokens.toList ++
        (readAll lang source kind tokens.size children).flatMap Group.tokens⟩
  | [] => congrArg (Except.ok ∘ Tokens.mk) (List.append_nil _).symm
  | child :: rest => by
    rw [collectAll, collect_eq lang source (some kind) tokens child]
    refine (collectAll_eq lang source kind _ rest).trans ?_
    simp [readAll, Tokens.size]

theorem surveyAll_eq (lang : Language) (source : List Char) (kind : String) (tokens : Tokens)
    (survey : Survey) : (children : List Cst) →
    surveyAll lang source kind tokens survey children =
      .ok (⟨tokens.toList ++
          (readAll lang source kind tokens.size children).flatMap Group.tokens⟩,
        survey.append (.ofGroups lang kind (readAll lang source kind tokens.size children)))
  | [] => by
    simp [surveyAll, readAll, Survey.append, Survey.ofGroups, operatorAt?]
  | child :: rest => by
    let group : Concrete.Group :=
      ⟨tokens.size, read lang source (some kind) tokens.size child,
        child.field.bind (lang.grammar.operandSide? kind)⟩
    have hadd : survey.add lang kind ⟨tokens.toList ++ group.tokens⟩ group.side group.span =
        .ok (survey.append (.ofGroups lang kind [group])) :=
      survey.add_eq tokens.toList group rfl
    have hspan : (Tokens.mk (tokens.toList ++ group.tokens)).since tokens.size = group.span := by
      simp [Tokens.since, Tokens.size, Group.span, Group.stop, group]
    have hsize : (Tokens.mk (tokens.toList ++ group.tokens)).size =
        tokens.size + group.tokens.length := by
      simp [Tokens.size]
    have hgroups : readAll lang source kind tokens.size (child :: rest) =
        group :: readAll lang source kind (tokens.size + group.tokens.length) rest := rfl
    rw [surveyAll, collect_eq lang source (some kind) tokens child, hgroups]
    change (do
      let next ← survey.add lang kind ⟨tokens.toList ++ group.tokens⟩ group.side
        ((Tokens.mk (tokens.toList ++ group.tokens)).since tokens.size)
      surveyAll lang source kind ⟨tokens.toList ++ group.tokens⟩ next rest) = _
    rw [hspan, hadd]
    refine (surveyAll_eq lang source kind _ _ rest).trans ?_
    rw [hsize, Survey.append_assoc, ← Survey.ofGroups_cons, List.flatMap_cons, List.append_assoc]
end

theorem tokenize_eq (lang : Language) (source : String) (root : Cst) :
    tokenize lang source root = .ok (lang.tokenize source root) :=
  collect_eq lang source.toList none {} root

end Indexed

end Interlingua
