import Interlingua.Proofs.Token.NodeKinds
import Interlingua.Proofs.Token.Spelling

/-!
# The frontier of a syntax tree and its tokens

Reading a concrete syntax tree rebuilds operators from tables, tags operands and replaces operators
that turn out to stand after their operand.  None of this loses a token, adds one or moves one.

* `Cst.frontier` — the nodes that a language reads as leaves, from left to right; `Cst.text?` — what
  the source spells there.
* `Cst.Occurs` — a node inside a tree, with what lies before and after it on the frontier.
* `Concrete.map_value_read` — the tokens of a node spell what its frontier does.
* `Language.tokenize_frontier` — so do the tokens of a source text, and what belongs to one node
  stands together.
-/

namespace Interlingua

namespace Cst

/-! ## Frontiers -/

mutual
/-- The nodes that are read as leaves, from left to right: those without children, and those of a
kind that the language takes whole. -/
def frontier (lang : Language) : Cst → List Cst
  | .node kind field start stop children =>
    if children.isEmpty || lang.grammar.stopNodes.contains kind then
      [.node kind field start stop children]
    else frontierAll lang children

def frontierAll (lang : Language) : List Cst → List Cst
  | [] => []
  | child :: rest => child.frontier lang ++ frontierAll lang rest
end

theorem frontierAll_append (lang : Language) (first second : List Cst) :
    frontierAll lang (first ++ second) = frontierAll lang first ++ frontierAll lang second := by
  induction first with
  | nil => rfl
  | cons child rest ih => simp [frontierAll, ih]

/-- What the source spells at a node, without the blanks around it; nothing if that is blank, or if
the offsets of the node name no part of the source. -/
def text? (source : List Char) (node : Cst) : Option String :=
  ((Text.slice? source node.start node.stop).map fun part => String.ofList (Text.trim part)).filter
    (!·.isEmpty)

theorem text?_eq_some_iff {source : List Char} {node : Cst} {text : String} :
    node.text? source = some text ↔
      ∃ front part back, source = front ++ part ++ back ∧ Text.bytes front = node.start ∧
        Text.bytes (front ++ part) = node.stop ∧ text = String.ofList (Text.trim part) ∧
        text ≠ "" := by
  simp only [text?, Option.filter_eq_some_iff, Option.map_eq_some_iff, Text.slice?_eq_some_iff,
    Bool.not_eq_true', ← Bool.not_eq_true, String.isEmpty_iff]
  constructor
  · rintro ⟨⟨part, ⟨front, back, hsource, hstart, hstop⟩, rfl⟩, hne⟩
    exact ⟨front, part, back, hsource, hstart, hstop, rfl, hne⟩
  · rintro ⟨front, part, back, hsource, hstart, hstop, rfl, hne⟩
    exact ⟨⟨part, ⟨front, back, hsource, hstart, hstop⟩, rfl⟩, hne⟩

/-- A node that is reached inside a tree, with the kind of its parent and with the frontier before
and after it. -/
inductive Occurs (lang : Language) (root : Cst) :
    List Cst → Option String → Cst → List Cst → Prop
  | root : Occurs lang root [] none root []
  | child {before after : List Cst} {parent field : Option String} {kind : String}
      {start stop : Nat} (lefts : List Cst) (child : Cst) (rights : List Cst)
      (h : Occurs lang root before parent
        (.node kind field start stop (lefts ++ child :: rights)) after)
      (hopen : kind ∉ lang.grammar.stopNodes) :
      Occurs lang root (before ++ frontierAll lang lefts) (some kind) child
        (frontierAll lang rights ++ after)

theorem frontier_branch {lang : Language} {kind : String} {field : Option String} {start stop : Nat}
    {children : List Cst} (hne : children ≠ []) (hopen : kind ∉ lang.grammar.stopNodes) :
    (node kind field start stop children).frontier lang = frontierAll lang children := by
  rw [frontier, if_neg (by simp [hne, hopen])]

/-- The frontier of a node is the part of the frontier between what lies before and after it. -/
theorem Occurs.frontier_eq {lang : Language} {root node : Cst} {before after : List Cst}
    {parent : Option String} (h : root.Occurs lang before parent node after) :
    root.frontier lang = before ++ node.frontier lang ++ after := by
  induction h with
  | root => simp
  | child lefts child rights _ hopen ih =>
    rw [ih, frontier_branch (by simp) hopen, frontierAll_append, frontierAll]
    simp

end Cst

namespace Concrete

variable {lang : Language} {source : List Char} {kind : String}

/-! ## What tagging leaves alone -/

section Seen

variable {α : Type} {seen : Token → α}
  (htagged : ∀ tag token, seen (Token.tagged tag token) = seen token)

include htagged

theorem map_tagAll (operator : Nat) (side : Side) (tokens : List Token) :
    (Token.tagAll operator side tokens).map seen = tokens.map seen := by
  simp [Token.tagAll, Function.comp_def, htagged]

/-- What does not depend on tags is the same after operands are tagged. -/
theorem map_tagOperands (groups : List Group) :
    (tagOperands lang kind groups).map seen = (groups.flatMap Group.tokens).map seen := by
  unfold tagOperands
  cases operatorAt? groups with
  | none => rfl
  | some operator =>
    simp only [List.map_flatMap]
    refine List.flatMap_congr fun group _ => ?_
    split
    · exact map_tagAll htagged operator _ group.tokens
    · rfl

theorem map_tagUnary (hafter : ∀ token, seen (afterOperand lang token) = seen token) (start : Nat)
    (tokens : List Token) : (tagUnary lang start tokens).map seen = tokens.map seen := by
  unfold tagUnary
  split
  · rfl
  · rfl
  · rename_i first rest _
    split
    · rw [List.map_cons, map_tagAll htagged, List.map_cons]
    · split
      · rfl
      · rename_i last hlast
        split
        · rw [List.map_append, map_tagAll htagged, List.map_singleton, hafter,
            ← List.map_singleton, ← List.map_append, List.dropLast_append_getLast? last hlast]
        · rfl

end Seen

theorem map_value_of_faces {first second : List Token}
    (h : first.map Token.face = second.map Token.face) :
    first.map Token.value = second.map Token.value := by
  simpa [Token.face, Function.comp_def] using congrArg (List.map Prod.fst) h

/-- What a node adds to the tokens of its children is no more than tags and forms. -/
theorem map_face_read {field parent : Option String} {start stop offset : Nat} {children : List Cst}
    (hne : children ≠ []) (hopen : kind ∉ lang.grammar.stopNodes) :
    (read lang source parent offset (.node kind field start stop children)).map Token.face =
      ((readAll lang source kind offset children).flatMap Group.tokens).map Token.face := by
  have hbranch : (children.isEmpty || lang.grammar.stopNodes.contains kind) = false := by
    simp [hne, hopen]
  rw [read, hbranch, if_neg (by simp)]
  extract_lets groups
  cases lang.grammar.operatorArity? kind with
  | none => rfl
  | some arity =>
    cases arity with
    | unary => exact map_tagUnary (fun _ _ => rfl) (fun _ => rfl) offset _
    | binary | ternary => exact map_tagOperands (fun _ _ => rfl) groups

/-! ## What a node spells -/

/-- A leaf spells what the source does, also if it is an operator out of a table. -/
theorem value_leafToken? (lang : Language) (source : List Char) (parent : Option String)
    (leaf : Cst) :
    (leafToken? lang source parent leaf).map Token.value = leaf.text? source := by
  unfold leafToken? Cst.text?
  cases Text.slice? source leaf.start leaf.stop with
  | none => rfl
  | some part =>
    simp only [Option.map_some, Option.filter_some]
    generalize String.ofList (Text.trim part) = text
    cases hempty : text.isEmpty with
    | true => rfl
    | false =>
      cases hform : parent.bind fun kind => lang.leafForm? text kind with
      | none => rfl
      | some form =>
        obtain ⟨kind, -, hform⟩ := Option.bind_eq_some_iff.1 hform
        exact congrArg some (Language.mem_leafForms hform).2

mutual
/-- **The tokens of a node spell what its frontier does.** -/
theorem map_value_read (lang : Language) (source : List Char) (parent : Option String)
    (offset : Nat) : (node : Cst) →
    (read lang source parent offset node).map Token.value =
      (node.frontier lang).filterMap (Cst.text? source)
  | .node kind field start stop children => by
    by_cases hleaf : (children.isEmpty || lang.grammar.stopNodes.contains kind) = true
    · have htext := value_leafToken? lang source parent (.leaf kind start stop field)
      rw [read, Cst.frontier, if_pos hleaf, if_pos hleaf, ← Option.toList_map, htext,
        List.filterMap_cons, List.filterMap_nil]
      change Option.toList (Cst.text? source (.node kind field start stop children)) = _
      cases Cst.text? source (.node kind field start stop children) <;> rfl
    · obtain ⟨hne, hopen⟩ : children ≠ [] ∧ kind ∉ lang.grammar.stopNodes := by
        simpa using hleaf
      rw [Cst.frontier_branch hne hopen, ← map_value_readAll lang source kind offset children]
      exact map_value_of_faces (map_face_read hne hopen)

theorem map_value_readAll (lang : Language) (source : List Char) (kind : String) (offset : Nat) :
    (children : List Cst) →
    ((readAll lang source kind offset children).flatMap Group.tokens).map Token.value =
      (Cst.frontierAll lang children).filterMap (Cst.text? source)
  | [] => rfl
  | child :: rest => by
    rw [readAll, Cst.frontierAll, List.flatMap_cons, List.map_append, List.filterMap_append,
      map_value_read, map_value_readAll]
end

/-! ## Where the tokens of a node stand -/

theorem readAll_append (lang : Language) (source : List Char) (kind : String) (offset : Nat)
    (first second : List Cst) :
    readAll lang source kind offset (first ++ second) =
      readAll lang source kind offset first ++
        readAll lang source kind
          (offset + ((readAll lang source kind offset first).flatMap Group.tokens).length)
          second := by
  induction first generalizing offset with
  | nil => rfl
  | cons child rest ih =>
    simp only [List.cons_append, readAll, ih, List.flatMap_cons, List.length_append, Nat.add_assoc]

/-- Some of the tokens are those of a node, up to tags and forms; the ones before them and after
them are those of the frontier there. -/
structure Spans (lang : Language) (source : List Char) (tokens : List Token) (before : List Cst)
    (parent : Option String) (node : Cst) (after : List Cst) (lefts inside rights : List Token) :
    Prop where
  split : tokens = lefts ++ inside ++ rights
  lefts_values : lefts.map Token.value = before.filterMap (Cst.text? source)
  inside_values : inside.map Token.value = (node.frontier lang).filterMap (Cst.text? source)
  rights_values : rights.map Token.value = after.filterMap (Cst.text? source)
  own : inside.map Token.face = (read lang source parent lefts.length node).map Token.face

/-- **The tokens of every node stand together.** -/
theorem exists_spans {root node : Cst} {before after : List Cst} {parent : Option String}
    (h : root.Occurs lang before parent node after) :
    ∃ lefts inside rights,
      Spans lang source (read lang source none 0 root) before parent node after lefts inside
        rights := by
  induction h with
  | root =>
    refine ⟨[], read lang source none 0 root, [], by simp, rfl, ?_, rfl, rfl⟩
    exact map_value_read lang source none 0 root
  | @child before after parent field kind start stop lefts child rights _ hopen ih =>
    obtain ⟨front, middle, back, hspans⟩ := ih
    have hown := hspans.own
    rw [map_face_read (by simp) hopen, readAll_append, readAll, List.flatMap_append,
      List.flatMap_cons, List.map_append, List.map_append] at hown
    -- the tokens inside the parent fall into those of the children before, of the child and after
    obtain ⟨lower, rest, rfl, hlower, hrest⟩ := List.map_eq_append_iff.1 hown
    obtain ⟨own, upper, rfl, hown, hupper⟩ := List.map_eq_append_iff.1 hrest
    have hlength : (front ++ lower).length = front.length +
        ((readAll lang source kind front.length lefts).flatMap Group.tokens).length := by
      simpa using congrArg List.length hlower
    refine ⟨front ++ lower, own, upper ++ back, ?_, ?_, ?_, ?_, ?_⟩
    · simp [hspans.split]
    · rw [List.map_append, List.filterMap_append, hspans.lefts_values, map_value_of_faces hlower,
        map_value_readAll]
    · rw [map_value_of_faces hown, map_value_read]
    · rw [List.map_append, List.filterMap_append, hspans.rights_values, map_value_of_faces hupper,
        map_value_readAll]
    · rw [hlength]
      exact hown

end Concrete

/-- **The tokens of a source text are what the frontier of its syntax tree spells**: nothing is
lost, added or moved, whatever the offsets in the tree are.  The tokens of every node that is read
stand together. -/
theorem Language.tokenize_frontier (lang : Language) (source : String) (root : Cst) :
    (lang.tokenize source root).values =
      (root.frontier lang).filterMap (Cst.text? source.toList) ∧
    (∀ node text, Cst.text? source.toList node = some text ↔
      ∃ front part back, source.toList = front ++ part ++ back ∧ Text.bytes front = node.start ∧
        Text.bytes (front ++ part) = node.stop ∧ text = String.ofList (Text.trim part) ∧
        text ≠ "") ∧
    ∀ before parent node after, root.Occurs lang before parent node after →
      root.frontier lang = before ++ node.frontier lang ++ after ∧
      ∃ lefts inside rights,
        Concrete.Spans lang source.toList (lang.tokenize source root).toList before parent node
          after lefts inside rights :=
  ⟨Concrete.map_value_read lang source.toList none 0 root, fun _ _ => Cst.text?_eq_some_iff,
    fun _ _ _ _ h => ⟨h.frontier_eq, Concrete.exists_spans h⟩⟩

/-- An operator after its operand inside another operator, beside a blank leaf and a leaf whose
offsets are reversed. -/
theorem Language.tokenize_frontier_trailing :
    let source := "a + b++ "
    let update : Cst := .node "update_expression" (some "right") 4 7
      [.leaf "identifier" 4 5 none, .leaf "++" 5 7 none]
    let root : Cst := .node "binary_expression" none 0 7 [.leaf "identifier" 0 1 (some "left"),
      .leaf "+" 2 3 (some "operator"), update, .leaf "blank" 7 8 none, .leaf "identifier" 5 4 none]
    (Language.java.tokenize source root).values = ["a", "+", "b", "++"] ∧
      ∃ before after, root.Occurs .java before (some "binary_expression") update after ∧
        ∃ lefts inside rights,
          (Language.java.tokenize source root).toList = lefts ++ inside ++ rights ∧
          lefts.map Token.value = ["a", "+"] ∧ inside.map Token.value = ["b", "++"] := by
  intro source update root
  have hopen : "binary_expression" ∉ Language.java.grammar.stopNodes := by decide
  have hoccurs : root.Occurs .java _ (some "binary_expression") update _ :=
    .child [.leaf "identifier" 0 1 (some "left"), .leaf "+" 2 3 (some "operator")] update
      [.leaf "blank" 7 8 none, .leaf "identifier" 5 4 none] .root hopen
  obtain ⟨hvalues, -, hspans⟩ := Language.tokenize_frontier .java source root
  obtain ⟨-, lefts, inside, rights, hspan⟩ := hspans _ _ _ _ hoccurs
  refine ⟨hvalues.trans (by decide), _, _, hoccurs, lefts, inside, rights, hspan.split,
    hspan.lefts_values.trans (by decide), hspan.inside_values.trans (by decide)⟩

end Interlingua
