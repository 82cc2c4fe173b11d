import Interlingua.Proofs.Text.Lines
import Interlingua.Proofs.Tree.Preorder
import Interlingua.Tree.Outline

/-!
# The indentation of an outline

The level of a visit is read off a table that has one level for each node, the one last noted.  A
node that is shared is visited more than once, at levels that may differ; still, where a level is
read it is that of the visit above: until the last child of a visit is reached, only what lies below
that visit is noted, and a node does not lie below itself.

* `Encounter` — a visit with the visits that it was made below; its depth is their number.
* `Arena.Encounters` — the recursive listing of the encounters of siblings.
* `Encounters.place` — an encounter other than a sibling has the encounter of its parent above it.
* `Outline.Ready` — the table has the level of the visit that siblings were made below.
* `Outline.lines_of_encounters` — the lines of the encounters, and what is noted after them: nothing
  has changed for nodes that are not met.
* `Tree.outline_indented` — each line is indented by its depth.
-/

namespace Interlingua

/-- A visit, and the visits that it was made below, the nearest first. -/
@[ext]
structure Encounter where
  visit : Visit
  above : List Visit

/-- The distance from the root. -/
def Encounter.depth (encounter : Encounter) : Nat := encounter.above.length

namespace Arena

variable {arena : Arena} {above siblings : List Visit} {encounters : List Encounter}

/-- The encounters of siblings that are made below some visits: each of them, followed by those of
its own children. -/
inductive Encounters (arena : Arena) : List Visit → List Visit → List Encounter → Prop
  | nil {above : List Visit} : Encounters arena above [] []
  | cons {above : List Visit} {visit : Visit} {node : Node} {rest : List Visit}
      {below after : List Encounter} (found : arena.node visit.id = .ok node)
      (children : Encounters arena (visit :: above) (visitsBelow visit.id node) below)
      (siblings : Encounters arena above rest after) :
      Encounters arena above (visit :: rest) (⟨visit, above⟩ :: (below ++ after))

/-- The visits of a listing are those of encounters. -/
theorem InPreorder.exists_encounters {visits : List Visit} (h : arena.InPreorder siblings visits)
    (above : List Visit) :
    ∃ encounters, arena.Encounters above siblings encounters ∧
      encounters.map Encounter.visit = visits := by
  induction h generalizing above with
  | nil => exact ⟨[], .nil, rfl⟩
  | @cons visit node rest below after found _ _ ihchildren ihsiblings =>
    obtain ⟨lower, hlower, rfl⟩ := ihchildren (visit :: above)
    obtain ⟨later, hlater, rfl⟩ := ihsiblings above
    exact ⟨_, .cons found hlower hlater, by simp⟩

namespace Encounters

/-- An encounter is one of the siblings, or it is that of a child, with the encounter of the
parent above it. -/
theorem place (h : arena.Encounters above siblings encounters) {encounter : Encounter}
    (hmem : encounter ∈ encounters) :
    (encounter.visit ∈ siblings ∧ encounter.above = above) ∨
    ∃ parent ∈ encounters, ∃ node, arena.node parent.visit.id = .ok node ∧
      encounter.visit ∈ visitsBelow parent.visit.id node ∧
      encounter.above = parent.visit :: parent.above := by
  induction h with
  | nil => cases hmem
  | @cons above visit node rest below after found _ _ ihchildren ihsiblings =>
    rcases List.mem_cons.1 hmem with rfl | hmem
    · exact .inl ⟨List.mem_cons_self, rfl⟩
    rcases List.mem_append.1 hmem with hbelow | hafter
    · rcases ihchildren hbelow with ⟨hchild, habove⟩ | ⟨parent, hparent, hplace⟩
      · exact .inr ⟨⟨visit, above⟩, List.mem_cons_self, node, found, hchild, habove⟩
      · exact .inr ⟨parent, List.mem_cons_of_mem _ (List.mem_append_left _ hparent), hplace⟩
    · rcases ihsiblings hafter with ⟨hsibling, habove⟩ | ⟨parent, hparent, hplace⟩
      · exact .inl ⟨List.mem_cons_of_mem _ hsibling, habove⟩
      · exact .inr ⟨parent, List.mem_cons_of_mem _ (List.mem_append_right _ hparent), hplace⟩

/-- What is met below a root is that root, or a child with the encounter of its parent above it. -/
theorem place_root {root : NodeId} (h : arena.Encounters [] [.root root] encounters)
    {encounter : Encounter} (hmem : encounter ∈ encounters) :
    encounter = ⟨.root root, []⟩ ∨
    ∃ parent ∈ encounters, ∃ node i c, arena.node parent.visit.id = .ok node ∧
      node.children[i]? = some c ∧ encounter.visit = .below parent.visit.id c i ∧
      encounter.above = parent.visit :: parent.above := by
  rcases h.place hmem with ⟨hvisit, habove⟩ | ⟨parent, hparent, node, found, hchild, habove⟩
  · exact .inl (Encounter.ext (List.mem_singleton.1 hvisit) habove)
  · obtain ⟨i, hi, hvisit⟩ := List.mem_mapIdx.1 hchild
    have hc := List.getElem?_eq_getElem hi
    exact .inr ⟨parent, hparent, node, i, _, found, hc, hvisit.symm, habove⟩

/-- What is met lies below one of the siblings. -/
theorem exists_above (h : arena.Encounters above siblings encounters) {encounter : Encounter}
    (hmem : encounter ∈ encounters) :
    ∃ sibling ∈ siblings, arena.Above sibling.id encounter.visit.id := by
  induction h with
  | nil => cases hmem
  | @cons above visit node rest below after found _ _ ihchildren ihsiblings =>
    rcases List.mem_cons.1 hmem with rfl | hmem
    · exact ⟨visit, List.mem_cons_self, .refl⟩
    rcases List.mem_append.1 hmem with hbelow | hafter
    · obtain ⟨child, hchild, habove⟩ := ihchildren hbelow
      obtain ⟨i, hi, rfl⟩ := List.mem_mapIdx.1 hchild
      exact ⟨visit, List.mem_cons_self, .head (owns_of_mem found (List.getElem_mem hi)) habove⟩
    · obtain ⟨sibling, hsibling, habove⟩ := ihsiblings hafter
      exact ⟨sibling, List.mem_cons_of_mem _ hsibling, habove⟩

/-- What is listed ends. -/
theorem grounded (h : arena.Encounters above siblings encounters) {sibling : Visit}
    (hs : sibling ∈ siblings) : arena.Grounded sibling.id := by
  induction h generalizing sibling with
  | nil => cases hs
  | cons found _ _ ihchildren ihsiblings =>
    rcases List.mem_cons.1 hs with rfl | hs
    · refine .intro found fun c hc => ?_
      obtain ⟨i, hi⟩ := List.getElem?_of_mem hc
      exact ihchildren (Walks.mem_visitsBelow hi)
    · exact ihsiblings hs

end Encounters

/-- A subtree that ends does not contain its root a second time. -/
theorem Grounded.not_below_self {id : NodeId} (h : arena.Grounded id) :
    ¬ Relation.TransGen arena.Owns id id := by
  induction h with
  | @intro id node found _ ih =>
    intro hcycle
    obtain ⟨next, ⟨node', found', c, hc, rfl⟩, hback⟩ := Relation.TransGen.head'_iff.1 hcycle
    rw [found] at found'
    cases found'
    exact ih c hc (.tail' hback (owns_of_mem found hc))

end Arena

/-! ## The lines -/

namespace Outline

variable {arena : Arena} {above siblings : List Visit} {encounters : List Encounter}

/-- The levels after some visits have been noted, each at its depth. -/
def noted (levels : Levels) (encounters : List Encounter) : Levels :=
  encounters.foldl
    (fun levels encounter => (encounter.visit.id, encounter.depth) :: levels) levels

/-- What is noted of other nodes says nothing about a node. -/
theorem lookup_noted {id : NodeId} (levels : Levels)
    (h : ∀ encounter ∈ encounters, encounter.visit.id ≠ id) :
    (noted levels encounters).lookup id = levels.lookup id := by
  induction encounters generalizing levels with
  | nil => rfl
  | cons first rest ih =>
    obtain ⟨hfirst, hrest⟩ := List.forall_mem_cons.1 h
    have hne : (id == first.visit.id) = false := beq_eq_false_iff_ne.2 (Ne.symm hfirst)
    have hskip : List.lookup id ((first.visit.id, first.depth) :: levels) = levels.lookup id := by
      rw [List.lookup_cons, hne]
    exact (ih _ hrest).trans hskip

/-- What stands on the line of a visit behind the blanks. -/
def entry (visit : Visit) (node : Node) : String :=
  visit.field ++ ": " ++ node.kindName ++
    (match node.detail? with
      | some detail => " " ++ detail
      | none => "") ++
    " " ++ visit.id.display

theorem line_eq (level : Nat) (visit : Visit) (node : Node) :
    line level visit node =
      String.ofList (List.replicate (2 * level) ' ') ++ entry visit node ++ "\n" := by
  unfold line entry
  cases node.detail? <;> simp only [String.append_assoc]

/-- The text on the line of an encounter. -/
def LineOf (arena : Arena) (encounter : Encounter) (text : String) : Prop :=
  ∃ node, arena.node encounter.visit.id = .ok node ∧
    text = String.ofList (List.replicate (2 * encounter.depth) ' ') ++ entry encounter.visit node

/-- The table has the right level for each of some siblings, and nothing that the visits before a
sibling note can change it: what the sibling was met below does not lie below any of them. -/
structure Ready (arena : Arena) (levels : Levels) (depth : Nat) (siblings : List Visit) : Prop where
  level : ∀ sibling ∈ siblings, level levels sibling = depth
  apart : ∀ sibling ∈ siblings, ∀ parent ∈ sibling.parent, ∀ other ∈ siblings,
    ¬ arena.Above other.id parent

namespace Ready

variable {levels : Levels} {visit : Visit} {rest : List Visit} {depth : Nat}

/-- Once a visit has been noted, the table is ready for its children. -/
theorem children {node : Node} (hground : arena.Grounded visit.id)
    (found : arena.node visit.id = .ok node) :
    Ready arena ((visit.id, depth) :: levels) (depth + 1) (Arena.visitsBelow visit.id node) where
  level child hchild := by
    obtain ⟨i, hi, rfl⟩ := List.mem_mapIdx.1 hchild
    simp [Outline.level, Visit.below]
  apart child hchild parent hparent other hother habove := by
    obtain ⟨i, hi, rfl⟩ := List.mem_mapIdx.1 hchild
    obtain ⟨j, hj, rfl⟩ := List.mem_mapIdx.1 hother
    cases hparent
    have howns := Arena.owns_of_mem found (List.getElem_mem hj)
    exact hground.not_below_self (.head' howns habove)

/-- After a sibling and all that lies below it, it is ready for the siblings that follow. -/
theorem onward (h : Ready arena levels depth (visit :: rest))
    (hbelow : ∀ encounter ∈ encounters, arena.Above visit.id encounter.visit.id) :
    Ready arena (noted levels encounters) depth rest where
  level sibling hsibling := by
    rw [← h.level sibling (List.mem_cons_of_mem _ hsibling)]
    cases hparent : sibling.parent with
    | none => simp only [Outline.level, hparent]
    | some parent =>
      simp only [Outline.level, hparent]
      rw [lookup_noted]
      rintro encounter hmem rfl
      exact h.apart sibling (List.mem_cons_of_mem _ hsibling) _ hparent visit List.mem_cons_self
        (hbelow encounter hmem)
  apart sibling hsibling parent hparent other hother :=
    h.apart sibling (List.mem_cons_of_mem _ hsibling) parent hparent other
      (List.mem_cons_of_mem _ hother)

end Ready

theorem lines_cons {visit : Visit} {node : Node} (found : arena.node visit.id = .ok node)
    (levels : Levels) (rest : List Visit) :
    lines arena levels (visit :: rest) =
      (lines arena ((visit.id, level levels visit) :: levels) rest).map
        (line (level levels visit) visit node :: ·) := by
  simp only [lines, found, bind, Except.bind]
  cases lines arena ((visit.id, level levels visit) :: levels) rest <;> rfl

/-- **Every encounter is written at its depth**, and so are those after it. -/
theorem lines_of_encounters (h : arena.Encounters above siblings encounters) {levels : Levels}
    (hready : Ready arena levels above.length siblings) :
    ∃ texts, List.Forall₂ (LineOf arena) encounters texts ∧
      ∀ rest, lines arena levels (encounters.map Encounter.visit ++ rest) =
        (lines arena (noted levels encounters) rest).map (texts.map (· ++ "\n") ++ ·) := by
  induction h generalizing levels with
  | nil => exact ⟨[], .nil, fun rest => (id_map (lines arena levels rest)).symm⟩
  | @cons above visit node siblings below after found hchildren hsiblings ihchildren ihsiblings =>
    have hground : arena.Grounded visit.id :=
      (Arena.Encounters.cons found hchildren hsiblings).grounded List.mem_cons_self
    have hhere : level levels visit = above.length := hready.level visit List.mem_cons_self
    let first : Encounter := ⟨visit, above⟩
    have hbelow : ∀ encounter ∈ first :: below, arena.Above visit.id encounter.visit.id := by
      refine List.forall_mem_cons.2 ⟨.refl, fun encounter hmem => ?_⟩
      obtain ⟨child, hchild, habove⟩ := hchildren.exists_above hmem
      obtain ⟨i, hi, rfl⟩ := List.mem_mapIdx.1 hchild
      exact .head (Arena.owns_of_mem found (List.getElem_mem hi)) habove
    obtain ⟨lower, hlower, hrunLower⟩ := ihchildren (Ready.children hground found)
    obtain ⟨later, hlater, hrunLater⟩ := ihsiblings (hready.onward hbelow)
    let own : String := String.ofList (List.replicate (2 * above.length) ' ') ++ entry visit node
    refine ⟨own :: (lower ++ later), .cons ⟨node, found, rfl⟩ (List.rel_append hlower hlater),
      fun rest => ?_⟩
    have hnoted : noted levels (first :: (below ++ after)) =
        noted (noted levels (first :: below)) after := by
      rw [← List.cons_append]
      exact List.foldl_append
    rw [List.map_cons, List.map_append, List.cons_append, List.append_assoc, lines_cons found,
      hhere, line_eq, hrunLower]
    change ((lines arena (noted levels (first :: below)) _).map _).map _ = _
    rw [hrunLater, hnoted]
    cases lines arena (noted (noted levels (first :: below)) after) rest with
    | error fault => rfl
    | ok texts => simp [Except.map, own]

/-! ### What a line shows -/

/-- The number of blanks that a text starts with. -/
def indentation (text : String) : Nat := (text.toList.takeWhile (· = ' ')).length

/-- Text that starts with something other than a blank, and has no line feed. -/
def IsLabel (text : String) : Prop :=
  text.toList.head?.any (· != ' ') = true ∧ '\n' ∉ text.toList

/-- Characters are faster to decide about than the literal that they make. -/
theorem IsLabel.ofList {chars : List Char}
    (h : chars.head?.any (· != ' ') = true ∧ '\n' ∉ chars) : IsLabel (String.ofList chars) := by
  simpa only [IsLabel, String.toList_ofList] using h

theorem not_mem_ofList {chars : List Char} (h : '\n' ∉ chars) :
    '\n' ∉ (String.ofList chars).toList := by
  rwa [String.toList_ofList]

/-- Children whose fields are labels. -/
def Labelled (children : List Child) : Prop := ∀ c ∈ children, IsLabel c.field

namespace Labelled

variable {first second : List Child} {field : String}

theorem nil : Labelled [] := fun _ hc => by cases hc

theorem cons {id : NodeId} (h : IsLabel field) (hrest : Labelled first) :
    Labelled (⟨id, field⟩ :: first) :=
  List.forall_mem_cons.2 ⟨h, hrest⟩

theorem append (h : Labelled first) (h' : Labelled second) : Labelled (first ++ second) :=
  List.forall_mem_append.2 ⟨h, h'⟩

theorem held (ids : List NodeId) (h : IsLabel field) : Labelled (held field ids) := by
  intro c hc
  obtain ⟨id, -, rfl⟩ := List.mem_map.1 hc
  exact h

theorem flatMap {α : Type} {items : List α} {f : α → List Child} (h : ∀ item, Labelled (f item)) :
    Labelled (items.flatMap f) := by
  intro c hc
  obtain ⟨item, -, hc⟩ := List.mem_flatMap.1 hc
  exact h item c hc

end Labelled

/-- The fields of every node are labels. -/
theorem labelled_children (node : Node) : Labelled node.children := by
  cases node
  case' expr e => cases e
  case' stmt s => cases s
  case' decl d => cases d
  case' defn d => cases d
  all_goals
    -- the list is taken apart by how it was put together
    repeat first
      | exact .nil
      | exact .held _ (.ofList (by decide))
      | refine .cons (.ofList (by decide)) ?_
      | refine .append ?_ ?_
      | refine .flatMap fun ⟨_, _⟩ => ?_

/-- A line starts with as many blanks as it is indented by. -/
theorem indentation_line {visit : Visit} (h : IsLabel visit.field) (blanks : Nat) (node : Node) :
    indentation (String.ofList (List.replicate blanks ' ') ++ entry visit node) = blanks := by
  obtain ⟨rest, hentry⟩ : ∃ rest, entry visit node = visit.field ++ rest := by
    simp only [entry, String.append_assoc]
    exact ⟨_, rfl⟩
  unfold indentation
  rw [hentry, String.toList_append, String.toList_append, String.toList_ofList,
    List.takeWhile_append_of_pos (by simp)]
  cases hchars : visit.field.toList with
  | nil => simp [IsLabel, hchars] at h
  | cons c chars =>
    have hc : c ≠ ' ' := by simpa [IsLabel, hchars] using h.1
    simp [hc]

theorem not_mem_kindName (node : Node) : '\n' ∉ node.kindName.toList := by
  cases node with
  | expr e =>
    cases e <;> simp only [Node.kindName, Expr.kindName] <;> exact not_mem_ofList (by decide)
  | stmt s =>
    cases s <;> simp only [Node.kindName, Stmt.kindName] <;> exact not_mem_ofList (by decide)
  | decl d =>
    cases d with
    | function name params ret modifiers owner =>
      cases owner <;> simp only [Node.kindName, Decl.kindName] <;>
        exact not_mem_ofList (by decide)
    | _ => simp only [Node.kindName, Decl.kindName]; exact not_mem_ofList (by decide)
  | defn d =>
    cases d <;> simp only [Node.kindName, Def.kindName] <;> exact not_mem_ofList (by decide)
  | type ty => exact not_mem_ofList (by decide)

theorem ne_of_mem_display {id : NodeId} {c : Char} (h : c ∈ id.display.toList) :
    c ≠ '\n' ∧ c ≠ '\r' := by
  unfold NodeId.display at h
  split at h
  · rw [String.toList_append, List.mem_append] at h
    rcases h with h | h
    · obtain rfl : c = '#' := by simpa using h
      decide
    · rw [Text.count, String.toList_ofList] at h
      have hdigit := Text.isDigit_of_mem_digits h
      constructor <;> rintro rfl <;> exact absurd hdigit (by decide)
  · have hall : ∀ c ∈ "#INVALID".toList, c ≠ '\n' ∧ c ≠ '\r' := by simp
    exact hall c h

/-- Nothing but what is added to the kind of a node can break its line. -/
theorem not_mem_entry {visit : Visit} {node : Node} (hfield : IsLabel visit.field)
    (h : ∀ detail ∈ node.detail?, '\n' ∉ detail.toList) : '\n' ∉ (entry visit node).toList := by
  have hkind := not_mem_kindName node
  have hid : '\n' ∉ visit.id.display.toList := fun hmem => (ne_of_mem_display hmem).1 rfl
  unfold entry
  cases hdetail : node.detail? with
  | none => simp [hfield.2, hkind, hid]
  | some detail => simp [hfield.2, hkind, hid, h detail hdetail]

/-- A line ends with an identity. -/
theorem getLast?_entry (front : String) (visit : Visit) (node : Node) :
    (front ++ entry visit node).toList.getLast? ≠ some '\r' := by
  intro hlast
  unfold entry at hlast
  rw [← String.append_assoc, ← String.append_assoc, String.append_assoc, String.toList_append,
    String.toList_append, List.getLast?_append_of_ne_nil _ (by simp)] at hlast
  have hmem := List.mem_of_getLast? hlast
  rw [String.toList_append] at hmem
  rcases List.mem_append.1 hmem with hblank | hid
  · exact absurd hblank (by decide)
  · exact (ne_of_mem_display hid).2 rfl

/-- The lines that are written are those that the text is divided into. -/
theorem lines_join {texts : List String} (h : List.Forall₂ (LineOf arena) encounters texts)
    (hfields : ∀ encounter ∈ encounters, IsLabel encounter.visit.field)
    (hdetails : ∀ encounter ∈ encounters, ∀ node,
      arena.node encounter.visit.id = .ok node → ∀ detail ∈ node.detail?, '\n' ∉ detail.toList) :
    Text.lines (String.join (texts.map (· ++ "\n"))).toList = texts.map String.toList := by
  induction h with
  | nil => rfl
  | @cons encounter text encounters texts hline _ ih =>
    obtain ⟨hfield, hfields⟩ := List.forall_mem_cons.1 hfields
    obtain ⟨hdetail, hdetails⟩ := List.forall_mem_cons.1 hdetails
    obtain ⟨node, found, rfl⟩ := hline
    let blanks := String.ofList (List.replicate (2 * encounter.depth) ' ')
    let own := blanks ++ entry encounter.visit node
    have hjoin : (String.join ((own :: texts).map (· ++ "\n"))).toList =
        own.toList ++ '\n' :: (String.join (texts.map (· ++ "\n"))).toList := by
      simp [String.join_cons]
    have hnone : '\n' ∉ own.toList := by
      simp [own, blanks, not_mem_entry hfield (hdetail node found)]
    rw [hjoin, Text.lines_append hnone (getLast?_entry _ _ _), ih hfields hdetails, List.map_cons]

end Outline

namespace Tree

variable {tree : Tree}

/-- **Each line of an outline is indented by its depth.**  The walk of a tree that is closed and
does not contain itself meets its nodes in encounters, each of them that of the root or of a child
of the encounter above it.  The outline has a line for each of them in turn, which starts with two
blanks for each visit above it.  The lines are also those that the text is divided into, if no name
that they show has a line feed in it. -/
theorem outline_indented (hroot : tree.arena.Grounded tree.root) :
    ∃ encounters texts, tree.arena.Encounters [] [.root tree.root] encounters ∧
      tree.walk = .ok (encounters.map Encounter.visit) ∧
      (∀ encounter ∈ encounters, encounter = ⟨.root tree.root, []⟩ ∨
        ∃ parent ∈ encounters, encounter.visit.parent = some parent.visit.id ∧
          encounter.depth = parent.depth + 1 ∧
          encounter.above = parent.visit :: parent.above) ∧
      tree.outline = .ok (String.join (texts.map (· ++ "\n"))) ∧
      List.Forall₂ (fun encounter text => Outline.indentation text = 2 * encounter.depth ∧
        ∃ node, tree.arena.node encounter.visit.id = .ok node ∧
          text = String.ofList (List.replicate (2 * encounter.depth) ' ') ++
            Outline.entry encounter.visit node) encounters texts ∧
      ((∀ encounter ∈ encounters, ∀ node, tree.arena.node encounter.visit.id = .ok node →
          ∀ detail ∈ node.detail?, '\n' ∉ detail.toList) →
        Text.lines (String.join (texts.map (· ++ "\n"))).toList = texts.map String.toList) := by
  have hwalk : tree.walk = .ok tree.trail.visits := walk_eq_ok_iff.2 ⟨fault_trail hroot, rfl⟩
  obtain ⟨encounters, hencounters, hvisits⟩ :=
    (walk_eq_ok_iff_inPreorder.1 hwalk).exists_encounters []
  have hready : Outline.Ready tree.arena [] 0 [.root tree.root] := by
    constructor <;> simp [Outline.level, Visit.root]
  obtain ⟨texts, htexts, hlines⟩ := Outline.lines_of_encounters hencounters hready
  have hplace := fun {encounter : Encounter} (hmem : encounter ∈ encounters) =>
    hencounters.place_root hmem
  have hlabel : ∀ encounter ∈ encounters, Outline.IsLabel encounter.visit.field := by
    intro encounter hmem
    rcases hplace hmem with rfl | ⟨parent, -, node, i, c, -, hc, hvisit, -⟩
    · exact Outline.IsLabel.ofList (by decide)
    · rw [hvisit]
      exact Outline.labelled_children node c (List.mem_of_getElem? hc)
  refine ⟨encounters, texts, hencounters, ?_, fun encounter hmem => ?_, ?_, ?_, fun hdetails => ?_⟩
  · rw [hvisits, hwalk]
  · rcases hplace hmem with hhere | ⟨parent, hparent, node, i, c, -, -, hvisit, habove⟩
    · exact .inl hhere
    · refine .inr ⟨parent, hparent, hvisit ▸ rfl, ?_, habove⟩
      simp only [Encounter.depth, habove, List.length_cons]
  · have hall := hlines []
    rw [List.append_nil, hvisits] at hall
    unfold outline
    rw [hwalk]
    simp only [bind, Except.bind, hall]
    simp [Outline.lines, Except.map, pure, Except.pure]
  · refine ((List.forall₂_and_left _ _).2 ⟨hlabel, htexts⟩).imp ?_
    rintro encounter text ⟨hfield, node, found, rfl⟩
    exact ⟨Outline.indentation_line hfield _ node, node, found, rfl⟩
  · exact Outline.lines_join htexts hlabel hdetails

/-- A sum of a grouped name and of its negation.  The grouped name is met at two levels, and its own
level is noted again before the name in it is met for the second time. -/
theorem outline_indented_shared :
    let tree : Tree := ⟨⟨#[.expr (.ident "x"), .expr (.paren ⟨0⟩), .expr (.unary .neg ⟨1⟩),
      .expr (.binary .add ⟨1⟩ ⟨2⟩)]⟩, ⟨3⟩⟩
    let text := "root: binary expression + #3\n  left: parenthesized expression #1\n" ++
      "    inner: identifier x #0\n  right: unary expression - #2\n" ++
      "    operand: parenthesized expression #1\n      inner: identifier x #0\n"
    tree.arena.Grounded tree.root ∧ tree.outline = .ok text ∧
      ∃ encounters texts, tree.arena.Encounters [] [.root ⟨3⟩] encounters ∧
        text = String.join (texts.map (· ++ "\n")) ∧
        List.Forall₂ (fun encounter text => Outline.indentation text = 2 * encounter.depth)
          encounters texts ∧
        Text.lines text.toList = texts.map String.toList := by
  intro tree text
  have hfacts : tree.arena.GroundedTo 5 tree.root ∧ tree.outline = .ok text ∧
      ∀ node ∈ tree.arena.nodes.toList, ∀ detail ∈ node.detail?, '\n' ∉ detail.toList := by
    decide +kernel +revert
  obtain ⟨hground, houtline, hdetails⟩ := hfacts
  obtain ⟨encounters, texts, hencounters, -, -, hjoin, htexts, hlines⟩ :=
    outline_indented hground.grounded
  have htext : text = String.join (texts.map (· ++ "\n")) := by
    rw [houtline] at hjoin
    exact Except.ok.inj hjoin
  refine ⟨hground.grounded, houtline, encounters, texts, hencounters, htext,
    htexts.imp fun _ _ hline => hline.1, ?_⟩
  rw [htext]
  exact hlines fun encounter _ node found => hdetails node (Arena.mem_of_node found)

end Tree

end Interlingua
