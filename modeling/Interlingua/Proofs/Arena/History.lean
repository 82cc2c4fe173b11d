import Interlingua.Proofs.Arena.Search

/-!
# The life of an arena

An arena starts empty, gets nodes, and has its blocks edited.  An edit makes an older node own a
newer one as easily as the other way round, so the order of allocation says nothing about who is
below whom.

* `Arena.Edit` — the two edits of a block as one operation; `Edit.newBody?` is what the block
  holds afterwards if nothing is checked.
* `Arena.Step`, `Arena.run` — allocations and edits one after another; an edit that is refused
  leaves the arena as it was.
* `acyclic_setBody_iff` — a new statement closes a cycle exactly if it lies above the block.
* `Arena.run_acyclic` — whatever is done, the arena stays closed and without cycles, and an edit
  is refused as malformed exactly if it would make a cycle.
-/

namespace Interlingua

namespace Arena

variable {arena : Arena} {block node : NodeId} {body new : List NodeId}

/-! ## Edits -/

/-- An edit of a block, by the position it is made at. -/
inductive Edit where
  | insert (index : Nat)
  | substitute (index : Nat)
  deriving DecidableEq, Repr

namespace Edit

/-- Makes an edit. -/
def run (edit : Edit) (arena : Arena) (block node : NodeId) : Except TreeError Arena :=
  match edit with
  | .insert index => arena.insert block index node
  | .substitute index => (arena.substitute block index node).map Prod.snd

/-- What a block holds after an edit that is not checked; nothing if the position is not valid. -/
def newBody? (edit : Edit) (body : List NodeId) (node : NodeId) : Option (List NodeId) :=
  match edit with
  | .insert index => if index ≤ body.length then some (body.insertIdx index node) else none
  | .substitute index => if index < body.length then some (body.set index node) else none

/-- The error of an edit at a position that is not valid. -/
def outOfRange (edit : Edit) (body : List NodeId) : TreeError :=
  match edit with
  | .insert index | .substitute index => .indexOutOfRange index body.length

/-- Both edits open the block and then look at the position. -/
theorem run_eq (edit : Edit) (arena : Arena) (block node : NodeId) :
    edit.run arena block node = (do
      let body ← arena.openBlock block node
      match edit.newBody? body node with
      | some new => .ok (arena.setBody block new)
      | none => .error (edit.outOfRange body)) := by
  cases edit with
  | insert index =>
    simp only [run, Arena.insert, newBody?, outOfRange]
    cases arena.openBlock block node with
    | error error => rfl
    | ok body =>
      simp only [bind, Except.bind]
      by_cases h : index ≤ body.length <;> simp [h]
  | substitute index =>
    simp only [run, Arena.substitute, newBody?, outOfRange]
    cases arena.openBlock block node with
    | error error => rfl
    | ok body =>
      simp only [bind, Except.bind]
      by_cases h : index < body.length
      · simp [h, Except.map]
      · simp [h, Except.map]

/-- An edit puts the new statement into the block. -/
theorem mem_newBody {edit : Edit} (h : edit.newBody? body node = some new) : node ∈ new := by
  cases edit with
  | insert index =>
    simp only [newBody?, Option.ite_none_right_eq_some, Option.some.injEq] at h
    obtain ⟨hle, rfl⟩ := h
    exact (List.mem_insertIdx hle).2 (.inl rfl)
  | substitute index =>
    simp only [newBody?, Option.ite_none_right_eq_some, Option.some.injEq] at h
    obtain ⟨hlt, rfl⟩ := h
    exact List.mem_set hlt node

/-- It puts nothing else there. -/
theorem eq_or_mem_of_mem_newBody {edit : Edit} (h : edit.newBody? body node = some new) :
    ∀ id ∈ new, id = node ∨ id ∈ body := by
  intro id hid
  cases edit with
  | insert index =>
    simp only [newBody?, Option.ite_none_right_eq_some, Option.some.injEq] at h
    obtain ⟨hle, rfl⟩ := h
    exact (List.mem_insertIdx hle).1 hid
  | substitute index =>
    simp only [newBody?, Option.ite_none_right_eq_some, Option.some.injEq] at h
    obtain ⟨-, rfl⟩ := h
    exact (List.mem_or_eq_of_mem_set hid).symm

end Edit

/-! ## Who owns whom after an edit -/

theorem node_of_blockBody? (h : arena.blockBody? block = some body) :
    arena.node block = .ok (.stmt (.block body)) := by
  unfold blockBody? at h
  split at h
  · rename_i found hfound
    cases h
    simp [Arena.node, hfound]
  · cases h

theorem node_setBody (h : arena.blockBody? block = some body) (id : NodeId) :
    (arena.setBody block new).node id =
      if id = block then .ok (.stmt (.block new)) else arena.node id := by
  have hlt : block.index < arena.nodes.size := index_lt_of_node (node_of_blockBody? h)
  unfold Arena.node Arena.node? setBody
  rw [Array.getElem?_setIfInBounds]
  by_cases heq : id = block
  · simp [heq, hlt]
  · have hne : block.index ≠ id.index := fun hindex => heq (by cases id; cases block; simp_all)
    simp [heq, hne]

theorem owns_block_iff (h : arena.blockBody? block = some body) (child : NodeId) :
    arena.Owns block child ↔ child ∈ body := by
  simp [Owns, node_of_blockBody? h, Node.children, Stmt.children, held]

/-- An edit changes what the block owns, and nothing else. -/
theorem owns_setBody_iff (h : arena.blockBody? block = some body) (parent child : NodeId) :
    (arena.setBody block new).Owns parent child ↔
      if parent = block then child ∈ new else arena.Owns parent child := by
  unfold Owns
  rw [node_setBody h]
  by_cases heq : parent = block
  · simp [heq, Node.children, Stmt.children, held]
  · simp [heq]

theorem contains_setBody (id : NodeId) :
    (arena.setBody block new).contains id = arena.contains id := by
  rw [Bool.eq_iff_iff, contains_iff, contains_iff]
  simp [size, setBody]

theorem Closed.setBody (hclosed : arena.Closed) (h : arena.blockBody? block = some body)
    (hnode : arena.contains node = true) (hold : ∀ id ∈ new, id = node ∨ id ∈ body) :
    (arena.setBody block new).Closed := by
  intro parent child howns
  rw [contains_setBody]
  rw [owns_setBody_iff h] at howns
  split at howns
  · rcases hold child howns with rfl | hchild
    · exact hnode
    · exact hclosed block child ((owns_block_iff h child).2 hchild)
  · exact hclosed parent child howns

/-- A path down to the block stays a path: only edges out of the block are gone, and those come
after it. -/
theorem Above.setBody (h : arena.blockBody? block = some body) {id : NodeId}
    (habove : arena.Above id block) : (arena.setBody block new).Above id block := by
  induction habove using Relation.ReflTransGen.head_induction_on with
  | refl => exact .refl
  | @head id next howns _ ih =>
    by_cases heq : id = block
    · exact heq ▸ .refl
    · exact .head ((owns_setBody_iff h id next).2 (by simpa [heq] using howns)) ih

/-- A path of the edited arena is an old one, or it goes through the new statement — once, if the
statement does not lie above the block. -/
theorem transGen_of_setBody (h : arena.blockBody? block = some body)
    (hold : ∀ id ∈ new, id = node ∨ id ∈ body) (hnot : ¬ arena.Above node block)
    {first last : NodeId} (hpath : Relation.TransGen (arena.setBody block new).Owns first last) :
    Relation.TransGen arena.Owns first last ∨
      (arena.Above first block ∧ arena.Above node last) := by
  have hedge : ∀ parent child, (arena.setBody block new).Owns parent child →
      arena.Owns parent child ∨ (parent = block ∧ child = node) := by
    intro parent child howns
    rw [owns_setBody_iff h] at howns
    split at howns
    · rename_i heq
      subst heq
      rcases hold child howns with rfl | hchild
      · exact .inr ⟨rfl, rfl⟩
      · exact .inl ((owns_block_iff h child).2 hchild)
    · exact .inl howns
  induction hpath with
  | @single last howns =>
    rcases hedge _ _ howns with howns | ⟨rfl, rfl⟩
    · exact .inl (.single howns)
    · exact .inr ⟨.refl, .refl⟩
  | @tail middle last _ howns ih =>
    rcases ih with hpath | ⟨hfirst, hmiddle⟩ <;> rcases hedge _ _ howns with howns | ⟨rfl, rfl⟩
    · exact .inl (.tail hpath howns)
    · exact .inr ⟨hpath.to_reflTransGen, .refl⟩
    · exact .inr ⟨hfirst, hmiddle.tail howns⟩
    · exact absurd hmiddle hnot

/-- **A new statement closes a cycle exactly if it lies above the block.** -/
theorem acyclic_setBody_iff (hacyclic : arena.Acyclic) (h : arena.blockBody? block = some body)
    (hmem : node ∈ new) (hold : ∀ id ∈ new, id = node ∨ id ∈ body) :
    (arena.setBody block new).Acyclic ↔ ¬ arena.Above node block := by
  constructor
  · intro hnew habove
    have howns : (arena.setBody block new).Owns block node :=
      (owns_setBody_iff h block node).2 (by simpa using hmem)
    exact hnew block (.head' howns (habove.setBody h))
  · intro hnot id hcycle
    rcases transGen_of_setBody h hold hnot hcycle with hcycle | ⟨hid, hnode⟩
    · exact hacyclic id hcycle
    · exact hnot (hnode.trans hid)

/-! ## What an edit answers -/

/-- The refusal of a statement that contains the block. -/
def wouldContainItself (node : NodeId) : TreeError :=
  .malformed "block statement"
    ("inserting " ++ node.display ++ " would make the block contain itself")

theorem openBlock_eq (hclosed : arena.Closed) (hacyclic : arena.Acyclic)
    (h : arena.blockBody? block = some body) (hnode : arena.contains node = true) :
    (arena.Above node block ∧ arena.openBlock block node = .error (wouldContainItself node)) ∨
      (¬ arena.Above node block ∧ arena.openBlock block node = .ok body) := by
  obtain ⟨found, hreaches, hfound⟩ : ∃ found, arena.reaches node block = .ok found ∧
      (found = true ↔ arena.Above node block) := reaches_iff hclosed hacyclic hnode
  cases found with
  | true =>
    refine .inl ⟨hfound.1 rfl, ?_⟩
    simp [openBlock, h, hnode, hreaches, wouldContainItself, liftM, monadLift,
      MonadLift.monadLift, bind, Except.bind]
  | false =>
    refine .inr ⟨fun habove => absurd (hfound.2 habove) (by simp), ?_⟩
    simp [openBlock, h, hnode, hreaches, liftM, monadLift, MonadLift.monadLift, bind, Except.bind]

/-- **An edit at a valid position is refused as malformed if it would make a cycle, and is made
otherwise.** -/
theorem Edit.run_cases {edit : Edit} (hclosed : arena.Closed) (hacyclic : arena.Acyclic)
    (h : arena.blockBody? block = some body) (hnode : arena.contains node = true)
    (hnew : edit.newBody? body node = some new) :
    (¬ (arena.setBody block new).Acyclic ∧
      edit.run arena block node = .error (wouldContainItself node)) ∨
    ((arena.setBody block new).Acyclic ∧
      edit.run arena block node = .ok (arena.setBody block new)) := by
  rw [acyclic_setBody_iff hacyclic h (mem_newBody hnew) (eq_or_mem_of_mem_newBody hnew), run_eq]
  rcases openBlock_eq hclosed hacyclic h hnode with ⟨habove, hopen⟩ | ⟨hnot, hopen⟩
  · exact .inl ⟨not_not.2 habove, by simp [hopen, bind, Except.bind]⟩
  · exact .inr ⟨hnot, by simp [hopen, hnew, bind, Except.bind]⟩

/-- An edit that is made was aimed at a block, at a valid position. -/
theorem Edit.of_run_ok {edit : Edit} {after : Arena} (h : edit.run arena block node = .ok after) :
    ∃ body new, arena.blockBody? block = some body ∧ edit.newBody? body node = some new := by
  rw [run_eq] at h
  cases hopen : arena.openBlock block node with
  | error error =>
    rw [hopen] at h
    cases h
  | ok opened =>
    cases hnew : edit.newBody? opened node with
    | none =>
      simp [hopen, hnew, bind, Except.bind] at h
    | some new =>
      have hbody : arena.blockBody? block = some opened := by
        unfold openBlock at hopen
        cases hb : arena.blockBody? block with
        | none => simp [hb] at hopen
        | some body =>
          simp only [hb] at hopen
          split at hopen
          · cases hr : arena.reaches node block with
            | error fault =>
              simp [hr, liftM, monadLift, MonadLift.monadLift, bind, Except.bind] at hopen
            | ok found =>
              cases found <;>
                simp_all [liftM, monadLift, MonadLift.monadLift, bind, Except.bind]
          · cases hopen
            rfl
      exact ⟨opened, new, hbody, hnew⟩

/-! ## Allocation -/

theorem node_alloc (arena : Arena) (added : Node) (id : NodeId) :
    (arena.alloc added).2.node id =
      if id = arena.nextId then .ok added else arena.node id := by
  unfold Arena.node Arena.node? alloc
  simp only [Array.getElem?_push]
  by_cases heq : id = arena.nextId
  · simp [heq, nextId, size]
  · have hne : id.index ≠ arena.nodes.size := fun hindex =>
      heq (by cases id; simp_all [nextId, size])
    simp [heq, hne]

theorem not_contains_nextId (arena : Arena) : arena.contains arena.nextId = false := by
  simp [contains, nextId]

theorem ne_nextId_of_contains {id : NodeId} (h : arena.contains id = true) : id ≠ arena.nextId := by
  rintro rfl
  rw [not_contains_nextId] at h
  cases h

theorem owns_alloc_iff (arena : Arena) (added : Node) (parent child : NodeId) :
    (arena.alloc added).2.Owns parent child ↔
      if parent = arena.nextId then ∃ c ∈ added.children, c.id = child
      else arena.Owns parent child := by
  unfold Owns
  rw [node_alloc]
  by_cases heq : parent = arena.nextId <;> simp [heq]

/-- Every child of the larger arena is a node of the smaller one. -/
theorem Owns.contains_of_alloc {added : Node} {parent child : NodeId} (hclosed : arena.Closed)
    (hadded : ∀ c ∈ added.children, arena.contains c.id = true)
    (h : (arena.alloc added).2.Owns parent child) : arena.contains child = true := by
  rw [owns_alloc_iff] at h
  split at h
  · obtain ⟨c, hc, rfl⟩ := h
    exact hadded c hc
  · exact hclosed parent child h

theorem Closed.alloc {added : Node} (hclosed : arena.Closed)
    (hadded : ∀ c ∈ added.children, arena.contains c.id = true) :
    (arena.alloc added).2.Closed := by
  intro parent child howns
  have hold := contains_iff.1 (howns.contains_of_alloc hclosed hadded)
  refine contains_iff.2 (Nat.lt_of_lt_of_le hold ?_)
  simp [size, Arena.alloc]

/-- Nothing owns a node that was just allocated, so no cycle goes through it. -/
theorem Acyclic.alloc {added : Node} (hclosed : arena.Closed) (hacyclic : arena.Acyclic)
    (hadded : ∀ c ∈ added.children, arena.contains c.id = true) :
    (arena.alloc added).2.Acyclic := by
  have hpath : ∀ {first last : NodeId}, arena.contains first = true →
      Relation.TransGen (arena.alloc added).2.Owns first last →
      Relation.TransGen arena.Owns first last ∧ arena.contains last = true := by
    intro first last hfirst hpath
    induction hpath with
    | @single last howns =>
      have hlast := howns.contains_of_alloc hclosed hadded
      rw [owns_alloc_iff, if_neg (ne_nextId_of_contains hfirst)] at howns
      exact ⟨.single howns, hlast⟩
    | @tail middle last _ howns ih =>
      have hlast := howns.contains_of_alloc hclosed hadded
      rw [owns_alloc_iff, if_neg (ne_nextId_of_contains ih.2)] at howns
      exact ⟨.tail ih.1 howns, hlast⟩
  intro id hcycle
  have hid : arena.contains id = true := by
    obtain ⟨before, -, howns⟩ := Relation.TransGen.tail'_iff.1 hcycle
    exact howns.contains_of_alloc hclosed hadded
  exact hacyclic id (hpath hid hcycle).1

/-! ## Histories -/

/-- What is done to an arena. -/
inductive Step where
  | alloc (node : Node)
  | edit (made : Edit) (block node : NodeId)
  deriving DecidableEq, Repr

namespace Step

/-- What a step refers to is there: the children of a new node, or the statement that is put into
a block.  The block itself may be anything. -/
def Admitted (step : Step) (arena : Arena) : Prop :=
  match step with
  | .alloc node => ∀ child ∈ node.children, arena.contains child.id = true
  | .edit _ _ node => arena.contains node = true

instance (step : Step) (arena : Arena) : Decidable (step.Admitted arena) :=
  match step with
  | .alloc node => inferInstanceAs (Decidable (∀ child ∈ node.children, _))
  | .edit _ _ node => inferInstanceAs (Decidable (arena.contains node = true))

/-- The arena after a step; an edit that is refused leaves it as it was. -/
def apply (step : Step) (arena : Arena) : Arena :=
  match step with
  | .alloc node => (arena.alloc node).2
  | .edit made block node =>
    match made.run arena block node with
    | .ok after => after
    | .error _ => arena

/-- One step keeps an arena closed and without cycles. -/
theorem apply_acyclic {step : Step} (hadmitted : step.Admitted arena) (hclosed : arena.Closed)
    (hacyclic : arena.Acyclic) : (step.apply arena).Closed ∧ (step.apply arena).Acyclic := by
  cases step with
  | alloc added => exact ⟨hclosed.alloc hadmitted, hacyclic.alloc hclosed hadmitted⟩
  | edit made block node =>
    cases hrun : made.run arena block node with
    | error error =>
      simp only [apply, hrun]
      exact ⟨hclosed, hacyclic⟩
    | ok after =>
      simp only [apply, hrun]
      obtain ⟨body, new, hbody, hnew⟩ := Edit.of_run_ok hrun
      rcases Edit.run_cases hclosed hacyclic hbody hadmitted hnew with ⟨-, hmade⟩ | ⟨hafter, hmade⟩
      · rw [hrun] at hmade
        cases hmade
      · rw [hrun] at hmade
        cases hmade
        exact ⟨hclosed.setBody hbody hadmitted (Edit.eq_or_mem_of_mem_newBody hnew), hafter⟩

end Step

/-- The arena after some steps. -/
def run (arena : Arena) (steps : List Step) : Arena :=
  steps.foldl (fun arena step => step.apply arena) arena

/-- Each of some steps is admitted by the arena that it is made in. -/
def Admits (arena : Arena) : List Step → Prop
  | [] => True
  | step :: rest => step.Admitted arena ∧ (step.apply arena).Admits rest

instance decidableAdmits : (arena : Arena) → (steps : List Step) → Decidable (arena.Admits steps)
  | _, [] => inferInstanceAs (Decidable True)
  | arena, step :: rest =>
    have := decidableAdmits (step.apply arena) rest
    inferInstanceAs (Decidable (_ ∧ _))

theorem run_keeps (steps : List Step) (hadmits : arena.Admits steps) (hclosed : arena.Closed)
    (hacyclic : arena.Acyclic) : (arena.run steps).Closed ∧ (arena.run steps).Acyclic := by
  induction steps generalizing arena with
  | nil => exact ⟨hclosed, hacyclic⟩
  | cons step rest ih =>
    obtain ⟨hstep, hrest⟩ := hadmits
    obtain ⟨hclosed, hacyclic⟩ := step.apply_acyclic hstep hclosed hacyclic
    exact ih hrest hclosed hacyclic

theorem not_owns_empty (parent child : NodeId) : ¬ (({} : Arena).Owns parent child) := by
  rintro ⟨node, found, -⟩
  simp [Arena.node, Arena.node?] at found

theorem run_empty_keeps (steps : List Step) (hadmits : ({} : Arena).Admits steps) :
    (({} : Arena).run steps).Closed ∧ (({} : Arena).run steps).Acyclic := by
  refine run_keeps steps hadmits (fun parent child howns => ?_) fun id hcycle => ?_
  · exact absurd howns (not_owns_empty parent child)
  · obtain ⟨before, -, howns⟩ := Relation.TransGen.tail'_iff.1 hcycle
    exact not_owns_empty before id howns

/-- **An arena never comes to contain itself.**  After any steps from the empty arena it is closed
and has no cycle.  An edit of a block at a valid position is refused as malformed exactly if making
it would close a cycle, and is made otherwise. -/
theorem run_acyclic (steps : List Step) (hadmits : ({} : Arena).Admits steps) :
    let arena := ({} : Arena).run steps
    (arena.Closed ∧ arena.Acyclic) ∧
    ∀ (edit : Edit) (block node : NodeId) (body new : List NodeId),
      arena.blockBody? block = some body → arena.contains node = true →
      edit.newBody? body node = some new →
      ((∃ kind reason, edit.run arena block node = .error (.malformed kind reason)) ↔
        ¬ (arena.setBody block new).Acyclic) ∧
      (edit.run arena block node = .ok (arena.setBody block new) ↔
        (arena.setBody block new).Acyclic) := by
  intro arena
  obtain ⟨hclosed, hacyclic⟩ : arena.Closed ∧ arena.Acyclic := run_empty_keeps steps hadmits
  refine ⟨⟨hclosed, hacyclic⟩, fun edit block node body new hbody hnode hnew => ?_⟩
  rcases Edit.run_cases hclosed hacyclic hbody hnode hnew with ⟨hcyclic, hrun⟩ | ⟨hkept, hrun⟩
  · simp [hrun, hcyclic, wouldContainItself]
  · simp [hrun, hkept]

/-- Three blocks, the second in the third.  The first is put into the third and then gets the
second, so that an older block owns a newer one and the second is shared; putting the third into
the first is refused. -/
theorem run_acyclic_blocks :
    let steps : List Step := [.alloc (.stmt (.block [])), .alloc (.stmt (.block [])),
      .alloc (.stmt (.block [⟨1⟩])), .edit (.insert 1) ⟨2⟩ ⟨0⟩, .edit (.insert 0) ⟨0⟩ ⟨1⟩,
      .edit (.insert 0) ⟨0⟩ ⟨2⟩, .edit (.substitute 4) ⟨1⟩ ⟨0⟩]
    let arena := ({} : Arena).run steps
    ({} : Arena).Admits steps ∧ arena.Closed ∧ arena.Acyclic ∧
      ¬ (arena.setBody ⟨0⟩ [⟨2⟩]).Acyclic := by
  intro steps arena
  have hadmits : ({} : Arena).Admits steps := by decide
  have harena : arena =
      ⟨#[.stmt (.block [⟨1⟩]), .stmt (.block []), .stmt (.block [⟨1⟩, ⟨0⟩])]⟩ := by
    decide
  obtain ⟨⟨hclosed, hacyclic⟩, hedits⟩ := run_acyclic steps hadmits
  have hrun : Edit.run (.substitute 0) arena ⟨0⟩ ⟨2⟩ =
      .error (.malformed "block statement" "inserting #2 would make the block contain itself") := by
    rw [harena]
    rfl
  have hbody : arena.blockBody? ⟨0⟩ = some [⟨1⟩] := by rw [harena]; rfl
  have hnode : arena.contains ⟨2⟩ = true := by rw [harena]; rfl
  have hrefused := (hedits (.substitute 0) ⟨0⟩ ⟨2⟩ [⟨1⟩] [⟨2⟩] hbody hnode rfl).1.1 ⟨_, _, hrun⟩
  exact ⟨hadmits, hclosed, hacyclic, hrefused⟩

end Arena

end Interlingua
