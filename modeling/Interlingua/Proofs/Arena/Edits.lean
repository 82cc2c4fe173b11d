import Interlingua.Proofs.Arena.History

/-!
# What an edit does, and undoes

An edit of a block is refused by the first of three checks that fails, and a refused edit changes
nothing.  An edit that is made changes the body of the block, and nothing else.

* `Edit.Fits`, `Edit.splice` — the positions that an edit may be made at, and the body it leaves.
* `Edit.Outcome` — the four ways in which an edit can end, each with its condition;
  `Edit.run_outcome` says that it ends in one of them.
* `substitute_substitute` — putting back the statement that was taken out is never refused: a
  statement of the block does not lie above it, whatever the edit put in its place.
* `Arena.edits_exact` — all of this of any arena that is closed and has no cycle.
-/

namespace Interlingua

namespace Arena

variable {arena after : Arena} {block node old : NodeId} {body new : List NodeId}

theorem blockBody?_eq_some_iff :
    arena.blockBody? block = some body ↔ arena.node block = .ok (.stmt (.block body)) := by
  refine ⟨node_of_blockBody?, fun found => ?_⟩
  unfold Arena.node at found
  split at found
  · rename_i x hx
    cases found
    simp only [blockBody?, hx]
  · cases found

theorem blockBody?_eq_none_iff :
    arena.blockBody? block = none ↔ ∀ body, arena.node block ≠ .ok (.stmt (.block body)) := by
  simp only [Option.eq_none_iff_forall_ne_some, ne_eq, blockBody?_eq_some_iff]

/-! ## Positions -/

namespace Edit

/-- Where an edit is made. -/
def index : Edit → Nat
  | .insert index | .substitute index => index

/-- The positions that an edit may be made at: a statement may be put behind the last one, but
takes the place of one that is there. -/
def Fits (edit : Edit) (body : List NodeId) : Prop :=
  match edit with
  | .insert index => index ≤ body.length
  | .substitute index => index < body.length

/-- The body that an edit leaves. -/
def splice (edit : Edit) (body : List NodeId) (node : NodeId) : List NodeId :=
  match edit with
  | .insert index => body.take index ++ node :: body.drop index
  | .substitute index => body.take index ++ node :: body.drop (index + 1)

theorem insertIdx_eq (node : NodeId) : ∀ {body : List NodeId} {index : Nat}, index ≤ body.length →
    body.insertIdx index node = body.take index ++ node :: body.drop index
  | _, 0, _ => rfl
  | first :: rest, index + 1, h => by
    rw [List.insertIdx_succ_cons, insertIdx_eq node (Nat.le_of_succ_le_succ h)]
    rfl

theorem newBody?_of_fits {edit : Edit} (h : edit.Fits body) :
    edit.newBody? body node = some (edit.splice body node) := by
  cases edit with
  | insert index =>
    have hle : index ≤ body.length := h
    rw [newBody?, if_pos hle, insertIdx_eq node hle]
    rfl
  | substitute index =>
    have hlt : index < body.length := h
    rw [newBody?, if_pos hlt, List.set_eq_take_append_cons_drop, if_pos hlt]
    rfl

theorem newBody?_of_not_fits {edit : Edit} (h : ¬ edit.Fits body) :
    edit.newBody? body node = none := by
  cases edit <;> exact if_neg h

theorem outOfRange_eq (edit : Edit) (body : List NodeId) :
    edit.outOfRange body = .indexOutOfRange edit.index body.length := by
  cases edit <;> rfl

/-! ## Outcomes -/

/-- How an edit ends: what is looked for first comes first. -/
inductive Outcome (edit : Edit) (arena : Arena) (block node : NodeId) :
    Except TreeError Arena → Prop
  | notABlock (hblock : ∀ body, arena.node block ≠ .ok (.stmt (.block body))) :
      Outcome edit arena block node (.error (.notABlock block))
  | malformed {body : List NodeId} (hblock : arena.node block = .ok (.stmt (.block body)))
      (habove : arena.Above node block) :
      Outcome edit arena block node (.error (wouldContainItself node))
  | outOfRange {body : List NodeId} (hblock : arena.node block = .ok (.stmt (.block body)))
      (hnot : ¬ arena.Above node block) (hfits : ¬ edit.Fits body) :
      Outcome edit arena block node (.error (.indexOutOfRange edit.index body.length))
  | made {body : List NodeId} (hblock : arena.node block = .ok (.stmt (.block body)))
      (hnot : ¬ arena.Above node block) (hfits : edit.Fits body) :
      Outcome edit arena block node (.ok (arena.setBody block (edit.splice body node)))

/-- **An edit ends in the way that its conditions say.** -/
theorem run_outcome (edit : Edit) (hclosed : arena.Closed) (hacyclic : arena.Acyclic)
    (hnode : arena.contains node = true) :
    edit.Outcome arena block node (edit.run arena block node) := by
  rw [run_eq]
  cases hbody : arena.blockBody? block with
  | none =>
    have hopen : arena.openBlock block node = .error (.notABlock block) := by
      simp only [openBlock, hbody]
    rw [hopen]
    exact .notABlock (blockBody?_eq_none_iff.1 hbody)
  | some body =>
    have hblock := blockBody?_eq_some_iff.1 hbody
    rcases openBlock_eq hclosed hacyclic hbody hnode with ⟨habove, hopen⟩ | ⟨hnot, hopen⟩
    · rw [hopen]
      exact .malformed hblock habove
    · rw [hopen]
      simp only [bind, Except.bind]
      by_cases hfits : edit.Fits body
      · rw [newBody?_of_fits hfits]
        exact .made hblock hnot hfits
      · rw [newBody?_of_not_fits hfits, outOfRange_eq]
        exact .outOfRange hblock hnot hfits

end Edit

/-! ## Undoing -/

theorem node_setBody_of_ne (hblock : arena.node block = .ok (.stmt (.block body))) {id : NodeId}
    (hne : id ≠ block) : (arena.setBody block new).node id = arena.node id := by
  rw [node_setBody (blockBody?_eq_some_iff.2 hblock), if_neg hne]

theorem node_setBody_self (hblock : arena.node block = .ok (.stmt (.block body))) :
    (arena.setBody block new).node block = .ok (.stmt (.block new)) := by
  rw [node_setBody (blockBody?_eq_some_iff.2 hblock), if_pos rfl]

theorem size_setBody : (arena.setBody block new).size = arena.size := by
  simp [size, setBody]

/-- A block that gets its old body back leaves the arena as it was. -/
theorem setBody_setBody (hblock : arena.node block = .ok (.stmt (.block body))) :
    (arena.setBody block new).setBody block body = arena := by
  obtain ⟨nodes⟩ := arena
  have hlt : block.index < nodes.size := index_lt_of_node hblock
  have hget : nodes[block.index] = .stmt (.block body) := by
    simpa [Arena.node, Arena.node?, hlt] using hblock
  simp [setBody, Array.setIfInBounds, hlt, ← hget]

/-- What a substitution takes and gives. -/
theorem substitute_eq_ok_iff {index : Nat} : arena.substitute block index node = .ok (old, after) ↔
    ∃ body, arena.openBlock block node = .ok body ∧ body[index]? = some old ∧
      after = arena.setBody block (body.set index node) := by
  unfold substitute
  cases arena.openBlock block node with
  | error error => simp [bind, Except.bind]
  | ok body =>
    simp only [bind, Except.bind]
    cases hget : body[index]? with
    | none => simp [hget]
    | some first => simp [hget, eq_comm]

/-- A block is opened for what does not contain it. -/
theorem openBlock_eq_ok_iff (hclosed : arena.Closed) (hacyclic : arena.Acyclic)
    (hnode : arena.contains node = true) : arena.openBlock block node = .ok body ↔
      arena.node block = .ok (.stmt (.block body)) ∧ ¬ arena.Above node block := by
  cases hbody : arena.blockBody? block with
  | none => simp [openBlock, hbody, blockBody?_eq_none_iff.1 hbody]
  | some found =>
    have hblock := blockBody?_eq_some_iff.1 hbody
    rcases openBlock_eq hclosed hacyclic hbody hnode with ⟨habove, hopen⟩ | ⟨hnot, hopen⟩
    · simp [hopen, habove]
    · simp [hopen, hnot, hblock]

/-- **Putting back what was taken out is never refused**, and it restores the arena. -/
theorem substitute_substitute {index : Nat} (hclosed : arena.Closed) (hacyclic : arena.Acyclic)
    (hnode : arena.contains node = true)
    (h : arena.substitute block index node = .ok (old, after)) :
    after.substitute block index old = .ok (node, arena) := by
  obtain ⟨body, hopen, hold, rfl⟩ := substitute_eq_ok_iff.1 h
  obtain ⟨hblock, hnot⟩ := (openBlock_eq_ok_iff hclosed hacyclic hnode).1 hopen
  have hbody := blockBody?_eq_some_iff.2 hblock
  obtain ⟨hlt, hget⟩ := List.getElem?_eq_some_iff.1 hold
  have hmem : ∀ id ∈ body.set index node, id = node ∨ id ∈ body := fun id hid =>
    (List.mem_or_eq_of_mem_set hid).symm
  have howns : arena.Owns block old := (owns_block_iff hbody old).2 (List.mem_of_getElem? hold)
  let edited := arena.setBody block (body.set index node)
  have hedited : edited.node block = .ok (.stmt (.block (body.set index node))) :=
    node_setBody_self hblock
  have hback : edited.setBody block body = arena := setBody_setBody hblock
  -- a path from the old statement to the block would have been there before the edit
  have hfree : ¬ edited.Above old block := fun habove => by
    have hpath : (edited.setBody block body).Above old block :=
      Above.setBody (blockBody?_eq_some_iff.2 hedited) habove
    rw [hback] at hpath
    exact hacyclic block (.head' howns hpath)
  have hclosed' : edited.Closed := hclosed.setBody hbody hnode hmem
  have hacyclic' : edited.Acyclic :=
    (acyclic_setBody_iff hacyclic hbody (List.mem_set hlt node) hmem).2 hnot
  have hcontains : edited.contains old = true := by
    rw [contains_setBody]
    exact hclosed block old howns
  refine substitute_eq_ok_iff.2 ⟨body.set index node, ?_, ?_, ?_⟩
  · exact (openBlock_eq_ok_iff hclosed' hacyclic' hcontains).2 ⟨hedited, hfree⟩
  · simp [hlt]
  · rw [List.set_set, ← hget, List.set_getElem_self]
    exact hback.symm

/-! ## All of it -/

/-- **Edits of a block are exact and atomic.**  In an arena that is closed and has no cycle, an edit
with a node of the arena

* is made exactly if it is aimed at a block, the node does not lie above the block, and the
  position is one that the edit may be made at; otherwise it is refused for the first of these
  that does not hold;
* leaves the arena as it was if it is refused;
* puts the node before or in the place of what stands at the position if it is made, and leaves
  every other node as it was.

What a substitution takes out is what stood at the position; put back there, it is not refused, and
the arena is what it was before. -/
theorem edits_exact (hclosed : arena.Closed) (hacyclic : arena.Acyclic)
    (hnode : arena.contains node = true) (block : NodeId) :
    (∀ edit : Edit,
      ((∃ after, edit.run arena block node = .ok after) ↔
        ∃ body, arena.node block = .ok (.stmt (.block body)) ∧ ¬ arena.Above node block ∧
          edit.Fits body) ∧
      (edit.run arena block node = .error (.notABlock block) ↔
        ∀ body, arena.node block ≠ .ok (.stmt (.block body))) ∧
      (edit.run arena block node = .error (wouldContainItself node) ↔
        ∃ body, arena.node block = .ok (.stmt (.block body)) ∧ arena.Above node block) ∧
      (∀ length, edit.run arena block node = .error (.indexOutOfRange edit.index length) ↔
        ∃ body, arena.node block = .ok (.stmt (.block body)) ∧ ¬ arena.Above node block ∧
          ¬ edit.Fits body ∧ body.length = length) ∧
      (∀ error, edit.run arena block node = .error error →
        (Step.edit edit block node).apply arena = arena) ∧
      ∀ after, edit.run arena block node = .ok after →
        (Step.edit edit block node).apply arena = after ∧ after.size = arena.size ∧
        (∀ id, id ≠ block → after.node id = arena.node id) ∧
        ∃ body, arena.node block = .ok (.stmt (.block body)) ∧
          after.node block = .ok (.stmt (.block (edit.splice body node)))) ∧
    ∀ (index : Nat) (old : NodeId) (after : Arena),
      arena.substitute block index node = .ok (old, after) →
        (∃ body, arena.node block = .ok (.stmt (.block body)) ∧ body[index]? = some old) ∧
        after.substitute block index old = .ok (node, arena) := by
  refine ⟨fun edit => ?_, fun index old after h => ⟨?_, ?_⟩⟩
  · have houtcome : edit.Outcome arena block node (edit.run arena block node) :=
      edit.run_outcome hclosed hacyclic hnode
    generalize hrun : edit.run arena block node = result at houtcome ⊢
    cases houtcome with
    | notABlock hblock => simp [hblock, wouldContainItself, Step.apply, hrun]
    | malformed hblock habove => simp [hblock, habove, wouldContainItself, Step.apply, hrun]
    | outOfRange hblock hnot hfits =>
      simp [hblock, hnot, hfits, wouldContainItself, Step.apply, hrun]
    | made hblock hnot hfits =>
      refine ⟨?_, ?_, ?_, ?_, ?_, ?_⟩
      · simp [hblock, hnot, hfits]
      · simp [hblock]
      · simp [hnot]
      · simp [hblock, hfits]
      · simp
      · rintro _ ⟨⟩
        refine ⟨by simp only [Step.apply, hrun], size_setBody,
          fun id hne => node_setBody_of_ne hblock hne, _, hblock, ?_⟩
        exact node_setBody_self hblock
  · obtain ⟨body, hopen, hold, -⟩ := substitute_eq_ok_iff.1 h
    exact ⟨body, ((openBlock_eq_ok_iff hclosed hacyclic hnode).1 hopen).1, hold⟩
  · exact substitute_substitute hclosed hacyclic hnode h

/-- Blocks that share a statement.  The last one takes its place in the third and gives it back,
though it holds that statement itself; it is refused by the shared one for containing it, not for
the position. -/
theorem edits_exact_shared :
    let steps : List Step := [.alloc (.stmt (.block [])), .alloc (.stmt (.block [⟨0⟩])),
      .alloc (.stmt (.block [⟨0⟩, ⟨1⟩])), .alloc (.stmt (.block [⟨1⟩, ⟨0⟩]))]
    let arena := ({} : Arena).run steps
    arena.Closed ∧ arena.Acyclic ∧ arena.contains ⟨3⟩ = true ∧
      (∃ after, arena.substitute ⟨2⟩ 0 ⟨3⟩ = .ok (⟨0⟩, after) ∧
        after.node ⟨2⟩ = .ok (.stmt (.block [⟨3⟩, ⟨1⟩])) ∧
        after.substitute ⟨2⟩ 0 ⟨0⟩ = .ok (⟨3⟩, arena)) ∧
      (Edit.insert 9).run arena ⟨0⟩ ⟨3⟩ = .error (wouldContainItself ⟨3⟩) := by
  intro steps arena
  obtain ⟨hclosed, hacyclic⟩ : arena.Closed ∧ arena.Acyclic :=
    run_empty_keeps steps (by decide)
  have harena : arena = ⟨#[.stmt (.block []), .stmt (.block [⟨0⟩]), .stmt (.block [⟨0⟩, ⟨1⟩]),
      .stmt (.block [⟨1⟩, ⟨0⟩])]⟩ := rfl
  have hnode : arena.contains ⟨3⟩ = true := by rw [harena]; rfl
  refine ⟨hclosed, hacyclic, hnode, ?_, ?_⟩
  · let after : Arena := arena.setBody ⟨2⟩ [⟨3⟩, ⟨1⟩]
    have hmade : arena.substitute ⟨2⟩ 0 ⟨3⟩ = .ok (⟨0⟩, after) := by
      simp only [after, harena]
      rfl
    have hafter : after.node ⟨2⟩ = .ok (.stmt (.block [⟨3⟩, ⟨1⟩])) := by
      simp only [after, harena]
      rfl
    exact ⟨after, hmade, hafter, ((edits_exact hclosed hacyclic hnode ⟨2⟩).2 0 ⟨0⟩ after hmade).2⟩
  · refine (((edits_exact hclosed hacyclic hnode ⟨0⟩).1 (.insert 9)).2.2.1).2 ⟨[], ?_, ?_⟩
    · rw [harena]
      rfl
    · have found : arena.node ⟨3⟩ = .ok (.stmt (.block [⟨1⟩, ⟨0⟩])) := by
        rw [harena]
        rfl
      have hchild : (⟨⟨0⟩, "body"⟩ : Child) ∈ (Stmt.block [⟨1⟩, ⟨0⟩]).children := by decide
      exact .single (owns_of_mem found hchild)

end Arena

end Interlingua
