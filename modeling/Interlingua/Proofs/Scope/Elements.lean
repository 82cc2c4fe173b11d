import Interlingua.Proofs.Scope.Local
import Interlingua.Proofs.Surface.Types

/-!
# The types of elements are joins

A list, an array or a set has one type for all its items, and a dictionary one for its keys and one
for its values.  It is found by widening the types of the items one after another, from the left.
In the end it depends on no more than which types there are.

* `Ty.Joins` — the type that some types have in common: the one there is, or the wider one of the
  two numeric types, or an unknown one.
* `Ty.joins_unifyAll` — widening from the left finds it; `Ty.Joins.unique` says that there is no
  other.
* `Infer.Finds`, `Infer.Typed` — the types of the items in a scope, and the type of a literal by
  that of its items.
* `Infer.elements_join` — the principal result.
-/

namespace Interlingua

/-! ## What types have in common -/

namespace Ty

variable {types : Set Ty} {item ty a b : Ty} {rest : List Ty}

/-- The type that some types have in common.  If there is only one it is that type; the two numeric
types widen; and otherwise, also if there is none, nothing is known. -/
inductive Joins (types : Set Ty) : Ty → Prop
  | same {ty : Ty} (h : types = {ty}) : Joins types ty
  | mixed (h : types = {.int, .float}) : Joins types .float
  | apart (hsame : ∀ ty, types ≠ {ty}) (hmixed : types ≠ {.int, .float}) : Joins types .unknown

theorem pair_ne_singleton : ({.int, .float} : Set Ty) ≠ {ty} := by
  intro heq
  have hint : Ty.int = ty := heq.subset (Set.mem_insert _ _)
  have hfloat : Ty.float = ty := heq.subset (Set.mem_insert_of_mem _ rfl)
  cases hint.trans hfloat.symm

/-- No types have two types in common. -/
theorem Joins.unique (h : Joins types a) (h' : Joins types b) : a = b := by
  cases h with
  | same h =>
    cases h' with
    | same h' => exact Set.singleton_injective (h.symm.trans h')
    | mixed h' => exact absurd (h'.symm.trans h) pair_ne_singleton
    | apart hsame => exact absurd h (hsame a)
  | mixed h =>
    cases h' with
    | same h' => exact absurd (h.symm.trans h') pair_ne_singleton
    | mixed => rfl
    | apart _ hmixed => exact absurd h hmixed
  | apart hsame hmixed =>
    cases h' with
    | same h' => exact absurd h' (hsame b)
    | mixed h' => exact absurd h' hmixed
    | apart => rfl

theorem unknown_unify : Ty.unknown.unify ty = .unknown := by
  unfold unify
  split <;> rfl

/-- Two types widen if they are the two numeric ones. -/
theorem unify_of_ne (h : a ≠ b) :
    ({a, b} : Set Ty) = {.int, .float} ∧ a.unify b = .float ∨
      ({a, b} : Set Ty) ≠ {.int, .float} ∧ a.unify b = .unknown := by
  rw [unify, if_neg h]
  by_cases hpair : ({a, b} : Set Ty) = {.int, .float}
  · refine .inl ⟨hpair, ?_⟩
    rcases Set.pair_eq_pair_iff.1 hpair with ⟨rfl, rfl⟩ | ⟨rfl, rfl⟩ <;> rfl
  · refine .inr ⟨hpair, ?_⟩
    cases hwider : a.wider? b with
    | none => rfl
    | some wider =>
      unfold wider? at hwider
      split at hwider
      · exact absurd rfl h
      · exact absurd rfl hpair
      · exact absurd (Set.pair_comm _ _) hpair
      · exact absurd rfl h
      · cases hwider

/-- **Two types have in common what they widen to.** -/
theorem joins_unify : Joins {a, b} (a.unify b) := by
  by_cases h : a = b
  · subst h
    have hself : a.unify a = a := if_pos rfl
    rw [hself]
    exact .same (Set.pair_eq_singleton a)
  · have hapart : ∀ ty, ({a, b} : Set Ty) ≠ {ty} := by
      intro ty heq
      have ha : a = ty := heq.subset (Set.mem_insert _ _)
      have hb : b = ty := heq.subset (Set.mem_insert_of_mem _ rfl)
      exact h (ha.trans hb.symm)
    rcases unify_of_ne h with ⟨hpair, hwide⟩ | ⟨hpair, hunknown⟩
    · exact hwide ▸ .mixed hpair
    · exact hunknown ▸ .apart hapart hpair

/-- **One more type.**  What types have in common is widened by it. -/
theorem Joins.more (h : Joins types item) (hsome : types.Nonempty) :
    Joins (insert ty types) (item.unify ty) := by
  have hless : types ⊆ insert ty types := Set.subset_insert ty types
  cases h with
  | same h =>
    rw [h, Set.pair_comm]
    exact joins_unify
  | mixed h =>
    subst h
    by_cases hnumeric : ty = .int ∨ ty = .float
    · have hwide : Ty.float.unify ty = .float := by rcases hnumeric with rfl | rfl <;> rfl
      have hsame : insert ty ({.int, .float} : Set Ty) = {.int, .float} :=
        Set.insert_eq_of_mem hnumeric
      rw [hwide]
      exact .mixed hsame
    · have hunknown : Ty.float.unify ty = .unknown := by
        rcases unify_of_ne fun heq : Ty.float = ty => hnumeric (.inr heq.symm) with
          ⟨hpair, -⟩ | ⟨-, hunknown⟩
        · exact absurd (hpair.subset (Set.mem_insert_of_mem _ rfl)) hnumeric
        · exact hunknown
      rw [hunknown]
      refine .apart (fun other heq => ?_) fun heq => hnumeric (heq.subset (Set.mem_insert _ _))
      have hone := Set.subset_singleton_iff_eq.1 (hless.trans heq.subset)
      exact hone.elim hsome.ne_empty pair_ne_singleton
  | apart hsame hmixed =>
    rw [unknown_unify]
    refine .apart (fun other heq => ?_) fun heq => ?_
    · have hone := Set.subset_singleton_iff_eq.1 (hless.trans heq.subset)
      exact hone.elim hsome.ne_empty (hsame other)
    · rcases Set.subset_pair_iff_eq.1 (hless.trans heq.subset) with hnone | hint | hfloat | hboth
      · exact hsome.ne_empty hnone
      · exact hsame _ hint
      · exact hsame _ hfloat
      · exact hmixed hboth

/-- More types, one after another. -/
theorem Joins.foldl (h : Joins types item) (hsome : types.Nonempty) :
    Joins (types ∪ {ty | ty ∈ rest}) (rest.foldl unify item) := by
  induction rest generalizing types item with
  | nil => simpa using h
  | cons next rest ih =>
    have hmore : types ∪ {ty | ty ∈ next :: rest} = insert next types ∪ {ty | ty ∈ rest} := by
      ext ty
      simp only [List.mem_cons, Set.mem_union, Set.mem_ofPred_eq, Set.mem_insert_iff]
      tauto
    rw [hmore]
    exact ih (h.more hsome) (Set.insert_nonempty next types)

/-- **Widening from the left finds what types have in common.** -/
theorem joins_unifyAll (all : List Ty) : Joins {ty | ty ∈ all} (unifyAll all) := by
  cases all with
  | nil =>
    have hnone : {ty | ty ∈ ([] : List Ty)} = (∅ : Set Ty) := by simp
    rw [hnone]
    exact .apart (fun ty => (Set.singleton_ne_empty ty).symm)
      (Set.insert_nonempty _ _).ne_empty.symm
  | cons first rest =>
    have hfirst : Joins {first} first := .same rfl
    have hall : {ty | ty ∈ first :: rest} = {first} ∪ {ty | ty ∈ rest} := by
      ext ty
      simp
    rw [hall]
    exact hfirst.foldl (Set.singleton_nonempty first)

end Ty

/-! ## Literals -/

/-- The type of a collection whose items have a type in common.  A tuple has the type of each. -/
def CollectionKind.holding? : CollectionKind → Ty → Option Ty
  | .list, item => some (.list item)
  | .array, item => some (.array item)
  | .set, item => some (.set item)
  | .tuple, _ => none

/-- The literal has one type for its items, or for its keys and its values. -/
def Expr.holdsElements : Expr → Bool
  | .collection kind _ => kind ≠ .tuple
  | .dict _ => true
  | _ => false

/-- Literals of one kind with the same parts, in any order and each any number of times. -/
inductive Expr.Rearranged : Expr → Expr → Prop
  | collection {kind : CollectionKind} {items items' : List NodeId}
      (h : ∀ c, c ∈ items ↔ c ∈ items') :
      Rearranged (.collection kind items) (.collection kind items')
  | dict {entries entries' : List (NodeId × NodeId)}
      (hkeys : ∀ c, c ∈ entries.map Prod.fst ↔ c ∈ entries'.map Prod.fst)
      (hvalues : ∀ c, c ∈ entries.map Prod.snd ↔ c ∈ entries'.map Prod.snd) :
      Rearranged (.dict entries) (.dict entries')

namespace Infer

variable {arena : Arena} {infer : NodeId → Infer Ty} {scope after : Scope} {id : NodeId}
  {items items' : List NodeId} {types : Set Ty} {found : List Ty} {e e' : Expr} {ty : Ty}
  {depth : Nat}

/-- Some expressions have these types in a scope, and no others, and the scope stays as it is. -/
structure Finds (arena : Arena) (scope : Scope) (items : List NodeId) (types : Set Ty) : Prop where
  each : ∀ c ∈ items, ∃ ty ∈ types, expr arena c scope = .ok ty scope
  all : ∀ ty ∈ types, ∃ c ∈ items, expr arena c scope = .ok ty scope

/-- The type of a literal, by what the types of its items, or of its keys and its values, have in
common. -/
inductive Typed (arena : Arena) (scope : Scope) : Expr → Ty → Prop
  | collection {kind : CollectionKind} {items : List NodeId} {types : Set Ty} {item ty : Ty}
      (finds : Finds arena scope items types) (joins : Ty.Joins types item)
      (holding : kind.holding? item = some ty) : Typed arena scope (.collection kind items) ty
  | dict {entries : List (NodeId × NodeId)} {keys values : Set Ty} {key value : Ty}
      (findsKeys : Finds arena scope (entries.map Prod.fst) keys) (joinsKeys : Ty.Joins keys key)
      (findsValues : Finds arena scope (entries.map Prod.snd) values)
      (joinsValues : Ty.Joins values value) : Typed arena scope (.dict entries) (.dict key value)

theorem Finds.congr (h : Finds arena scope items types) (hsame : ∀ c, c ∈ items ↔ c ∈ items') :
    Finds arena scope items' types where
  each c hc := h.each c ((hsame c).2 hc)
  all ty hty := by
    obtain ⟨c, hc, hrun⟩ := h.all ty hty
    exact ⟨c, (hsame c).1 hc, hrun⟩

/-- The type of a literal depends on what its parts are, not on their order or their number. -/
theorem Typed.rearrange (h : Typed arena scope e ty) (hsame : e.Rearranged e') :
    Typed arena scope e' ty := by
  cases hsame with
  | collection hitems =>
    cases h with
    | collection finds joins holding => exact .collection (finds.congr hitems) joins holding
  | dict hkeys hvalues =>
    cases h with
    | dict findsKeys joinsKeys findsValues joinsValues =>
      exact .dict (findsKeys.congr hkeys) joinsKeys (findsValues.congr hvalues) joinsValues

/-! ## One run for each part -/

theorem mapM_of_each (h : ∀ c ∈ items, ∃ ty, infer c scope = .ok ty scope) :
    ∃ found after, items.mapM infer scope = .ok found after := by
  induction items with
  | nil => exact ⟨[], scope, rfl⟩
  | cons c items ih =>
    obtain ⟨⟨ty, hrun⟩, hrest⟩ := List.forall_mem_cons.1 h
    obtain ⟨found, after, hfound⟩ := ih hrest
    exact ⟨ty :: found, after, by
      simp [List.mapM_cons, bind, EStateM.bind, hrun, hfound, pure, EStateM.pure]⟩

/-- What is left of the depth is of no matter. -/
theorem exprTo_of_groundedTo {depth' : Nat} (h : arena.GroundedTo depth id)
    (h' : arena.GroundedTo depth' id) (hrun : exprTo arena depth id scope = .ok ty after) :
    exprTo arena depth' id scope = .ok ty after := by
  have hreads : ∀ e, Respected arena Eq e := fun e =>
    { varType := fun name _ s t hst => congrArg (·.varType? name) hst
      returnType := fun _ _ name _ _ s t hst => congrArg (·.returnType name) hst
      register := fun name _ s t ty hst => congrArg (·.register name ty) hst }
  obtain ⟨_, hrun', rfl⟩ :=
    exists_ok_of_concur (concur_exprTo (fun _ e _ _ => hreads e) h h') (rfl : scope = scope) hrun
  exact hrun'

/-- **Inference leaves a scope as it is** if nothing is assigned. -/
theorem eq_of_exprTo (hassigned : arena.assigned id = ∅)
    (hrun : exprTo arena depth id scope = .ok ty after) : after = scope := by
  refine keeps_exprTo (· = scope) (fun name hname => ?_) hrun rfl
  have hnone := Arena.registered_subset_assigned hname
  rw [hassigned] at hnone
  exact hnone.elim

theorem finds_of_forall₂
    (h : List.Forall₂ (fun c ty => expr arena c scope = .ok ty scope) items found) :
    Finds arena scope items {ty | ty ∈ found} := by
  induction h with
  | nil => exact ⟨by simp, by simp⟩
  | @cons c ty items found hrun _ ih =>
    constructor
    · refine List.forall_mem_cons.2 ⟨⟨ty, List.mem_cons_self, hrun⟩, fun c hc => ?_⟩
      obtain ⟨ty, hty, hrun⟩ := ih.each c hc
      exact ⟨ty, List.mem_cons_of_mem _ hty, hrun⟩
    · refine List.forall_mem_cons.2 ⟨⟨c, List.mem_cons_self, hrun⟩, fun ty hty => ?_⟩
      obtain ⟨c, hc, hrun⟩ := ih.all ty hty
      exact ⟨c, List.mem_cons_of_mem _ hc, hrun⟩

/-- The types of some expressions are determined. -/
theorem Finds.subset {types' : Set Ty} (h : Finds arena scope items types)
    (h' : Finds arena scope items types') : types ⊆ types' := by
  intro ty hty
  obtain ⟨c, hc, hrun⟩ := h.all ty hty
  obtain ⟨ty', hty', hrun'⟩ := h'.each c hc
  cases hrun.symm.trans hrun'
  exact hty'

/-- Runs over parts one after another, none of which changes the scope. -/
theorem finds_of_mapM (hgrounded : ∀ c ∈ items, arena.GroundedTo depth c)
    (hstill : ∀ c ∈ items, ∀ ty after, exprTo arena depth c scope = .ok ty after → after = scope)
    (hrun : items.mapM (exprTo arena depth) scope = .ok found after) :
    after = scope ∧ Finds arena scope items {ty | ty ∈ found} := by
  have hyields : Yields (· = scope) (items.mapM (exprTo arena depth))
      (List.Forall₂ (fun c ty => expr arena c scope = .ok ty scope) items) := by
    refine Yields.mapM_rel fun c hc s ty after hs hone => ?_
    subst hs
    obtain rfl := hstill c hc ty after hone
    have hdepth := hgrounded c hc
    exact ⟨rfl, exprTo_of_groundedTo hdepth hdepth.grounded.to_depthBound hone⟩
  obtain ⟨hafter, hfound⟩ := hyields scope found after rfl hrun
  exact ⟨hafter, finds_of_forall₂ hfound⟩

/-- Parts that have some types are run over without a fault, and these types are found. -/
theorem Finds.mapM (h : Finds arena scope items types)
    (hgrounded : ∀ c ∈ items, arena.GroundedTo depth c) :
    ∃ found, items.mapM (exprTo arena depth) scope = .ok found scope ∧
      {ty | ty ∈ found} = types := by
  have heach : ∀ c ∈ items, ∃ ty, exprTo arena depth c scope = .ok ty scope := by
    intro c hc
    obtain ⟨ty, -, hrun⟩ := h.each c hc
    have hdepth := hgrounded c hc
    exact ⟨ty, exprTo_of_groundedTo hdepth.grounded.to_depthBound hdepth hrun⟩
  have hstill : ∀ c ∈ items, ∀ ty after, exprTo arena depth c scope = .ok ty after →
      after = scope := by
    intro c hc ty after hrun
    obtain ⟨ty', hrun'⟩ := heach c hc
    cases hrun.symm.trans hrun'
    rfl
  obtain ⟨found, after, hrun⟩ := mapM_of_each heach
  obtain ⟨rfl, hfinds⟩ := finds_of_mapM hgrounded hstill hrun
  exact ⟨found, hrun, (hfinds.subset h).antisymm (h.subset hfinds)⟩

/-! ## One layer -/

theorem exprWith_dict {entries : List (NodeId × NodeId)} :
    exprWith arena infer (.dict entries) = do
      let keys ← (entries.map Prod.fst).mapM infer
      let values ← (entries.map Prod.snd).mapM infer
      return .dict (.unifyAll keys) (.unifyAll values) := by
  simp only [exprWith, List.mapM_map]
  rfl

/-- A collection other than a tuple runs over its items once. -/
theorem exprWith_collection_iff {kind : CollectionKind} (hkind : kind ≠ .tuple) :
    exprWith arena infer (.collection kind items) scope = .ok ty after ↔
      ∃ found, items.mapM infer scope = .ok found after ∧
        kind.holding? (.unifyAll found) = some ty := by
  cases hrun : items.mapM infer scope with
  | error fault last => cases kind <;> simp [exprWith, bind, EStateM.bind, hrun]
  | ok found last =>
    cases kind with
    | tuple => exact absurd rfl hkind
    | list | array | set =>
      simp [exprWith, bind, EStateM.bind, hrun, pure, EStateM.pure, CollectionKind.holding?,
        and_comm, eq_comm]

theorem Typed.exprWith (h : Typed arena scope e ty)
    (hgrounded : ∀ c ∈ e.visits, arena.GroundedTo depth c) :
    exprWith arena (exprTo arena depth) e scope = .ok ty scope := by
  cases h with
  | @collection kind items types item _ finds joins holding =>
    have hitems : ∀ c ∈ items, arena.GroundedTo depth c := by
      intro c hc
      refine hgrounded c ?_
      cases kind <;> simp [Expr.visits, hc]
    obtain ⟨found, hrun, rfl⟩ := finds.mapM hitems
    cases joins.unique (Ty.joins_unifyAll found)
    have hkind : kind ≠ .tuple := by
      rintro rfl
      cases holding
    exact (exprWith_collection_iff hkind).2 ⟨found, hrun, holding⟩
  | @dict entries keys values key value findsKeys joinsKeys findsValues joinsValues =>
    obtain ⟨foundKeys, hrun, rfl⟩ := findsKeys.mapM fun c hc =>
      hgrounded c (List.mem_append_left _ hc)
    obtain ⟨foundValues, hrun', rfl⟩ := findsValues.mapM fun c hc =>
      hgrounded c (List.mem_append_right _ hc)
    cases joinsKeys.unique (Ty.joins_unifyAll foundKeys)
    cases joinsValues.unique (Ty.joins_unifyAll foundValues)
    rw [exprWith_dict]
    simp [bind, EStateM.bind, hrun, hrun', pure, EStateM.pure]

theorem typed_of_exprWith (hliteral : e.holdsElements = true)
    (hgrounded : ∀ c ∈ e.visits, arena.GroundedTo depth c)
    (hstill : ∀ c ∈ e.visits, ∀ scope ty after, exprTo arena depth c scope = .ok ty after →
      after = scope)
    (hrun : exprWith arena (exprTo arena depth) e scope = .ok ty after) :
    after = scope ∧ Typed arena scope e ty := by
  cases e with
  | collection kind items =>
    have hkind : kind ≠ .tuple := by simpa [Expr.holdsElements] using hliteral
    have hvisits : (Expr.collection kind items).visits = items := by
      cases kind <;> first | rfl | exact absurd rfl hkind
    rw [hvisits] at hgrounded hstill
    obtain ⟨found, hitems, holding⟩ := (exprWith_collection_iff hkind).1 hrun
    obtain ⟨rfl, hfinds⟩ := finds_of_mapM hgrounded (fun c hc => hstill c hc scope) hitems
    exact ⟨rfl, .collection hfinds (Ty.joins_unifyAll found) holding⟩
  | dict entries =>
    rw [exprWith_dict] at hrun
    obtain ⟨keys, between, hkeys, hrest⟩ := exists_of_bind hrun
    obtain ⟨values, last, hvalues, hlast⟩ := exists_of_bind hrest
    obtain ⟨rfl, hfindsKeys⟩ := finds_of_mapM (fun c hc => hgrounded c (List.mem_append_left _ hc))
      (fun c hc => hstill c (List.mem_append_left _ hc) scope) hkeys
    obtain ⟨rfl, hfindsValues⟩ := finds_of_mapM
      (fun c hc => hgrounded c (List.mem_append_right _ hc))
      (fun c hc => hstill c (List.mem_append_right _ hc) between) hvalues
    cases hlast
    exact ⟨rfl, .dict hfindsKeys (Ty.joins_unifyAll keys) hfindsValues (Ty.joins_unifyAll values)⟩
  | _ => cases hliteral

/-- **The element types of a literal are joins.**  Where nothing is assigned in a literal, inference
leaves the scope as it is and finds what the types of the elements have in common; a literal with
the same elements in another order, or with some of them repeated, has the same type. -/
theorem elements_join (scope : Scope) (h : arena.ClosedExpr id) (hassigned : arena.assigned id = ∅)
    (he : arena.expr id = .ok e) (hliteral : e.holdsElements = true) :
    (∃ ty, expr arena id scope = .ok ty scope ∧ Typed arena scope e ty ∧
      ∀ id' e', arena.ClosedExpr id' → arena.expr id' = .ok e' → e.Rearranged e' →
        expr arena id' scope = .ok ty scope) ∨
    ∃ fault after, expr arena id scope = .error fault after ∧ arena.Misplaced fault := by
  have hlayer : ∀ {id : NodeId} {e : Expr}, arena.expr id = .ok e →
      expr arena id scope = exprWith arena (exprTo arena arena.size) e scope := by
    intro id e he
    rw [expr, Arena.depthBound, exprTo, he]
    rfl
  have hbelow : ∀ {id : NodeId} {e : Expr}, arena.ClosedExpr id → arena.expr id = .ok e →
      ∀ c ∈ e.visits, arena.GroundedTo arena.size c := by
    intro id e h he c hc
    obtain ⟨child, hchild, rfl, -⟩ := Arena.exists_child_of_mem_visits hc
    exact h.grounded.to_depthBound.belowExpr he child hchild
  have hstill : ∀ c ∈ e.visits, ∀ scope ty after, exprTo arena arena.size c scope = .ok ty after →
      after = scope := by
    intro c hc scope ty after hrun
    have hvisits : arena.Visits id c := ⟨e, he, hc⟩
    refine eq_of_exprTo ?_ hrun
    exact Set.subset_eq_empty (Arena.assigned_subset (.single hvisits.owns)) hassigned
  rcases spares_exprTo (placed_of_closedExpr h) scope with ⟨ty, after, hrun, -⟩ | hstops
  · refine .inl ⟨ty, ?_⟩
    have hwith := (hlayer he).symm.trans hrun
    obtain ⟨rfl, htyped⟩ := typed_of_exprWith hliteral (hbelow h he) hstill hwith
    refine ⟨hrun, htyped, fun id' e' h' he' hsame => ?_⟩
    rw [hlayer he']
    exact (htyped.rearrange hsame).exprWith (hbelow h' he')
  · exact .inr hstops

/-- Two numbers and a variable that is one: the items widen, in whatever order they come. -/
theorem elements_join_widening :
    let exprs : List Expr := [.int 1, .float 0x4004000000000000, .ident "x",
      .collection .array [⟨0⟩, ⟨1⟩, ⟨2⟩], .collection .array [⟨2⟩, ⟨1⟩, ⟨2⟩, ⟨0⟩]]
    let arena : Arena := ⟨(exprs.map Node.expr).toArray⟩
    let scope : Scope := Scope.setVariable {} "x" .int
    arena.ClosedExpr ⟨3⟩ ∧ arena.assigned ⟨3⟩ = ∅ ∧
      Typed arena scope (.collection .array [⟨0⟩, ⟨1⟩, ⟨2⟩]) (.array .float) ∧
      expr arena ⟨4⟩ scope = .ok (.array .float) scope := by
  intro exprs arena scope
  have hclosed : arena.ClosedExpr ⟨3⟩ := ⟨(show arena.GroundedTo 2 ⟨3⟩ by decide).grounded, rfl⟩
  have hclosed' : arena.ClosedExpr ⟨4⟩ := ⟨(show arena.GroundedTo 2 ⟨4⟩ by decide).grounded, rfl⟩
  have hassigned : arena.assigned ⟨3⟩ = ∅ := by
    refine Set.eq_empty_of_forall_notMem ?_
    rintro name ⟨n, op, target, value, -, hfound, -⟩
    obtain ⟨e, he, heq⟩ : ∃ e ∈ exprs, Node.expr e = .expr (.assign op target value) :=
      List.mem_map.1 (Arena.mem_of_node (Arena.node_of_expr hfound))
    cases heq
    simp [exprs] at he
  have hsame : ∀ c : NodeId,
      c ∈ [⟨0⟩, ⟨1⟩, (⟨2⟩ : NodeId)] ↔ c ∈ [⟨2⟩, ⟨1⟩, ⟨2⟩, (⟨0⟩ : NodeId)] := by
    intro c
    simp only [List.mem_cons, List.not_mem_nil, or_false]
    tauto
  refine ⟨hclosed, hassigned, ?_⟩
  rcases elements_join scope hclosed hassigned rfl rfl with ⟨ty, hrun, htyped, hall⟩ |
    ⟨fault, after, hrun, -⟩
  · cases hrun
    exact ⟨htyped, hall ⟨4⟩ _ hclosed' rfl (.collection hsame)⟩
  · cases hrun

end Infer

end Interlingua
