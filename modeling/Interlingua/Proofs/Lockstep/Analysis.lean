import Interlingua.Proofs.Lockstep.Tie

/-!
# Analyses in lockstep

What is read off a tree before it is printed comes out the same for tied identities: whether two
subtrees are structurally equal, whether a loop counts and over what range, which names a subtree
reads and assigns, and how the parts of a program are told apart.
-/

namespace Interlingua

namespace Tie

variable {left right : View} {tie : Tie left right} {m n : Nat} {demand : Option Category}
  {a b : NodeId}

/-! ## Structural equality -/

theorem sameAll {same same' : NodeId → NodeId → Except Fault Bool}
    (hsame : ∀ {d d' a b a' b'}, tie.pair m n d a b → tie.pair m n d' a' b' →
      Concur tie.fault Eq (same a a') (same' b b')) {as as' bs bs' : List Child}
    (h : List.Forall₂ (Child.Tied (tie.pair m n)) as bs)
    (h' : List.Forall₂ (Child.Tied (tie.pair m n)) as' bs') :
    Concur tie.fault Eq (Arena.sameAll same as as') (Arena.sameAll same' bs bs') := by
  induction h generalizing as' bs' with
  | nil => cases h' <;> exact .ok rfl
  | cons hab _ ih =>
    cases h' with
    | nil => exact .ok rfl
    | cons hab' hrest =>
      obtain ⟨hfield, _, hid⟩ := hab
      obtain ⟨hfield', _, hid'⟩ := hab'
      unfold Arena.sameAll
      rw [hfield, hfield']
      split
      · have hfirst := hsame hid hid'
        generalize same _ _ = x at hfirst
        generalize same' _ _ = y at hfirst
        cases hfirst with
        | error hfault => exact .error hfault
        | ok heq =>
          subst heq
          split
          · exact ih hrest
          · exact .ok rfl
      · exact .ok rfl

theorem sameTo {demand' : Option Category} {a' b' : NodeId} (h : tie.pair m n demand a b)
    (h' : tie.pair m n demand' a' b') :
    Concur tie.fault Eq (Arena.sameTo left.arena left.arena m a a')
      (Arena.sameTo right.arena right.arena n b b') := by
  induction h using tie.recursion generalizing demand' a' b' with
  | zero _ _ _ _ hfault => exact .error hfault
  | succ m n ih _ _ _ _ hnode =>
    obtain ⟨hm, -⟩ | ⟨_, _, hm, hn, hnode'⟩ := tie.descend h'
    · cases hm
    cases hm
    cases hn
    unfold Arena.sameTo
    refine hnode.bind fun x y hxy => hnode'.bind fun x' y' hxy' => ?_
    rw [hxy.skeleton_eq fun _ _ => tie.soft_isSome, hxy'.skeleton_eq fun _ _ => tie.soft_isSome,
      hxy.children.length_eq, hxy'.children.length_eq]
    split
    · split
      · exact sameAll (fun hid hid' => ih hid hid') hxy.children hxy'.children
      · exact .ok rfl
    · exact .ok rfl

theorem same {k l : Nat} {demand' : Option Category} {a' b' : NodeId}
    (h : tie.pair m n demand a b) (h' : tie.pair k l demand' a' b') :
    Concur tie.fault Eq (left.arena.same a left.arena a') (right.arena.same b right.arena b') :=
  sameTo (tie.restart h) (tie.restart h')

/-! ## Loops that count -/

theorem isNamed (name : String) (h : tie.exprs m n a b) :
    Concur tie.fault Eq (left.arena.isNamed name a) (right.arena.isNamed name b) := by
  refine (expr h).bind fun e e' he => ?_
  cases he <;> exact .ok rfl

variable (tie) in
/-- The same name with tied values. -/
abbrev Named (m n : Nat) (p p' : String × NodeId) : Prop :=
  p.1 = p'.1 ∧ tie.exprs m n p.2 p'.2

theorem assignedName? {target target' value value' : NodeId} (ht : tie.exprs m n target target')
    (hv : tie.exprs m n value value') :
    Concur tie.fault (Option.Rel (tie.Named m n)) (left.arena.assignedName? target value)
      (right.arena.assignedName? target' value') := by
  refine (expr ht).bind fun e e' he => ?_
  cases he with
  | ident name => exact .ok (.some ⟨rfl, hv⟩)
  | _ => exact .ok .none

theorem startOf? (h : tie.pair m n demand a b) :
    Concur tie.fault (Option.Rel (tie.Named m n)) (left.arena.startOf? a)
      (right.arena.startOf? b) := by
  refine (tie.found h).bind fun x y hxy => ?_
  cases hxy with
  | expr he =>
    cases he with
    | assign op ht hv =>
      cases op with
      | plain => exact assignedName? ht hv
      | _ => exact .ok .none
    | _ => exact .ok .none
  | stmt hs =>
    cases hs with
    | assign op ht hv =>
      cases op with
      | plain => exact assignedName? ht hv
      | _ => exact .ok .none
    | expr h =>
      refine (expr h).bind fun e e' he => ?_
      cases he with
      | assign op ht hv =>
        cases op with
        | plain => exact assignedName? ht hv
        | _ => exact .ok .none
      | _ => exact .ok .none
    | _ => exact .ok .none
  | decl hd =>
    cases hd with
    | vars _ _ hd =>
      cases hd with
      | nil => exact .ok .none
      | @cons d d' _ _ honly hrest =>
        cases hrest with
        | nil =>
          obtain ⟨name, init⟩ := d
          obtain ⟨name', init'⟩ := d'
          obtain ⟨hname, hinit⟩ := honly
          refine .ok ?_
          cases hinit with
          | none => exact .none
          | some hvalue => exact .some ⟨hname, hvalue⟩
        | cons _ _ => exact .ok .none
    | _ => exact .ok .none
  | defn hd => cases hd <;> exact .ok .none
  | type ty => exact .ok .none

theorem boundOf? (name : String) (h : tie.exprs m n a b) :
    Concur tie.fault
      (Option.Rel fun p p' => p.1 = p'.1 ∧ p.2.1 = p'.2.1 ∧ tie.exprs m n p.2.2 p'.2.2)
      (left.arena.boundOf? name a) (right.arena.boundOf? name b) := by
  refine (expr h).bind fun e e' he => ?_
  cases he with
  | binary op hl hr =>
    dsimp only
    cases op.bound? with
    | none => exact .ok .none
    | some found =>
      refine (isNamed name hl).bindEq fun isNamed => ?_
      cases isNamed with
      | true => exact .ok (.some ⟨rfl, rfl, hr⟩)
      | false => exact .ok .none
  | _ => exact .ok .none

theorem stepOf? (name : String) (descending : Bool) (h : tie.exprs m n a b) :
    Concur tie.fault (Option.Rel (Option.Rel (tie.exprs m n)))
      (left.arena.stepOf? name descending a) (right.arena.stepOf? name descending b) := by
  refine (expr h).bind fun e e' he => ?_
  cases he with
  | unary op h =>
    refine (isNamed name h).bindEq fun isNamed => ?_
    cases isNamed with
    | true =>
      refine .ok ?_
      cases op <;> cases descending <;> first | exact .none | exact .some .none
    | false => exact .ok .none
  | assign op ht hv =>
    refine (isNamed name ht).bindEq fun isNamed => ?_
    cases isNamed with
    | true =>
      refine .ok ?_
      cases op <;> cases descending <;> first | exact .none | exact .some (.some hv)
    | false => exact .ok .none
  | _ => exact .ok .none

theorem isRepeatableTo (h : tie.exprs m n a b) :
    Concur tie.fault Eq (left.arena.isRepeatableTo m a) (right.arena.isRepeatableTo n b) := by
  induction h using tie.exprRecursion with
  | zero _ _ _ hfault => exact .error hfault
  | succ m n ih _ _ _ he =>
    change Concur _ _ (left.arena.expr _ >>= _) (right.arena.expr _ >>= _)
    refine he.bind fun e e' he => ?_
    cases he with
    | binary _ hl hr => exact Concur.allM (.cons hl (.cons hr .nil)) fun _ _ => ih
    | unary _ h => exact .ite (.ok rfl) (ih h)
    | paren h => exact ih h
    | member _ h => exact ih h
    | _ => exact .ok rfl

theorem namesReadTo (h : tie.pair m n demand a b) :
    Concur tie.fault Eq (left.arena.namesReadTo m a) (right.arena.namesReadTo n b) := by
  induction h using tie.recursion with
  | zero _ _ _ _ hfault => exact .error hfault
  | succ m n ih _ _ _ _ hnode =>
    unfold Arena.namesReadTo
    refine hnode.bind fun x y hxy => ?_
    have hbelow : Concur tie.fault Eq
        (x.children.mapM fun child => left.arena.namesReadTo m child.id)
        (y.children.mapM fun child => right.arena.namesReadTo n child.id) :=
      Concur.mapMEq hxy.children fun _ _ ⟨_, _, hid⟩ => ih hid
    refine hbelow.bindEq fun below => ?_
    cases hxy with
    | expr he => cases he <;> exact .ok rfl
    | _ => exact .ok rfl

theorem isOneOf (names : List String) (h : tie.exprs m n a b) :
    Concur tie.fault Eq (left.arena.isOneOf names a) (right.arena.isOneOf names b) := by
  refine (expr h).bind fun e e' he => ?_
  cases he <;> exact .ok rfl

theorem assignsHere (names : List String) {x y : Node} (h : x.Tied (tie.pair m n) tie.soft y) :
    Concur tie.fault Eq (left.arena.assignsHere names x) (right.arena.assignsHere names y) := by
  cases h with
  | expr he =>
    cases he with
    | assign _ ht _ => exact isOneOf names ht
    | unary op h =>
      exact .ite (isOneOf names h) (.ok rfl)
    | _ => exact .ok rfl
  | stmt hs =>
    cases hs with
    | assign _ ht _ => exact isOneOf names ht
    | _ => exact .ok rfl
  | decl hd =>
    cases hd with
    | vars _ _ hd =>
      refine .ok ?_
      induction hd with
      | nil => rfl
      | cons hd _ ih => rw [List.any_cons, List.any_cons, hd.name, ih]
    | _ => exact .ok rfl
  | defn _ | type _ => exact .ok rfl

theorem assignsOneOfTo (names : List String) (h : tie.pair m n demand a b) :
    Concur tie.fault Eq (left.arena.assignsOneOfTo names m a)
      (right.arena.assignsOneOfTo names n b) := by
  induction h using tie.recursion with
  | zero _ _ _ _ hfault => exact .error hfault
  | succ m n ih _ _ _ _ hnode =>
    unfold Arena.assignsOneOfTo
    refine hnode.bind fun x y hxy => (assignsHere names hxy).bindEq fun here => ?_
    cases here with
    | true => exact .ok rfl
    | false => exact Concur.anyM hxy.children fun _ _ ⟨_, _, hid⟩ => ih hid

theorem isFixed {k l : Nat} (name : String) {stop stop' body body' : NodeId}
    {step step' : Option NodeId}
    (hstop : tie.exprs m n stop stop') (hstep : Option.Rel (tie.exprs m n) step step')
    (hbody : tie.pair k l demand body body') :
    Concur tie.fault Eq (left.arena.isFixed name stop step body)
      (right.arena.isFixed name stop' step' body') := by
  have hbounds : List.Forall₂ (tie.exprs m n) (stop :: step.toList) (stop' :: step'.toList) := by
    refine .cons hstop ?_
    cases hstep with
    | none => exact .nil
    | some h => exact .cons h .nil
  unfold Arena.isFixed
  have hrepeatable := Concur.allM hbounds fun _ _ h => isRepeatableTo (tie.restart h)
  refine hrepeatable.bindEq fun repeatable => ?_
  cases repeatable with
  | false => exact .ok rfl
  | true =>
    refine (Concur.mapMEq hbounds fun _ _ h => namesReadTo (tie.restart h)).bindEq fun names => ?_
    exact (assignsOneOfTo _ (tie.restart hbody)).bindEq fun _ => .ok rfl

/-- Tied loops count alike, over tied ranges. -/
theorem counting? {init init' cond cond' update update' : Option NodeId} {body body' : NodeId}
    (hi : Option.Rel (tie.pair m n none) init init') (hc : Option.Rel (tie.exprs m n) cond cond')
    (hu : Option.Rel (tie.exprs m n) update update')
    (hb : tie.pair m n (some .statement) body body') :
    Concur tie.fault
      (Option.Rel fun p p' => p.1 = p'.1 ∧ p.2.Tied (tie.pair m n) p'.2)
      (left.arena.counting? init cond update body)
      (right.arena.counting? init' cond' update' body') := by
  unfold Arena.counting?
  cases hi with
  | none => exact .ok .none
  | some hi =>
    refine (startOf? hi).bind fun start start' hstart => ?_
    rcases hstart with @⟨⟨name, start⟩, ⟨_, start'⟩, rfl, hstart⟩ | _
    · cases hc with
      | none => exact .ok .none
      | some hc =>
        refine (boundOf? name hc).bind fun bound bound' hbound => ?_
        rcases hbound with @⟨⟨descending, inclusive, stop⟩, ⟨_, _, stop'⟩, rfl, rfl, hstop⟩ | _
        · cases hu with
          | none => exact .ok .none
          | some hu =>
            refine (stepOf? name descending hu).bind fun step step' hstep => ?_
            cases hstep with
            | none => exact .ok .none
            | some hstep =>
              refine (isFixed name hstop hstep hb).bindEq fun isFixed => ?_
              refine .ite (.ok (.some ?_)) (.ok .none)
              exact ⟨rfl, hstart, hstop, hstep, rfl, rfl⟩
        · exact .ok .none
    · exact .ok .none

/-! ## The parts of a program -/

theorem isPreamble_eq {x y : Node} (h : x.Tied (tie.pair m n) tie.soft y) :
    x.isPreamble = y.isPreamble := by
  cases h with
  | decl hd => cases hd <;> rfl
  | _ => rfl

theorem isDefinition_eq {x y : Node} (h : x.Tied (tie.pair m n) tie.soft y) :
    x.isDefinition = y.isDefinition := by
  cases h with
  | decl hd => cases hd <;> rfl
  | defn hd => cases hd <;> rfl
  | _ => rfl

variable (tie) in
/-- The same parts, one by one. -/
structure SameSections (m n : Nat) (s s' : Sections) : Prop where
  preamble : List.Forall₂ (tie.pair m n none) s.preamble s'.preamble
  definitions : List.Forall₂ (tie.pair m n none) s.definitions s'.definitions
  statements : List.Forall₂ (tie.pair m n none) s.statements s'.statements

theorem sections {items items' : List NodeId} (h : List.Forall₂ (tie.pair m n none) items items') :
    Concur tie.fault (tie.SameSections m n) (Sections.ofItems left.arena items)
      (Sections.ofItems right.arena items') := by
  induction h with
  | nil => exact .ok ⟨.nil, .nil, .nil⟩
  | cons hitem _ ih =>
    unfold Sections.ofItems
    refine (tie.found hitem).bind fun x y hxy => ih.bind fun s s' hs => ?_
    rw [isPreamble_eq hxy, isDefinition_eq hxy]
    split
    · exact .ok ⟨.cons hitem hs.preamble, hs.definitions, hs.statements⟩
    · split
      · exact .ok ⟨hs.preamble, .cons hitem hs.definitions, hs.statements⟩
      · exact .ok ⟨hs.preamble, hs.definitions, .cons hitem hs.statements⟩

theorem isDefinition (h : tie.pair m n demand a b) :
    Concur tie.fault Eq (left.arena.isDefinition a) (right.arena.isDefinition b) :=
  (tie.found h).bind fun _ _ hxy => .ok (isDefinition_eq hxy)

theorem soleExpressionTo? (h : tie.pair m n demand a b) :
    Concur tie.fault
      (Option.Rel (tie.exprs left.arena.depthBound right.arena.depthBound))
      (left.arena.soleExpressionTo? m a) (right.arena.soleExpressionTo? n b) := by
  induction h using tie.recursion with
  | zero _ _ _ _ hfault => exact .error hfault
  | succ m n ih _ a b h hnode =>
    unfold Arena.soleExpressionTo?
    generalize hx : left.arena.node a = x at hnode
    generalize right.arena.node b = y at hnode
    cases hnode with
    | error hfault => exact .error hfault
    | ok hnode =>
      cases hnode with
      | expr _ => exact .ok (.some (tie.restart (tie.recast h hx)))
      | stmt hs =>
        cases hs with
        | expr hvalue => exact .ok (.some (tie.restart hvalue))
        | _ => exact .ok .none
      | defn hd =>
        cases hd with
        | program hb _ _ =>
          cases hb with
          | nil => exact .ok .none
          | cons honly hrest =>
            cases hrest with
            | nil => exact ih honly
            | cons _ _ => exact .ok .none
        | function _ _ | classBody _ _ => exact .ok .none
      | decl _ | type _ => exact .ok .none

theorem leavesAtEndTo (h : tie.pair m n demand a b) :
    Concur tie.fault Eq (left.arena.leavesAtEndTo m a) (right.arena.leavesAtEndTo n b) := by
  induction h using tie.recursion with
  | zero _ _ _ _ hfault => exact .error hfault
  | succ m n ih _ _ _ _ hnode =>
    unfold Arena.leavesAtEndTo
    refine hnode.bind fun x y hxy => ?_
    cases hxy with
    | stmt hs =>
      cases hs with
      | block h =>
        dsimp only
        have hlast := rel_getLast? h
        generalize List.getLast? _ = last at hlast
        generalize List.getLast? _ = last' at hlast
        cases hlast with
        | none => exact .ok rfl
        | some hlast => exact ih hlast
      | _ => exact .ok rfl
    | _ => exact .ok rfl

theorem anyDeclares {items items' : List NodeId}
    (h : List.Forall₂ (tie.pair m n none) items items') :
    Concur tie.fault Eq (left.arena.anyDeclares items) (right.arena.anyDeclares items') := by
  induction h with
  | nil => exact .ok rfl
  | cons hitem _ ih =>
    unfold Arena.anyDeclares
    refine (tie.found hitem).bind fun x y hxy => ?_
    cases hxy with
    | decl hd =>
      cases hd with
      | vars _ _ _ => exact .ok rfl
      | _ => exact ih
    | _ => exact ih

theorem declaresDirectly (h : tie.pair m n demand a b) :
    Concur tie.fault Eq (left.arena.declaresDirectly a) (right.arena.declaresDirectly b) := by
  refine (tie.found h).bind fun x y hxy => ?_
  cases hxy with
  | stmt hs =>
    cases hs with
    | block h => exact anyDeclares h
    | _ => exact .ok rfl
  | decl hd => cases hd <;> exact .ok rfl
  | _ => exact .ok rfl

theorem isEmptyBlock (h : tie.pair m n (some .statement) a b) :
    Concur tie.fault Eq (left.arena.isEmptyBlock a) (right.arena.isEmptyBlock b) := by
  refine (stmt h).bind fun s s' hs => ?_
  cases hs with
  | block h => cases h <;> exact .ok rfl
  | _ => exact .ok rfl

end Tie

end Interlingua
