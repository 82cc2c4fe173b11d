import Interlingua.Proofs.Effect.Written
import Interlingua.Proofs.Surface.Operands

/-!
# What Java and C++ write

Every expression of the languages with braces is spelled of its own words and of what it writes.

* `Braced.draws_shared` — what they render alike.
* `Java.draws_expr`, `Cpp.draws_expr` — all expressions.
-/

namespace Interlingua

/-! ## Constructions -/

namespace Spelled

variable {own : String → Prop} {below : NodeId → String → List NodeId → Prop}
  {ids : List NodeId} {text list : String}

/-- Texts with a word between any two. -/
theorem joined {word : String} (hword : own word) {texts : List String}
    {groups : List (List NodeId)} (h : List.Forall₂ (Spelled own below) groups texts) :
    Spelled own below groups.flatten ((" " ++ word ++ " ").intercalate texts) := by
  induction h with
  | nil => exact nil
  | @cons group text groups texts hfirst hrest ih =>
    cases hrest with
    | nil => simpa using hfirst
    | cons hnext hmore =>
      rw [String.intercalate_cons_cons, List.flatten_cons]
      have hall := hfirst.infixed hword ih
      simpa [String.append_assoc] using hall

theorem constructed (hnew : own "new") (h : Spelled own below ids text) :
    Spelled own below ids ("new " ++ text) := by
  have hall := h.headed hnew (by decide : Text.IsMark " ")
  simpa using hall

/-- A container without items. -/
theorem emptied {container : String} (hnew : own "new") (hcontainer : own container) :
    Spelled own below [] ("new " ++ (container ++ "<>()")) :=
  .constructed hnew ((word hcontainer).before (by decide) (by decide))

/-- A container of items, which a call lists. -/
theorem listed {container call : String} (hnew : own "new") (hcontainer : own container)
    (hcall : own call) (h : Spelled own below ids list)
    (htext : text =
      "new " ++ (container ++ "<>(" ++ (call ++ Interlingua.parenthesized list ++ ")"))) :
    Spelled own below ids text := by
  have hall := ((called hcall h).before (by decide : Text.IsMark ")") (by decide)).headed
    hcontainer (by decide : Text.IsMark "<>(")
  rw [htext]
  exact .constructed hnew hall

/-- Sizes, each in brackets of its own. -/
theorem sized {sizes : List String} {groups : List (List NodeId)}
    (h : Spelled own below ids text) (hsizes : List.Forall₂ (Spelled own below) groups sizes) :
    Spelled own below (ids ++ groups.flatten)
      (text ++ String.join (sizes.map fun size => "[" ++ size ++ "]")) := by
  induction hsizes generalizing ids text with
  | nil => simpa using h
  | cons hsize hrest ih =>
    rw [List.map_cons, String.join_cons, List.flatten_cons]
    have hnext := ((h.join (by decide : Text.IsMark "[") (by decide) hsize).before
      (by decide : Text.IsMark "]") (by decide))
    simpa [String.append_assoc] using ih hnext

end Spelled

namespace Braced

variable {site : Site} {inv : Scope → Prop} {own : String → Prop}
  {below : NodeId → String → List NodeId → Prop} {target value ty : NodeId}

/-- An assignment writes its target once more if it is written out. -/
theorem spells_assign {known : String → Prop} {forms : AssignOp → Option OperatorForm}
    {binary : BinaryOp → NodeId → NodeId → Render String} {op : AssignOp}
    (hpython : site.lang ≠ .python) (hforms : site.lang.operators.assign = forms)
    (hbinary : ∀ applied, Yields inv (binary applied target value)
      (Spelled (site.view.IsOwn known (.assign op target value)) below [target, value]))
    (h : ∀ c ∈ site.view.written (.assign op target value), site.Renders inv below c) :
    Yields inv (assignWith forms site binary op target value)
      (site.view.Spells known (.assign op target value) below) := by
  subst hforms
  have ht := h target (by simp [View.written, Expr.children])
  have hv := h value (by simp [View.written, Expr.children])
  have hform : ∀ {op' form}, site.lang.operators.assign op' = some form →
      site.view.IsOwn known (.assign op target value) form.value := fun hfound =>
    .reserved (Language.infix_mem_reserved (Language.assign_mem_infixes hfound))
  unfold assignWith
  cases hfound : site.lang.operators.assign op with
  | some form =>
    exact (Site.draws_between (hform hfound) ht hv).mono fun _ htext => .of_spelled htext rfl
  | none =>
    change Yields inv
      (writtenOut site binary (site.lang.operators.assign .plain) op target value) _
    unfold writtenOut
    cases hplain : site.lang.operators.assign .plain with
    | none => exact .throw _
    | some plain =>
      cases op.binary? with
      | none => exact .throw _
      | some applied =>
        refine (ht.draws (site.view.IsOwn known (.assign op target value))).bind
          fun targetText htarget => ?_
        refine (hbinary applied).bind fun valueText hvalue => .pure ?_
        have htwice : [target, target, value].Perm
            (site.view.written (.assign op target value) ++ [target]) :=
          @List.perm_append_comm _ [target] [target, value]
        refine .made (htarget.infixed (hform hplain) hvalue) htwice ?_
          (View.Spells.callee_of_none rfl)
        intro id hid
        cases List.mem_singleton.1 hid
        exact ⟨by simp [View.written, Expr.children], .target hpython hfound⟩

theorem draws_compound {items : List NodeId}
    (hform : ∀ form, site.lang.operators.binary .and = some form → own form.value)
    (h : ∀ item ∈ items, site.Renders inv below item) :
    Yields inv (compound site items) (Spelled own below items) := by
  unfold compound
  cases hfound : site.lang.operators.binary .and with
  | none => exact .throw _
  | some form =>
    have hown := hform form hfound
    cases items with
    | nil => exact .pure .nil
    | cons first rest =>
      refine (Site.draws_operand own (h first (by simp)) form .left).bind fun firstText hfirst => ?_
      refine (Yields.mapM_rel fun item hitem => Site.draws_operand own
        (h item (List.mem_cons_of_mem _ hitem)) form .right).bind fun texts htexts => .pure ?_
      have hgroups : List.Forall₂ (Spelled own below) ((first :: rest).map fun id => [id])
          (firstText :: texts) := .cons hfirst (List.forall₂_map_left_iff.2 htexts)
      have hall := Spelled.joined hown hgroups
      rwa [Site.flatten_singletons] at hall

variable {typeName : Ty → Except EmitError String} {known : String → Prop}
  (hname : ∀ ty text, ty.Named known → typeName ty = .ok text → own text)
include hname

theorem draws_cast (hty : ∀ t, site.arena.ty ty = .ok t → t.Named known)
    (hv : site.Renders inv below value) :
    Yields inv (cast typeName site ty value) (Spelled own below [value]) := by
  unfold cast
  cases site.lang.operators.cast with
  | none => exact .throw _
  | some form =>
    refine (Render.yields_follow hty).bind fun t ht => ?_
    refine (Render.yields_allowed fun name hfound => hname t name ht hfound).bind
      fun name hown => ?_
    refine (Site.draws_operand own hv form .right).bind fun text htext => .pure ?_
    exact (Spelled.word hown).parenthesized.join (by decide) (by decide) htext

variable (hnew : own "new")
include hnew

theorem draws_newObject {t : Ty} (ht : t.Named known) {args : List NodeId}
    (h : ∀ arg ∈ args, site.Renders inv below arg) :
    Yields inv (newObject typeName site t args) (Spelled own below args) := by
  refine (Render.yields_allowed fun name hfound => hname t name ht hfound).bind fun name hown => ?_
  refine (Site.draws_args own h).bind fun list hlist => .pure ?_
  have hall := Spelled.constructed hnew (hlist.called hown)
  simpa [String.append_assoc] using hall

omit hname in
theorem draws_newArrayOf {item : String} (hitem : own item) {dims : List NodeId}
    (h : ∀ dim ∈ dims, site.Renders inv below dim) :
    Yields inv (newArrayOf site item dims) (Spelled own below dims) := by
  refine (Site.yields_texts own h).bind fun sizes hsizes => .pure ?_
  have hall := Spelled.constructed hnew ((Spelled.word hitem).sized hsizes)
  rw [Site.flatten_singletons] at hall
  simpa [String.append_assoc] using hall

end Braced

/-! ## What Java and C++ share -/

/-- Expressions that languages other than Python render alike. -/
def Expr.isBraced : Expr → Bool
  | .binary .. | .unary .. | .assign .. | .compound _ | .cast .. | .new .. => true
  | _ => false

theorem Language.dialect_eq_of_ne {lang : Language} (h : lang ≠ .python) : lang.dialect =
    { lang.dialect with
      unary := fun site _ op operand => site.unary op operand
      assign := fun site _ op target value => Braced.assignWith lang.operators.assign site
        (lang.dialect.binary site) op target value
      compound := Braced.compound
      cast := Braced.cast lang.dialect.typeName
      newObject := Braced.newObject lang.dialect.typeName } := by
  cases lang with
  | python => exact absurd rfl h
  | java | cpp => rfl

/-- What languages other than Python render alike, up to what they render of binary expressions. -/
theorem Braced.draws_shared {site : Site} {inv : Scope → Prop} {known : String → Prop} {id : NodeId}
    {below : NodeId → String → List NodeId → Prop} {e : Expr} (hbraced : e.isBraced = true)
    (hpython : site.lang ≠ .python)
    (htypes : ∀ id ty, site.arena.ty id = .ok ty → ty.Named known)
    (hbinary : ∀ op left right, site.Renders inv below left → site.Renders inv below right →
      Yields inv (site.lang.dialect.binary site op left right)
        (Spelled (site.view.IsOwn known e) below [left, right]))
    (h : ∀ c ∈ site.view.written e, site.Renders inv below c) :
    Yields inv (site.lang.dialect.expr site id e) (site.view.Spells known e below) := by
  have hname : ∀ ty text, ty.Named known → site.lang.dialect.typeName ty = .ok text →
      site.view.IsOwn known e text := fun ty text hty htext => .type hty htext
  rw [Language.dialect_eq_of_ne hpython]
  cases e with
  | binary op left right =>
    have hwritten : site.view.written (.binary op left right) = [left, right] :=
      View.written_binary hpython op left right
    rw [hwritten] at h
    exact (hbinary op left right (h left (by simp)) (h right (by simp))).mono
      fun text htext => .of_perm htext (.of_eq hwritten.symm) rfl
  | unary op operand =>
    refine (Site.draws_unary op (h operand (by simp [View.written, Expr.children]))
      fun form hform => ?_).mono fun text htext => .of_spelled htext rfl
    exact .reserved (Language.unary_mem_reserved hform)
  | assign op target value =>
    have hl := h target (by simp [View.written, Expr.children])
    have hr := h value (by simp [View.written, Expr.children])
    exact Braced.spells_assign hpython rfl (fun applied => hbinary applied _ _ hl hr) h
  | compound items =>
    have hwritten : site.view.written (.compound items) = items := if_neg hpython
    rw [hwritten] at h
    refine (Braced.draws_compound (fun form hform => ?_) h).mono
      fun text htext => .of_perm htext (.of_eq hwritten.symm) rfl
    exact .reserved (Language.infix_mem_reserved (Language.binary_mem_infixes hform))
  | cast ty value =>
    exact (Braced.draws_cast hname (htypes ty) (h value (by simp [View.written]))).mono
      fun text htext => .of_spelled htext rfl
  | new ty args =>
    have hnew : site.view.IsOwn known (.new ty args) "new" := by
      refine .reserved (Language.helper_mem_reserved ?_)
      change "new" ∈ site.lang.helperWords
      generalize site.lang = lang at hpython
      cases lang with
      | python => exact absurd rfl hpython
      | java | cpp => decide
    refine (Render.yields_follow (htypes ty)).bind fun t ht => ?_
    exact (Braced.draws_newObject hname hnew ht h).mono fun text htext => .of_spelled htext rfl
  | _ => cases hbraced

/-! ## Java -/

namespace Java

variable {site : Site} {inv : Scope → Prop} {own : String → Prop} {known : String → Prop}
  {below : NodeId → String → List NodeId → Prop} {id left right ty : NodeId}
  (hown : ∀ text ∈ Language.java.reserved, own text)
include hown

theorem draws_binary (hlang : site.lang = .java) (op : BinaryOp)
    (hl : site.Renders inv below left) (hr : site.Renders inv below right) :
    Yields inv (binaryExpr site op left right) (Spelled own below [left, right]) := by
  have hcall : ∀ name ∈ Language.java.helperWords,
      Yields inv (binaryExpr.call site left right name) (Spelled own below [left, right]) := by
    intro name hname
    refine (hl.draws own).bind fun leftText hleft => (hr.draws own).bind fun rightText hright => ?_
    have hlist := Spelled.commas (.cons hleft (.cons hright .nil))
    exact .pure (.called (hown name (Language.helper_mem_reserved hname)) hlist)
  unfold binaryExpr
  split
  · exact hcall "Math.pow" (by decide)
  · exact hcall "Math.floorDiv" (by decide)
  · refine Site.draws_binary op hl hr fun form hform => hown _ ?_
    rw [hlang] at hform
    exact Language.infix_mem_reserved (Language.binary_mem_infixes hform)

/-- An array of the items in braces. -/
theorem draws_filled {item list : String} {ids : List NodeId} (hitem : own item)
    (hlist : Spelled own below ids list) :
    Spelled own below ids ("new " ++ item ++ "[] " ++ inBraces list) := by
  have hnew : own "new" := hown _ (Language.helper_mem_reserved (by decide))
  have hall := Spelled.constructed hnew (hlist.inBraces.headed hitem
    (by decide : Text.IsMark "[] "))
  simpa [String.append_assoc] using hall

/-- Entries, whose keys and values are listed one after another. -/
theorem draws_dict (id : NodeId) {entries : List (NodeId × NodeId)}
    (h : ∀ entry ∈ entries, site.Renders inv below entry.1 ∧ site.Renders inv below entry.2) :
    Yields inv (dict site id entries)
      (Spelled own below (entries.flatMap fun entry => [entry.1, entry.2])) := by
  have hhelper : ∀ text ∈ Language.java.helperWords, own text :=
    fun text htext => hown text (Language.helper_mem_reserved htext)
  have hnew := hhelper "new" (by decide)
  have hmap := hhelper "HashMap" (by decide)
  unfold dict
  cases entries with
  | nil => exact .pure (Spelled.emptied hnew hmap)
  | cons first rest =>
    have hentry : ∀ entry ∈ first :: rest, Yields inv (do
        let keyText ← site.below entry.1
        let valueText ← site.below entry.2
        return [keyText, valueText])
          (List.Forall₂ (Spelled own below) [[entry.1], [entry.2]]) := by
      intro entry hentry
      refine ((h entry hentry).1.draws own).bind fun keyText hkey => ?_
      exact ((h entry hentry).2.draws own).bind fun valueText hvalue =>
        .pure (.cons hkey (.cons hvalue .nil))
    refine (Yields.mapM_rel hentry).bind fun texts htexts => .pure ?_
    have hlist := Spelled.commas (List.rel_flatten (List.forall₂_map_left_iff.2 htexts))
    have hids : (((first :: rest).map fun entry => [[entry.1], [entry.2]]).flatten).flatten =
        (first :: rest).flatMap fun entry => [entry.1, entry.2] := by
      simp [List.flatten_flatten, List.flatMap, Function.comp_def]
    rw [← hids]
    exact hlist.listed hnew hmap (hhelper "Map.of" (by decide))
      (by simp [← String.toList_inj, parenthesized])

omit hown in
/-- The parts of a concatenation, where an empty string may come first. -/
theorem draws_interpolated {parts : List NodeId} (hplus : own "+")
    (h : ∀ part ∈ parts, site.Renders inv below part) :
    Yields inv (interpolated site parts) (Spelled own below parts) := by
  have hled : Yields inv (startsWithString site parts) fun _ => True := by
    cases parts with
    | nil => exact .pure trivial
    | cons first rest =>
      refine (Render.yields_follow fun _ _ => trivial).bind fun e _ => ?_
      cases e <;> exact .pure trivial
  refine hled.bind fun ledByString _ => ?_
  have hplaced : ∀ placed ∈ parts.mapIdx fun index part =>
      if ledByString && index == 0 then (part, Side.left) else (part, Side.right),
      placed.1 ∈ parts := by
    intro placed hplaced
    obtain ⟨index, hindex, rfl⟩ := List.mem_mapIdx.1 hplaced
    split <;> exact List.getElem_mem hindex
  have hids : (parts.mapIdx fun index part =>
      if ledByString && index == 0 then (part, Side.left) else (part, Side.right)).map Prod.fst =
        parts := by
    refine List.ext_getElem (by simp) fun index hleft hright => ?_
    rw [List.getElem_map, List.getElem_mapIdx]
    split <;> rfl
  have hoperand : ∀ placed : NodeId × Side, placed.1 ∈ parts →
      Yields inv (site.operand (.between "+" addLevel .left) placed.1 placed.2)
        (Spelled own below [placed.1]) :=
    fun placed hmem => Site.draws_operand own (h placed.1 hmem) _ placed.2
  refine (Yields.mapM_rel fun placed hmem => hoperand placed (hplaced placed hmem)).bind
    fun texts htexts => .pure ?_
  have hgroups : List.Forall₂ (Spelled own below) (parts.map fun id => [id]) texts := by
    rw [← hids, List.map_map]
    exact List.forall₂_map_left_iff.2 htexts
  rw [← Site.flatten_singletons parts]
  cases ledByString with
  | true => exact Spelled.joined hplus hgroups
  | false =>
    have hempty : Spelled own below [] (Text.quote "") := .mark (by decide)
    have hall := Spelled.joined hplus (.cons hempty hgroups)
    simpa using hall

variable (hname : ∀ ty text, ty.Named known → typeName ty = .ok text → own text)
include hname

theorem draws_collection (kind : CollectionKind) {items : List NodeId}
    (hinferred : kind = .array → Yields inv (site.view.inferred id) (Ty.Named known))
    (h : ∀ item ∈ items, site.Renders inv below item) :
    Yields inv (collection site id kind items) (Spelled own below items) := by
  have hhelper : ∀ text ∈ Language.java.helperWords, own text :=
    fun text htext => hown text (Language.helper_mem_reserved htext)
  have hnew := hhelper "new" (by decide)
  refine (Site.draws_args own h).bind fun list hlist => ?_
  cases kind with
  | array =>
    have hfilled : ∀ item, own item →
        Yields inv (pure ("new " ++ item ++ "[] " ++ inBraces list) : Render String)
          (Spelled own below items) :=
      fun item hitem => .pure (draws_filled hown hitem hlist)
    have hobject : own "Object" := hown _ (Language.typeWord_mem_reserved (by decide))
    refine (hinferred rfl).bind fun ty hty => ?_
    cases ty with
    | array item =>
      dsimp only
      split
      · exact (Render.yields_allowed fun text htext => hname item text hty htext).bind hfilled
      · exact hfilled _ hobject
    | _ => exact hfilled _ hobject
  | list =>
    refine .pure ?_
    cases items with
    | nil => exact Spelled.emptied hnew (hhelper "ArrayList" (by decide))
    | cons first rest =>
      exact hlist.listed hnew (hhelper "ArrayList" (by decide)) (hhelper "List.of" (by decide))
        (by simp [← String.toList_inj, parenthesized])
  | set =>
    refine .pure ?_
    cases items with
    | nil => exact Spelled.emptied hnew (hhelper "HashSet" (by decide))
    | cons first rest =>
      exact hlist.listed hnew (hhelper "HashSet" (by decide)) (hhelper "Set.of" (by decide))
        (by simp [← String.toList_inj, parenthesized])
  | tuple =>
    have hall := hlist.called (hhelper "List.of" (by decide))
    exact .pure (by simpa [parenthesized, ← String.append_assoc] using hall)

/-- An array is written with its items or with its dimensions. -/
theorem draws_newArray {t : Ty} (ht : t.Named known) (hlang : site.lang = .java)
    (dims : List NodeId) (init : Option NodeId)
    (h : ∀ c ∈ site.view.written (.newArray ty dims init), site.Renders inv below c) :
    Yields inv (newArray site t dims init)
      (Spelled own below (site.view.written (.newArray ty dims init))) := by
  have hnew : own "new" := hown _ (Language.helper_mem_reserved (by decide))
  refine (Render.yields_allowed fun name hfound => hname t name ht hfound).bind fun item hitem => ?_
  cases init with
  | none => exact Braced.draws_newArrayOf hnew hitem h
  | some init =>
    refine (Render.yields_follow fun e he => he).bind fun e he => ?_
    have hcpp : site.view.lang ≠ .cpp := by
      rw [show site.view.lang = .java from hlang]
      decide
    have hwritten := View.written_newArray hcpp ty dims he
    rw [hwritten] at h ⊢
    cases e with
    | collection kind items =>
      exact (Site.draws_args own h).bind fun list hlist => .pure (draws_filled hown hitem hlist)
    | _ =>
      refine ((h init (by simp)).draws own).bind fun text htext => .pure ?_
      exact draws_filled hown hitem htext

omit hown hname in
/-- **What Java writes of an expression.** -/
theorem draws_expr (hlang : site.lang = .java)
    (htypes : ∀ id ty, site.arena.ty id = .ok ty → ty.Named known) {e : Expr}
    (hinferred : e.isContainer = true → Yields inv (site.view.inferred id) (Ty.Named known))
    (h : ∀ c ∈ site.view.written e, site.Renders inv below c) :
    Yields inv (dialect.expr site id e) (site.view.Spells known e below) := by
  have hreserved : ∀ text ∈ Language.java.reserved, site.view.IsOwn known e text :=
    fun text htext => .reserved (by rwa [show site.view.lang = .java from hlang])
  have hname : ∀ ty text, ty.Named known → typeName ty = .ok text → site.view.IsOwn known e text :=
    fun ty text hty htext => .type hty (by
      unfold View.typeName
      rwa [show site.view.lang = .java from hlang])
  have hdialect : site.lang.dialect = dialect := by
    rw [hlang]
    rfl
  cases e with
  | binary _ _ _ | unary _ _ | assign _ _ _ | compound _ | cast _ _ | new _ _ =>
    have hpython : site.lang ≠ .python := by
      rw [hlang]
      decide
    rw [← hdialect]
    refine Braced.draws_shared rfl hpython htypes (fun op left right hl hr => ?_) h
    rw [hdialect]
    exact draws_binary hreserved hlang op hl hr
  | sizeOf value => exact .throw _
  | newArray ty dims init =>
    refine (Render.yields_follow (htypes ty)).bind fun t ht => ?_
    exact (draws_newArray hreserved hname ht hlang dims init h).mono
      fun text htext => .of_spelled htext rfl
  | collection kind items =>
    refine (draws_collection hreserved hname kind (fun _ => hinferred rfl)
      fun item hitem => h item (by simp [View.written, Expr.children, hitem])).mono
        fun text htext => .of_spelled ?_ rfl
    simpa [View.written, Expr.children] using htext
  | dict entries =>
    have hwritten := View.written_dict site.view entries
    rw [hwritten] at h
    refine (draws_dict hreserved id fun entry hentry => ⟨h entry.1 ?_, h entry.2 ?_⟩).mono
      fun text htext => .of_perm htext (.of_eq hwritten.symm) rfl
    · exact List.mem_flatMap.2 ⟨entry, hentry, by simp⟩
    · exact List.mem_flatMap.2 ⟨entry, hentry, by simp⟩
  | interpolated parts =>
    have hwritten : site.view.written (.interpolated parts) = parts := if_pos hlang
    rw [hwritten] at h
    exact (draws_interpolated (hreserved "+" (by decide)) h).mono
      fun text htext => .of_perm htext (.of_eq hwritten.symm) rfl
  | sequence items => exact .throw _
  | _ =>
    rw [← hdialect]
    exact Site.draws_common rfl h

end Java

/-! ## C++ -/

namespace Cpp

variable {site : Site} {inv : Scope → Prop} {own : String → Prop} {known : String → Prop}
  {below : NodeId → String → List NodeId → Prop} {id left right ty : NodeId}
  (hown : ∀ text ∈ Language.cpp.reserved, own text)
include hown

/-- A power is a call, and a floor division the cast of a quotient. -/
theorem draws_binary (hlang : site.lang = .cpp) (op : BinaryOp)
    (hl : site.Renders inv below left) (hr : site.Renders inv below right) :
    Yields inv (binaryExpr site op left right) (Spelled own below [left, right]) := by
  unfold binaryExpr
  split
  · refine (hl.draws own).bind fun leftText hleft => (hr.draws own).bind fun rightText hright => ?_
    have hlist := Spelled.commas (.cons hleft (.cons hright .nil))
    exact .pure (.called (hown "pow" (Language.helper_mem_reserved (by decide))) hlist)
  · have hslash : own "/" := hown _ (by decide)
    have hint : own "int" := hown _ (Language.typeWord_mem_reserved (by decide))
    refine (Site.draws_between hslash hl hr).bind fun text htext => .pure ?_
    have hjoined := ((Spelled.word hint).join (by decide : Text.IsMark ")(") (by decide)
      htext).before (by decide : Text.IsMark ")") (by decide)
    have hall := hjoined.after (by decide : Text.IsMark "(")
    have htext' : "(int)" ++ parenthesized text = "(" ++ ("int" ++ ")(" ++ text ++ ")") := by
      simp [← String.toList_inj, parenthesized]
    rw [htext']
    exact hall
  · refine Site.draws_binary op hl hr fun form hform => hown _ ?_
    rw [hlang] at hform
    exact Language.infix_mem_reserved (Language.binary_mem_infixes hform)

omit hown in
/-- Items in braces, which the name of a container may lead. -/
theorem draws_typedInit (hname : ∀ ty, ty.Named known → own (typeName ty))
    (hinferred : Yields inv (site.view.inferred id) (Ty.Named known)) {ids : List NodeId}
    {list : String} (h : Spelled own below ids list) :
    Yields inv (typedInit site id list) (Spelled own below ids) := by
  refine hinferred.bind fun ty hty => .pure ?_
  split
  · have hall := (h.headed (hname ty hty) (by decide : Text.IsMark "\x7b")).before
      (by decide : Text.IsMark "\x7d") (by decide)
    simpa [inBraces, String.append_assoc] using hall
  · simpa using h.inBraces

theorem draws_collection (hname : ∀ ty, ty.Named known → own (typeName ty))
    (hinferred : Yields inv (site.view.inferred id) (Ty.Named known)) (kind : CollectionKind)
    {items : List NodeId} (h : ∀ item ∈ items, site.Renders inv below item) :
    Yields inv (collection site id kind items) (Spelled own below items) := by
  refine (Site.draws_args own h).bind fun list hlist => ?_
  cases kind with
  | tuple => exact .pure (hlist.called (hown _ (Language.helper_mem_reserved (by decide))))
  | list | array | set => exact draws_typedInit hname hinferred hlist

omit hown in
theorem draws_dict (hname : ∀ ty, ty.Named known → own (typeName ty))
    (hinferred : Yields inv (site.view.inferred id) (Ty.Named known))
    {entries : List (NodeId × NodeId)}
    (h : ∀ entry ∈ entries, site.Renders inv below entry.1 ∧ site.Renders inv below entry.2) :
    Yields inv (dict site id entries)
      (Spelled own below (entries.flatMap fun entry => [entry.1, entry.2])) := by
  have hentry : ∀ entry ∈ entries, Yields inv (do
      let keyText ← site.below entry.1
      let valueText ← site.below entry.2
      return inBraces (commas [keyText, valueText]))
        (Spelled own below [entry.1, entry.2]) := by
    intro entry hentry
    refine ((h entry hentry).1.draws own).bind fun keyText hkey => ?_
    refine ((h entry hentry).2.draws own).bind fun valueText hvalue => .pure ?_
    exact (Spelled.commas (.cons hkey (.cons hvalue .nil))).inBraces
  refine (Yields.mapM_rel hentry).bind fun texts htexts => ?_
  exact draws_typedInit hname hinferred (Spelled.commas (List.forall₂_map_left_iff.2 htexts))

/-- What a format shows of a part: the text of a literal, or a place for another expression. -/
inductive Formats (own : String → Prop) (below : NodeId → String → List NodeId → Prop)
    (part : NodeId) : Option String → String × Option String → Prop
  | literal (value : String) : Formats own below part (some value) (doubleBraces value, none)
  | place {text : String} (h : Spelled own below [part] text) :
      Formats own below part none ("\x7b\x7d", some text)

/-- A format has a place for each part that is no literal. -/
theorem draws_interpolated {parts : List NodeId}
    (hformat : own (Text.quote (formatOf site.arena parts)))
    (h : ∀ part ∈ parts.filter fun part => (site.arena.literal? part).isNone,
      site.Renders inv below part) :
    Yields inv (interpolated site parts)
      (Spelled own below (parts.filter fun part => (site.arena.literal? part).isNone)) := by
  have hpart : ∀ part ∈ parts, Yields inv (formatPart site part)
      (Formats own below part (site.arena.literal? part)) := by
    intro part hpart
    refine (Render.yields_follow fun e he => he).bind fun e he => ?_
    have hliteral := Arena.literal?_eq he
    rw [hliteral]
    cases e with
    | str value kind => exact .pure (.literal value)
    | _ =>
      exact ((h part (List.mem_filter.2 ⟨hpart, by rw [hliteral]; rfl⟩)).draws own).bind
        fun text htext => .pure (.place htext)
  refine (Yields.mapM_rel hpart).bind fun rendered hrendered => .pure ?_
  obtain ⟨htexts, hargs⟩ : String.join (rendered.map Prod.fst) = formatOf site.arena parts ∧
      List.Forall₂ (Spelled own below)
        ((parts.filter fun part => (site.arena.literal? part).isNone).map fun id => [id])
        (rendered.filterMap Prod.snd) := by
    clear h hpart hformat
    induction hrendered with
    | nil => exact ⟨rfl, .nil⟩
    | @cons part pair parts rendered hpair _ ih =>
      obtain ⟨htexts, hargs⟩ := ih
      unfold formatOf at htexts ⊢
      rw [List.map_cons, List.map_cons, String.join_cons, String.join_cons, ← htexts,
        List.filterMap_cons, List.filter_cons]
      cases hliteral : site.arena.literal? part with
      | some value =>
        rw [hliteral] at hpair
        cases hpair with
        | literal => exact ⟨rfl, hargs⟩
      | none =>
        rw [hliteral] at hpair
        cases hpair with
        | place htext => exact ⟨rfl, .cons htext hargs⟩
  have hword : own "std::format" := hown _ (Language.helper_mem_reserved (by decide))
  have hall := (Spelled.commas (.cons (.word hformat) hargs)).called hword
  rw [List.flatten_cons, Site.flatten_singletons, List.nil_append, ← htexts] at hall
  exact hall

/-- An array is written with its items or with its dimensions. -/
theorem draws_newArray {t : Ty} (hitem : own (typeName t))
    (dims : List NodeId) {init : Option NodeId}
    (hinit : ∀ list ∈ init, ∃ kind items, site.arena.expr list = .ok (.collection kind items))
    (hlabels : ∀ text ∈ site.view.labels (.newArray ty dims init), own text)
    (h : ∀ c ∈ site.view.written (.newArray ty dims init), site.Renders inv below c) :
    Yields inv (newArray site t dims init)
      (Spelled own below (site.view.written (.newArray ty dims init))) := by
  have hnew : own "new" := hown _ (Language.helper_mem_reserved (by decide))
  unfold newArray
  cases init with
  | none => exact Braced.draws_newArrayOf hnew hitem h
  | some init =>
    obtain ⟨kind, items, he⟩ := hinit init rfl
    have hwritten : site.view.written (.newArray ty dims (some init)) = items := by
      simp only [View.written, show site.view.arena.expr init = _ from he]
    have hcount : own (Text.count items.length) := by
      refine hlabels _ ?_
      simp only [View.labels, show site.view.arena.expr init = _ from he]
      exact List.mem_singleton.2 rfl
    rw [hwritten] at h ⊢
    refine (Render.yields_follow fun e hfound => hfound).bind fun e hfound => ?_
    cases he.symm.trans hfound
    refine (Site.draws_args own h).bind fun list hlist => .pure ?_
    have hsized := (hlist.headed hcount (by decide : Text.IsMark "]\x7b")).before
      (by decide : Text.IsMark "\x7d") (by decide)
    have hall := Spelled.constructed hnew (hsized.headed hitem (by decide : Text.IsMark "["))
    have htext : "new " ++ typeName t ++ "[" ++ Text.count items.length ++ "]" ++ inBraces list =
        "new " ++ (typeName t ++ "[" ++ (Text.count items.length ++ "]\x7b" ++ list ++ "\x7d")) := by
      simp [← String.toList_inj, inBraces]
    rw [htext]
    exact hall

omit hown in
/-- **What C++ writes of an expression.** -/
theorem draws_expr (hlang : site.lang = .cpp)
    (htypes : ∀ id ty, site.arena.ty id = .ok ty → ty.Named known) {e : Expr}
    (hinferred : e.isContainer = true → Yields inv (site.view.inferred id) (Ty.Named known))
    (hinit : ∀ ty dims init, e = .newArray ty dims (some init) →
      ∃ kind items, site.arena.expr init = .ok (.collection kind items))
    (h : ∀ c ∈ site.view.written e, site.Renders inv below c) :
    Yields inv (dialect.expr site id e) (site.view.Spells known e below) := by
  have hreserved : ∀ text ∈ Language.cpp.reserved, site.view.IsOwn known e text :=
    fun text htext => .reserved (by rwa [show site.view.lang = .cpp from hlang])
  have hname : ∀ ty, ty.Named known → site.view.IsOwn known e (typeName ty) :=
    fun ty hty => .type hty (by
      unfold View.typeName
      rw [show site.view.lang = .cpp from hlang]
      rfl)
  have hdialect : site.lang.dialect = dialect := by
    rw [hlang]
    rfl
  cases e with
  | binary _ _ _ | unary _ _ | assign _ _ _ | compound _ | cast _ _ | new _ _ =>
    have hpython : site.lang ≠ .python := by
      rw [hlang]
      decide
    rw [← hdialect]
    refine Braced.draws_shared rfl hpython htypes (fun op left right hl hr => ?_) h
    rw [hdialect]
    exact draws_binary hreserved hlang op hl hr
  | sizeOf value =>
    have hword := hreserved "sizeof" (Language.helper_mem_reserved (by decide))
    exact ((h value (by simp [View.written, Expr.children])).draws _).bind fun text htext =>
      .pure (.of_spelled (htext.called hword) rfl)
  | newArray ty dims init =>
    refine (Render.yields_follow (htypes ty)).bind fun t ht => ?_
    refine (draws_newArray hreserved (hname t ht) dims ?_ (fun text => .label) h).mono
      fun text htext => .of_spelled htext rfl
    intro list hlist
    cases hlist
    exact hinit ty dims list rfl
  | collection kind items =>
    have hwritten : site.view.written (.collection kind items) = items := by
      simp [View.written, Expr.children]
    rw [hwritten] at h
    exact (draws_collection hreserved hname (hinferred rfl) kind h).mono
      fun text htext => .of_perm htext (.of_eq hwritten.symm) rfl
  | dict entries =>
    have hwritten := View.written_dict site.view entries
    rw [hwritten] at h
    refine (draws_dict hname (hinferred rfl)
      fun entry hentry => ⟨h entry.1 ?_, h entry.2 ?_⟩).mono
        fun text htext => .of_perm htext (.of_eq hwritten.symm) rfl
    · exact List.mem_flatMap.2 ⟨entry, hentry, by simp⟩
    · exact List.mem_flatMap.2 ⟨entry, hentry, by simp⟩
  | interpolated parts =>
    have hjava : site.view.lang ≠ .java := by
      rw [show site.view.lang = .cpp from hlang]
      decide
    have hwritten := View.written_interpolated hjava parts
    rw [hwritten] at h
    have hformat : site.view.IsOwn known (.interpolated parts)
        (Text.quote (formatOf site.arena parts)) := by
      refine .label ?_
      simp only [View.labels, show site.view.lang = .cpp from hlang]
      exact List.mem_singleton.2 rfl
    exact (draws_interpolated hreserved hformat h).mono
      fun text htext => .of_perm htext (.of_eq hwritten.symm) rfl
  | sequence items =>
    have hwritten : site.view.written (.sequence items) = items := by
      simp [View.written, Expr.children]
    rw [hwritten] at h
    exact (Site.draws_args _ h).mono fun text htext => .of_perm htext (.of_eq hwritten.symm) rfl
  | _ =>
    rw [← hdialect]
    exact Site.draws_common rfl h

end Cpp

end Interlingua
