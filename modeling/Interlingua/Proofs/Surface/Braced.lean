import Interlingua.Proofs.Surface.Operands

/-!
# Java and C++ on the surface

What the expressions of the languages with braces show: each shows no operator weaker than the one
that its form names.
-/

namespace Interlingua

open Surface

/-! ## Assignments, comparisons, casts and constructions -/

/-- Texts with an operator between any two. -/
theorem Surface.Shows.joined {lang : Language} {bound : Nat} {form : OperatorForm}
    (hform : form ∈ lang.infixes) (hle : form.level ≤ bound) {texts : List String}
    (hne : texts ≠ []) (h : ∀ text ∈ texts, Shows lang bound text) :
    Shows lang bound ((" " ++ form.value ++ " ").intercalate texts) := by
  induction texts with
  | nil => exact absurd rfl hne
  | cons text rest ih =>
    have htext := h text (by simp)
    cases rest with
    | nil => simpa using htext
    | cons next rest =>
      have hrest := ih (by simp) fun text htext => h text (List.mem_cons_of_mem _ htext)
      rw [String.intercalate_cons_cons]
      simpa [String.append_assoc] using htext.between hform hle hrest

namespace Braced

variable {site : Site} {target value ty : NodeId}

theorem prints_assign {binary : BinaryOp → NodeId → NodeId → Render String}
    (hbinary : ∀ op, site.Prints (site.lang.boundOf (.binary op target value))
      (binary op target value))
    (op : AssignOp) (ht : site.Written target) (hv : site.Written value) :
    site.Prints (site.lang.boundOf (.assign op target value))
      (assignWith site.lang.operators.assign site binary op target value) := by
  unfold assignWith
  cases hform : site.lang.operators.assign op with
  | some form =>
    have hassign : site.lang.formOf? (.assign op target value) = some form := by
      simp [Language.formOf?, hform]
    rw [Language.boundOf_eq hassign]
    exact Site.prints_between (Language.assign_mem_infixes hform) ht hv
  | none =>
    change site.Prints _
      (writtenOut site binary (site.lang.operators.assign .plain) op target value)
    cases hplain : site.lang.operators.assign .plain with
    | none => exact .throw _
    | some plain =>
      have hassign : site.lang.formOf? (.assign op target value) = some plain := by
        simp [Language.formOf?, hform, hplain]
      rw [Language.boundOf_eq hassign]
      unfold writtenOut
      cases op.binary? with
      | none => exact .throw _
      | some applied =>
        refine Yields.bind ht fun targetText hwritten => ?_
        obtain ⟨e, -, htarget⟩ := hwritten
        refine (hbinary applied).bind fun valueText hvalue => .pure ?_
        exact (htarget.mono (Language.boundOf_le_assign hplain e)).between
          (Language.assign_mem_infixes hplain) (Nat.le_refl _)
          (hvalue.mono (Language.boundOf_le_assign hplain _))

theorem prints_compound {items : List NodeId} (hchains : site.lang.operators.chains = false)
    (hne : items ≠ []) (h : ∀ item ∈ items, site.Written item) :
    site.Prints (site.lang.boundOf (.compound items)) (compound site items) := by
  unfold compound
  cases hform : site.lang.operators.binary .and with
  | none => exact .throw _
  | some form =>
    have hcompound : site.lang.formOf? (.compound items) = some form := by
      simp [Language.formOf?, hchains, hform]
    rw [Language.boundOf_eq hcompound]
    obtain ⟨first, rest, rfl⟩ := List.exists_cons_of_ne_nil hne
    refine (Site.prints_operand (h first (by simp)) form .left).bind fun firstText hfirst => ?_
    refine (Yields.mapM fun item hitem =>
      Site.prints_operand (h item (List.mem_cons_of_mem _ hitem)) form .right).bind
        fun restTexts hrest => .pure ?_
    exact .joined (Language.binary_mem_infixes hform) (Nat.le_refl _) (by simp)
      (List.forall_mem_cons.2 ⟨hfirst, hrest⟩)

variable {typeName : Ty → Except EmitError String}
  (hname : ∀ ty : Ty, ty.isPlain = true → Grants (typeName ty) TypeText)
include hname

theorem prints_cast (htypes : site.arena.TypesPlain) (hv : site.Written value) :
    site.Prints (site.lang.boundOf (.cast ty value)) (cast typeName site ty value) := by
  unfold cast
  cases hform : site.lang.operators.cast with
  | none => exact .throw _
  | some form =>
    rw [Language.boundOf_eq (e := .cast ty value) hform]
    refine (Render.yields_follow (htypes ty)).bind fun t ht => ?_
    refine (Render.yields_allowed (hname t ht)).bind fun name htext => ?_
    refine (Site.prints_operand hv form .right).bind fun text hshows => .pure ?_
    obtain ⟨-, face, hface, -⟩ := htext
    exact .spaced (.grouped hface.weaken) hshows

theorem prints_newObject {t : Ty} (ht : t.isPlain = true) {args : List NodeId}
    (h : ∀ arg ∈ args, site.Written arg) : site.Prints 0 (newObject typeName site t args) := by
  refine (Render.yields_allowed (hname t ht)).bind fun name htext => ?_
  refine (Site.yields_args h).bind fun list ⟨face, hface⟩ => .pure ?_
  have hall : Shows site.lang 0 ("new " ++ (name ++ parenthesized list)) :=
    .constructed (.typed_call htext hface)
  simpa [String.append_assoc] using hall

omit hname in
/-- Sizes, each in brackets of its own. -/
theorem neat_sizes {sizes : List String}
    (h : ∀ size ∈ sizes, ∃ face, Neat AroundCode size.toList face) :
    Neat AroundCode (String.join (sizes.map fun size => "[" ++ size ++ "]")).toList
      (sizes.flatMap fun _ => ['[', ']']) := by
  induction sizes with
  | nil => exact .nil
  | cons size rest ih =>
    obtain ⟨face, hface⟩ := h size (by simp)
    have hrest := ih fun size hsize => h size (List.mem_cons_of_mem _ hsize)
    rw [List.map_cons, String.join_cons, String.toList_append, List.flatMap_cons]
    exact (Neat.inSquares hface).append_of_head hrest (by cases rest <;> simp)

omit hname in
theorem prints_newArrayOf {item : String} (hitem : TypeText item) {dims : List NodeId}
    (hne : dims ≠ []) (h : ∀ dim ∈ dims, site.Written dim) :
    site.Prints 0 (newArrayOf site item dims) := by
  refine (Yields.mapM_length fun dim hdim => (h dim hdim).neat).bind fun sizes hsizes => .pure ?_
  obtain ⟨size, rest, rfl⟩ : ∃ size rest, sizes = size :: rest := by
    refine List.exists_cons_of_ne_nil fun hnil => hne ?_
    simpa [hnil] using hsizes.1.symm
  have hneat := neat_sizes hsizes.2
  have hall : Shows site.lang 0
      (item ++ String.join ((size :: rest).map fun size => "[" ++ size ++ "]")) :=
    .ofTypeText hitem hneat (by simp) (by simp) (by simp)
      (List.any_eq_true.2 ⟨'[', by simp, by decide⟩)
  simpa [String.append_assoc] using hall.constructed

end Braced

/-! ## Java -/

namespace Java

variable {site : Site} {id left right : NodeId}

theorem prints_binary (op : BinaryOp) (hl : site.Written left) (hr : site.Written right) :
    site.Prints (site.lang.boundOf (.binary op left right)) (binaryExpr site op left right) := by
  have hcall : ∀ name, TypeText name → site.Prints 0 (binaryExpr.call site left right name) := by
    intro name hname
    refine hl.neat.bind fun leftText hleft => hr.neat.bind fun rightText hright => .pure ?_
    obtain ⟨face, hface⟩ : ∃ face, Neat AroundCode (commas [leftText, rightText]).toList face :=
      Neat.commas (by simp [hleft, hright])
    exact .typed_call hname hface
  unfold binaryExpr
  split
  · exact (hcall "Math.pow" (.path (by decide))).mono (Nat.zero_le _)
  · exact (hcall "Math.floorDiv" (.path (by decide))).mono (Nat.zero_le _)
  · exact Site.prints_binary op hl hr

/-- An array of the items in braces. -/
theorem shows_filled {lang : Language} {item list : String} {face : List Char}
    (hitem : TypeText item) (hlist : Neat AroundCode list.toList face) :
    Shows lang 0 ("new " ++ item ++ "[] " ++ inBraces list) := by
  have hempty : Neat AroundCode ("[" ++ "" ++ "]").toList ['[', ']'] := .inSquares .nil
  have hname : Shows lang 0 (item ++ "[]") :=
    .ofTypeText hitem hempty (by decide) (by decide) (by decide) (by decide)
  have hall := (hname.spaced (.braced hlist)).constructed
  have htext : "new " ++ item ++ "[] " ++ inBraces list =
      "new " ++ (item ++ "[]" ++ " " ++ inBraces list) := by
    simp [← String.toList_inj]
  rw [htext]
  exact hall

/-- A container made of what is in the parentheses. -/
theorem shows_container {lang : Language} {text name inner : String} {face : List Char}
    (hname : Text.isPath name = true) (hinner : Neat AroundCode inner.toList face)
    (htext : text = "new " ++ (name ++ "<" ++ "" ++ ">" ++ parenthesized inner)) :
    Shows lang 0 text := by
  rw [htext]
  exact .constructed (.typed_call (.angle name hname ⟨by decide, [], .nil⟩) hinner)

/-- A container of items, which a call lists. -/
theorem shows_listed {lang : Language} {text name call list : String} {face : List Char}
    (hname : Text.isPath name = true) (hcall : Text.isPath call = true)
    (hlist : Neat AroundCode list.toList face)
    (htext : text = "new " ++ (name ++ "<" ++ "" ++ ">" ++
      parenthesized (call ++ parenthesized list))) : Shows lang 0 text := by
  have hitems : Shows lang 0 (call ++ parenthesized list) := .typed_call (.path hcall) hlist
  obtain ⟨face, hface⟩ := hitems.neat
  exact shows_container hname hface htext

theorem prints_collection (id : NodeId) (htypes : site.arena.TypesPlain)
    (kind : CollectionKind) {items : List NodeId} (h : ∀ item ∈ items, site.Written item) :
    site.Prints 0 (collection site id kind items) := by
  refine (Site.yields_args h).bind fun list ⟨face, hlist⟩ => ?_
  have hempty : Neat AroundCode "".toList [] := .nil
  cases kind with
  | array =>
    have hfilled : ∀ item, TypeText item →
        site.Prints 0 (pure ("new " ++ item ++ "[] " ++ inBraces list)) :=
      fun item hitem => .pure (shows_filled hitem hlist)
    have hobject : TypeText "Object" := .path (by decide)
    refine (Render.yields_infer (Infer.yields_exprTo htypes _ id)).bind fun ty hty => ?_
    cases ty with
    | array item =>
      dsimp only
      split
      · exact (Render.yields_allowed (typeName_text item hty)).bind hfilled
      · exact hfilled _ hobject
    | _ => exact hfilled _ hobject
  | list =>
    refine .pure ?_
    split
    · exact shows_container (by decide : Text.isPath "ArrayList" = true) hempty (by decide)
    · exact shows_listed (by decide : Text.isPath "ArrayList" = true)
        (by decide : Text.isPath "List.of" = true) hlist
        (by simp [← String.toList_inj, parenthesized])
  | set =>
    refine .pure ?_
    split
    · exact shows_container (by decide : Text.isPath "HashSet" = true) hempty (by decide)
    · exact shows_listed (by decide : Text.isPath "HashSet" = true)
        (by decide : Text.isPath "Set.of" = true) hlist
        (by simp [← String.toList_inj, parenthesized])
  | tuple =>
    have hcall : Shows site.lang 0 ("List.of" ++ parenthesized list) :=
      .typed_call (.path (by decide)) hlist
    refine .pure ?_
    simpa [parenthesized, ← String.append_assoc] using hcall

theorem prints_dict (id : NodeId) {entries : List (NodeId × NodeId)}
    (h : ∀ entry ∈ entries, site.Written entry.1 ∧ site.Written entry.2) :
    site.Prints 0 (dict site id entries) := by
  unfold dict
  split
  · have hempty : Neat AroundCode "".toList [] := .nil
    exact .pure (shows_container (by decide : Text.isPath "HashMap" = true) hempty
      (by decide))
  · have hentry : ∀ entry ∈ entries, Yields Scope.Plain (do
        let keyText ← site.below entry.1
        let valueText ← site.below entry.2
        return [keyText, valueText]) fun texts =>
          ∀ text ∈ texts, ∃ face, Neat AroundCode text.toList face := by
      intro entry hentry
      refine (h entry hentry).1.neat.bind fun keyText hkey => ?_
      exact (h entry hentry).2.neat.bind fun valueText hvalue => .pure (by simp [hkey, hvalue])
    refine (Yields.mapM hentry).bind fun list hlist => .pure ?_
    obtain ⟨face, hface⟩ : ∃ face, Neat AroundCode (commas list.flatten).toList face := by
      refine Neat.commas fun text htext => ?_
      obtain ⟨texts, htexts, hmem⟩ := List.mem_flatten.1 htext
      exact hlist texts htexts text hmem
    exact shows_listed (by decide : Text.isPath "HashMap" = true)
      (by decide : Text.isPath "Map.of" = true) hface
      (by simp [← String.toList_inj, parenthesized])

/-- An interpolated string that is a single literal, or empty, is written as a literal. -/
theorem prints_interpolated {parts : List NodeId}
    (hparts : parts = [] ∨ ∃ part value kind, parts = [part] ∧
      site.arena.expr part = .ok (.str value kind)) (h : ∀ part ∈ parts, site.Written part) :
    site.Prints 0 (interpolated site parts) := by
  rcases hparts with rfl | ⟨part, value, kind, rfl, hpart⟩
  · have hquote : Shows site.lang 0 (Text.quote "") := .quote ""
    exact .pure (by simpa using hquote)
  · have hled : startsWithString site [part] = pure true := by
      change (liftM (site.arena.expr part) >>= fun e => _) = _
      rw [hpart]
      rfl
    unfold interpolated
    rw [hled, pure_bind]
    simp only [List.mapIdx_cons, List.mapIdx_nil, List.mapM_cons, List.mapM_nil, bind_assoc,
      pure_bind]
    have hoperand : site.Prints 0 (site.operand (.between "+" addLevel .left) part .left) :=
      Site.prints_operand_self (h part (by simp)) hpart _ .left
    exact hoperand.bind fun text htext => .pure (by simpa using htext)

theorem prints_newArray {t : Ty} (ht : t.isPlain = true) {dims : List NodeId}
    {init : Option NodeId} (hne : dims = [] → init ≠ none)
    (hdims : ∀ dim ∈ dims, site.Written dim) (hinit : ∀ list ∈ init, site.Written list)
    (hitems : ∀ list ∈ init, ∀ kind items, site.arena.expr list = .ok (.collection kind items) →
      ∀ item ∈ items, site.Written item) :
    site.Prints 0 (newArray site t dims init) := by
  refine (Render.yields_allowed (typeName_text t ht)).bind fun item hitem => ?_
  cases init with
  | none => exact Braced.prints_newArrayOf hitem (fun hnil => hne hnil rfl) hdims
  | some list =>
    have hfilled : ∀ text, (∃ face, Neat AroundCode text.toList face) →
        site.Prints 0 (pure ("new " ++ item ++ "[] " ++ inBraces text)) :=
      fun text ⟨face, htext⟩ => .pure (shows_filled hitem htext)
    refine (Render.yields_follow fun e he => he).bind fun e he => ?_
    cases e with
    | collection kind items => exact (Site.yields_args (hitems list rfl kind items he)).bind hfilled
    | _ => exact (hinit list rfl).neat.bind hfilled

end Java

/-! ## C++ -/

namespace Cpp

variable {site : Site} {id left right : NodeId}

theorem prints_binary (hlang : site.lang = .cpp) (op : BinaryOp) (hl : site.Written left)
    (hr : site.Written right) :
    site.Prints (site.lang.boundOf (.binary op left right)) (binaryExpr site op left right) := by
  unfold binaryExpr
  split
  · refine hl.neat.bind fun leftText hleft => hr.neat.bind fun rightText hright => .pure ?_
    obtain ⟨face, hface⟩ : ∃ face, Neat AroundCode (commas [leftText, rightText]).toList face :=
      Neat.commas (by simp [hleft, hright])
    exact .typed_call (.path (by decide)) hface
  · have hform : OperatorForm.between "/" mulLevel .left ∈ site.lang.infixes := by
      rw [hlang]
      decide
    refine (Site.prints_between hform hl hr).bind fun text htext => .pure ?_
    obtain ⟨face, hface⟩ := htext.neat
    have hint : Neat AroundCode "int".toList "int".toList := .weaken (.plain (by decide))
    exact Shows.called (.grouped hint) hface
  · exact Site.prints_binary op hl hr

theorem prints_typedInit (htypes : site.arena.TypesPlain) {list : String} {face : List Char}
    (hlist : Neat AroundCode list.toList face) : site.Prints 0 (typedInit site id list) := by
  refine (Render.yields_infer (Infer.yields_exprTo htypes _ id)).bind fun ty hty => .pure ?_
  split
  · exact .typed_braces (typeName_text ty hty) hlist
  · simpa using Shows.braced hlist

theorem prints_collection (id : NodeId) (htypes : site.arena.TypesPlain)
    (kind : CollectionKind) {items : List NodeId} (h : ∀ item ∈ items, site.Written item) :
    site.Prints 0 (collection site id kind items) := by
  refine (Site.yields_args h).bind fun list ⟨face, hlist⟩ => ?_
  cases kind with
  | tuple => exact .pure (.typed_call (.path (by decide)) hlist)
  | list | array | set => exact prints_typedInit htypes hlist

theorem prints_dict (id : NodeId) (htypes : site.arena.TypesPlain)
    {entries : List (NodeId × NodeId)}
    (h : ∀ entry ∈ entries, site.Written entry.1 ∧ site.Written entry.2) :
    site.Prints 0 (dict site id entries) := by
  have hentry : ∀ entry ∈ entries, Yields Scope.Plain (do
      let keyText ← site.below entry.1
      let valueText ← site.below entry.2
      return inBraces (commas [keyText, valueText])) fun text =>
        ∃ face, Neat AroundCode text.toList face := by
    intro entry hentry
    refine (h entry hentry).1.neat.bind fun keyText hkey => ?_
    refine (h entry hentry).2.neat.bind fun valueText hvalue => .pure ?_
    obtain ⟨face, hface⟩ : ∃ face, Neat AroundCode (commas [keyText, valueText]).toList face :=
      Neat.commas (by simp [hkey, hvalue])
    exact ⟨_, .inBraces hface⟩
  refine (Yields.mapM hentry).bind fun list hlist => ?_
  obtain ⟨face, hface⟩ := Neat.commas hlist
  exact prints_typedInit htypes hface

theorem prints_interpolated {parts : List NodeId} (h : ∀ part ∈ parts, site.Written part) :
    site.Prints 0 (interpolated site parts) := by
  have hpart : ∀ part ∈ parts, Yields Scope.Plain (formatPart site part) fun rendered =>
      ∀ text ∈ rendered.2, ∃ face, Neat AroundCode text.toList face := by
    intro part hpart
    refine (Render.yields_follow fun e _ => trivial).bind fun e _ => ?_
    cases e with
    | str value kind => exact .pure nofun
    | _ => exact (h part hpart).neat.bind fun text htext => .pure (by simpa using htext)
  refine (Yields.mapM hpart).bind fun rendered hrendered => .pure ?_
  obtain ⟨face, hface⟩ : ∃ face, Neat AroundCode (commas (Text.quote
      (String.join (rendered.map Prod.fst)) :: rendered.filterMap Prod.snd)).toList face := by
    refine Neat.commas fun text htext => ?_
    rcases List.mem_cons.1 htext with rfl | htext
    · exact ⟨_, .weaken (.quote _)⟩
    · obtain ⟨pair, hpair, hsome⟩ := List.mem_filterMap.1 htext
      exact hrendered pair hpair text hsome
  exact .typed_call (.path (by decide)) hface

theorem prints_newArray {t : Ty} (ht : t.isPlain = true) {dims : List NodeId}
    {init : Option NodeId}
    (hne : dims = [] → ∃ list ∈ init, ∃ kind items,
      site.arena.expr list = .ok (.collection kind items))
    (hdims : ∀ dim ∈ dims, site.Written dim)
    (hitems : ∀ list ∈ init, ∀ kind items, site.arena.expr list = .ok (.collection kind items) →
      ∀ item ∈ items, site.Written item) :
    site.Prints 0 (newArray site t dims init) := by
  have hitem := typeName_text t ht
  unfold newArray
  cases init with
  | none =>
    refine Braced.prints_newArrayOf hitem (fun hnil => ?_) hdims
    obtain ⟨list, hlist, -⟩ := hne hnil
    cases hlist
  | some list =>
    refine (Render.yields_follow fun e he => he).bind fun e he => ?_
    cases e with
    | collection kind items =>
      refine (Site.yields_args (hitems list rfl kind items he)).bind fun text ⟨_, htext⟩ => .pure ?_
      have hnumber : Shows site.lang 0 (Text.count items.length) := .numeral items.length
      obtain ⟨_, hcount⟩ := hnumber.neat
      have hsize : Shows site.lang 0 (typeName t ++ ("[" ++ Text.count items.length ++ "]")) :=
        .ofTypeText hitem (.inSquares hcount) (by simp) (by decide) (by decide) (by decide)
      have hall := hsize.marked (.inBraces htext) (Shows.head?_inBraces text) (by decide)
        (by decide) (by decide)
      simpa [String.append_assoc] using hall.constructed
    | _ =>
      refine Braced.prints_newArrayOf hitem (fun hnil => ?_) hdims
      obtain ⟨list, hlist, kind, items, hcollection⟩ := hne hnil
      cases hlist
      cases he.symm.trans hcollection

end Cpp

end Interlingua
