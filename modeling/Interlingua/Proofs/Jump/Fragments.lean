import Interlingua.Proofs.Jump.Nesting
import Interlingua.Proofs.Lockstep.Printer
import Interlingua.Proofs.Surface.Types

/-!
# Printed text with its nesting

* `Fragment` — a printed text with its nesting: lines, jumps, and what is indented under a header.
  `Fragment.text` is what is printed, and `Fragment.jumps` are the jumps in it, each with the
  constructs around it in the text.
* `Fragment.isHeaded` — a header starts like those of the construct that it opens.
* `View.canWrite` — the language can write a printed jump where it stands.
* `Fits` — some fragments hold the jumps of a part of the tree, each in the same constructs as in
  the tree, and each jump that can be written does what it is there for.
* `Writes` — a printing that succeeds adds fragments that fit.  There is one rule for each step
  that statements are printed with.
-/

namespace Interlingua

/-! ## Fragments -/

/-- What a printed jump is there for. -/
inductive Cause where
  /-- A jump of the tree. -/
  | stmt (id : NodeId)
  /-- A construct has to be left here, and the language has no other way to say so. -/
  | exit (construct : NodeId)
  deriving DecidableEq, Repr

inductive Fragment where
  | line (text : String)
  | blank
  | jump (kind : JumpKind) (cause : Cause)
  /-- A header, and what is indented under it. -/
  | nest (nesting : Nesting) (header : List String) (inner : List Fragment)

/-- A jump in a text. -/
structure PrintedJump where
  kind : JumpKind
  cause : Cause
  /-- The constructs around it in the text. -/
  around : List Construct

/-- How a language writes a jump. -/
def Language.jumpText (lang : Language) (kind : JumpKind) : String :=
  match lang, kind with
  | .python, .leave => "break"
  | .python, .next => "continue"
  | _, .leave => "break;"
  | _, .next => "continue;"

/-- Java and C++ write jumps alike. -/
theorem Language.jumpText_of_ne {lang : Language} (h : lang ≠ .python) (kind : JumpKind) :
    lang.jumpText kind = Language.java.jumpText kind := by
  cases lang with
  | java => rfl
  | cpp => cases kind <;> rfl
  | python => exact absurd rfl h

/-- What the header of something nested starts with.  The signature of a definition starts with
what the program chooses. -/
def Nesting.openings (lang : Language) : Nesting → List String
  | .plain =>
    if lang = .python then ["if ", "elif ", "else", "case "]
    else ["\x7b", "if (", "else", "\x7d else", "case ", "default:"]
  | .loop _ => if lang = .python then ["while ", "for "] else ["while (", "for (", "do"]
  | .switch _ => if lang = .python then ["match "] else ["switch ("]
  | .definition => if lang = .python then ["def ", "class "] else [""]

@[simp] theorem Nesting.openings_plain (lang : Language) :
    Nesting.plain.openings lang = if lang = .python then ["if ", "elif ", "else", "case "]
      else ["\x7b", "if (", "else", "\x7d else", "case ", "default:"] := rfl

@[simp] theorem Nesting.openings_loop (id : NodeId) (lang : Language) :
    (Nesting.loop id).openings lang =
      if lang = .python then ["while ", "for "] else ["while (", "for (", "do"] := rfl

@[simp] theorem Nesting.openings_switch (id : NodeId) (lang : Language) :
    (Nesting.switch id).openings lang =
      if lang = .python then ["match "] else ["switch ("] := rfl

@[simp] theorem Nesting.openings_definition (lang : Language) :
    Nesting.definition.openings lang =
      if lang = .python then ["def ", "class "] else [""] := rfl

/-- Whether a line opens something nested. -/
def Nesting.isOpenedBy (nesting : Nesting) (lang : Language) (line : String) : Bool :=
  (nesting.openings lang).any fun opening => opening.toList.isPrefixOf line.toList

theorem Nesting.isOpenedBy_append {nesting : Nesting} {lang : Language} {opening : String}
    (h : opening ∈ nesting.openings lang) (rest : String) :
    nesting.isOpenedBy lang (opening ++ rest) = true := by
  refine List.any_eq_true.2 ⟨opening, h, ?_⟩
  rw [List.isPrefixOf_iff_prefix, String.toList_append]
  exact List.prefix_append _ _

namespace Fragment

/-- A line with its indentation. -/
def indented (width level : Nat) (text : String) : String :=
  String.ofList (List.replicate (level * width) ' ') ++ text ++ "\n"

mutual
/-- What is printed. -/
def text (lang : Language) (width level : Nat) : Fragment → String
  | .line text => indented width level text
  | .blank => "\n"
  | .jump kind _ => indented width level (lang.jumpText kind)
  | .nest _ header inner =>
    String.join (header.map (indented width level)) ++ textAll lang width (level + 1) inner

def textAll (lang : Language) (width level : Nat) : List Fragment → String
  | [] => ""
  | fragment :: rest => fragment.text lang width level ++ textAll lang width level rest
end

mutual
/-- The jumps in the text. -/
def jumps (around : List Construct) : Fragment → List PrintedJump
  | .line _ | .blank => []
  | .jump kind cause => [⟨kind, cause, around⟩]
  | .nest nesting _ inner => jumpsAll (nesting.inside around) inner

def jumpsAll (around : List Construct) : List Fragment → List PrintedJump
  | [] => []
  | fragment :: rest => fragment.jumps around ++ jumpsAll around rest
end

mutual
/-- Whether every header opens what is nested under it. -/
def isHeaded (lang : Language) : Fragment → Bool
  | .line _ | .blank | .jump _ _ => true
  | .nest nesting header inner => header.head?.any (nesting.isOpenedBy lang) && allHeaded lang inner

def allHeaded (lang : Language) : List Fragment → Bool
  | [] => true
  | fragment :: rest => fragment.isHeaded lang && allHeaded lang rest
end

variable {lang : Language} {width level : Nat} {around : List Construct}

theorem text_line (text : String) :
    (line text).text lang width level = indented width level text := rfl

theorem text_jump (kind : JumpKind) (cause : Cause) :
    (jump kind cause).text lang width level = indented width level (lang.jumpText kind) := rfl

theorem textAll_singleton (fragment : Fragment) :
    textAll lang width level [fragment] = fragment.text lang width level :=
  String.append_empty

theorem jumps_jump (kind : JumpKind) (cause : Cause) :
    (jump kind cause).jumps around = [⟨kind, cause, around⟩] := rfl

theorem jumpsAll_singleton (fragment : Fragment) :
    jumpsAll around [fragment] = fragment.jumps around :=
  List.append_nil _

theorem textAll_append (fragments more : List Fragment) :
    textAll lang width level (fragments ++ more) =
      textAll lang width level fragments ++ textAll lang width level more := by
  induction fragments with
  | nil => exact String.empty_append.symm
  | cons fragment rest ih => rw [List.cons_append, textAll, textAll, ih, String.append_assoc]

theorem jumpsAll_append (fragments more : List Fragment) :
    jumpsAll around (fragments ++ more) = jumpsAll around fragments ++ jumpsAll around more := by
  induction fragments with
  | nil => rfl
  | cons fragment rest ih => rw [List.cons_append, jumpsAll, jumpsAll, ih, List.append_assoc]

theorem allHeaded_append (fragments more : List Fragment) :
    allHeaded lang (fragments ++ more) = (allHeaded lang fragments && allHeaded lang more) := by
  induction fragments with
  | nil => rfl
  | cons fragment rest ih => rw [List.cons_append, allHeaded, allHeaded, ih, Bool.and_assoc]

end Fragment

/-! ## Fragments that hold the jumps of the tree -/

/-- What a printed jump is meant to concern. -/
def View.intended (view : View) (jump : PrintedJump) : Option NodeId :=
  match jump.cause with
  | .stmt id => (view.jump? id).bind (·.designated jump.around)
  | .exit construct => some construct

/-- Whether the language can write a jump where it stands: a jump of the tree has to be one that it
can express, and to leave something there has to be something around. -/
def View.canWrite (view : View) (jump : PrintedJump) : Bool :=
  match jump.cause with
  | .stmt id => (view.jump? id).all (view.lang.expresses · jump.around)
  | .exit _ => (view.lang.destination jump.kind jump.around).isSome

/-- The fragments hold the given jumps of the tree, in the same constructs, and each jump that can
be written concerns what it is meant to. -/
structure Fits (view : View) (around : List Construct) (found : Set Occurrence)
    (fragments : List Fragment) : Prop where
  headed : Fragment.allHeaded view.lang fragments = true
  jumps : ∀ kind id inner,
    ⟨kind, .stmt id, inner⟩ ∈ Fragment.jumpsAll around fragments ↔ ⟨kind, id, inner⟩ ∈ found
  kept : ∀ jump ∈ Fragment.jumpsAll around fragments, view.canWrite jump = true →
    view.lang.destination jump.kind jump.around = view.intended jump

namespace Fits

variable {view : View} {around : List Construct} {found other : Set Occurrence}
  {fragments more : List Fragment}

theorem nil : Fits view around ∅ [] where
  headed := rfl
  jumps _ _ _ := iff_of_false List.not_mem_nil (Set.notMem_empty _)
  kept _ hjump := by cases hjump

theorem append (h : Fits view around found fragments) (h' : Fits view around other more) :
    Fits view around (found ∪ other) (fragments ++ more) where
  headed := by rw [Fragment.allHeaded_append, h.headed, h'.headed, Bool.and_self]
  jumps kind id inner := by
    rw [Fragment.jumpsAll_append, List.mem_append, h.jumps, h'.jumps, Set.mem_union]
  kept jump hjump := by
    rw [Fragment.jumpsAll_append, List.mem_append] at hjump
    rcases hjump with hjump | hjump
    · exact h.kept jump hjump
    · exact h'.kept jump hjump

theorem line (text : String) : Fits view around ∅ [.line text] where
  headed := rfl
  jumps _ _ _ := iff_of_false List.not_mem_nil (Set.notMem_empty _)
  kept _ hjump := by cases hjump

theorem blank : Fits view around ∅ [.blank] where
  headed := rfl
  jumps _ _ _ := iff_of_false List.not_mem_nil (Set.notMem_empty _)
  kept _ hjump := by cases hjump

/-- A jump that leaves a construct. -/
theorem exit {construct : NodeId}
    (h : ∀ found ∈ view.lang.destination .leave around, found = construct) :
    Fits view around ∅ [.jump .leave (.exit construct)] where
  headed := rfl
  jumps _ _ _ := by simp [Fragment.jumpsAll_singleton, Fragment.jumps_jump]
  kept jump hjump := by
    rw [Fragment.jumpsAll_singleton, Fragment.jumps_jump, List.mem_singleton] at hjump
    obtain rfl := hjump
    intro hcan
    obtain ⟨found, hfound⟩ := Option.isSome_iff_exists.1 hcan
    obtain rfl := h found hfound
    exact hfound

/-- A jump of the tree. -/
theorem jump {id : NodeId} {jump : Jump} (hjump : view.jump? id = some jump)
    (h : view.lang.expresses jump around = true →
      view.lang.destination jump.kind around = jump.designated around) :
    Fits view around {⟨jump.kind, id, around⟩} [.jump jump.kind (.stmt id)] where
  headed := rfl
  jumps kind other inner := by
    simp [Fragment.jumpsAll_singleton, Fragment.jumps_jump]
  kept printed hprinted := by
    rw [Fragment.jumpsAll_singleton, Fragment.jumps_jump, List.mem_singleton] at hprinted
    obtain rfl := hprinted
    intro hcan
    have hexpresses : view.lang.expresses jump around = true := by
      simpa [View.canWrite, hjump] using hcan
    simp [h hexpresses, View.intended, hjump]

theorem nest {nesting : Nesting} {header : List String}
    (hheader : header.head?.any (nesting.isOpenedBy view.lang) = true)
    (h : Fits view (nesting.inside around) found fragments) :
    Fits view around found [.nest nesting header fragments] where
  headed := by simp [Fragment.allHeaded, Fragment.isHeaded, hheader, h.headed]
  jumps kind id inner := by
    rw [Fragment.jumpsAll_singleton]
    exact h.jumps kind id inner
  kept jump hjump := by
    rw [Fragment.jumpsAll_singleton] at hjump
    exact h.kept jump hjump

end Fits

/-! ## Printing fragments -/

/-- Nothing is asked of the state, nor of the result. -/
theorem Yields.any {ε σ α : Type} (action : EStateM ε σ α) :
    Yields (fun _ => True) action fun _ => True :=
  fun _ _ _ _ _ => ⟨trivial, trivial⟩

/-- A computation that neither prints nor enters a loop. -/
def Emit.Silent {α : Type} (action : Emit α) : Prop :=
  ∀ before value after, action before = .ok value after →
    after.page = before.page ∧ after.loops = before.loops

/-- The lines of a header. -/
def Emit.Spells (head : Emit Unit) (header : List String) : Prop :=
  ∀ printer : Printer, head printer =
    .ok () { printer with page := header.foldl Page.writeLine printer.page }

theorem Page.foldl_writeLine (texts : List String) (page : Page) :
    texts.foldl writeLine page =
      page.write (String.join (texts.map (Fragment.indented page.width page.level))) := by
  induction texts generalizing page with
  | nil => simp [write]
  | cons text rest ih =>
    rw [List.foldl_cons, ih, List.map_cons, String.join_cons]
    simp [writeLine, write, margin, Fragment.indented, String.append_assoc]

/-- Inside some loops, and some constructs of the tree, a printing that succeeds adds fragments at
the level at hand or deeper, and they fit. -/
def Writes {α : Type} (view : View) (loops : List NodeId) (around : List Construct) (deep : Nat)
    (action : Emit α) (found : Set Occurrence) : Prop :=
  ∀ before value after, before.loops.map Loop.id = loops → action before = .ok value after →
    after.loops = before.loops ∧ ∃ fragments, Fits view around found fragments ∧
      after.page = before.page.write (Fragment.textAll view.lang before.page.width
        (before.page.level + deep) fragments)

namespace Emit.Silent

variable {α β : Type}

protected theorem pure (a : α) : Silent (pure a) := by
  intro before value after hrun
  cases hrun
  exact ⟨rfl, rfl⟩

protected theorem throw (error : EmitError) : Silent (throw error : Emit α) := by
  intro before value after hrun
  cases hrun

theorem render (action : Render α) : Silent (liftM action : Emit α) := by
  intro before value after hrun
  rw [Tie.run_liftM_render] at hrun
  split at hrun
  · cases hrun
    exact ⟨rfl, rfl⟩
  · cases hrun

theorem bind {action : Emit α} {next : α → Emit β} (h : Silent action)
    (hnext : ∀ a, Silent (next a)) : Silent (action >>= next) := by
  intro before value after hrun
  obtain ⟨a, between, haction, hrest⟩ := exists_of_bind hrun
  obtain ⟨hpage, hloops⟩ := h before a between haction
  obtain ⟨hpage', hloops'⟩ := hnext a between value after hrest
  exact ⟨hpage'.trans hpage, hloops'.trans hloops⟩

theorem enter : Silent Emit.enter := by
  intro before value after hrun
  cases hrun
  exact ⟨rfl, rfl⟩

theorem setVariable (name : String) (ty : Ty) : Silent (Emit.setVariable name ty) := by
  intro before value after hrun
  cases hrun
  exact ⟨rfl, rfl⟩

theorem leave : Silent Emit.leave := by
  intro before value after hrun
  have hget : (get : Emit Printer) before = .ok before before := rfl
  rw [Emit.leave, bind_of_ok hget] at hrun
  cases hleave : before.scope.leave true with
  | error error =>
    rw [hleave] at hrun
    cases hrun
  | ok scope =>
    rw [hleave] at hrun
    cases hrun
    exact ⟨rfl, rfl⟩

end Emit.Silent

/-- What is printed between indentation and dedentation starts on an indented page, and what it
writes there stays. -/
theorem Emit.exists_of_indented {inside : Emit Unit} {before after : Printer} {value : Unit}
    (hrun : (do Emit.indent; inside; Emit.dedent : Emit Unit) before = .ok value after) :
    ∃ between, inside { before with page := before.page.indent } = .ok () between ∧
      ∀ text, between.page = before.page.indent.write text →
        after = { between with page := before.page.write text } := by
  have hindent : Emit.indent before = .ok () { before with page := before.page.indent } := rfl
  rw [bind_of_ok hindent] at hrun
  obtain ⟨_, between, hinside, hdedent⟩ := exists_of_bind hrun
  refine ⟨between, hinside, fun text hpage => ?_⟩
  have hback : between.page.dedent? = some (before.page.write text) := by
    rw [hpage]
    rfl
  have hget : (get : Emit Printer) between = .ok between between := rfl
  rw [Emit.dedent, bind_of_ok hget, hback] at hdedent
  cases hdedent
  rfl

namespace Writes

variable {α β : Type} {view : View} {loops : List NodeId} {around : List Construct} {deep : Nat}
  {action : Emit α} {next : α → Emit β} {found other : Set Occurrence}

theorem congr (h : Writes view loops around deep action found) (heq : found = other) :
    Writes view loops around deep action other :=
  heq ▸ h

protected theorem throw (error : EmitError) :
    Writes view loops around deep (throw error : Emit α) found := by
  intro before value after _ hrun
  cases hrun

/-- What prints nothing. -/
theorem silent (h : Emit.Silent action) : Writes view loops around deep action ∅ := by
  intro before value after _ hrun
  obtain ⟨hpage, hloops⟩ := h before value after hrun
  refine ⟨hloops, [], .nil, ?_⟩
  simp [hpage, Fragment.textAll, Page.write]

/-- One printing after another. -/
theorem bind (h : Writes view loops around deep action found)
    (hnext : ∀ a, Writes view loops around deep (next a) other) :
    Writes view loops around deep (action >>= next) (found ∪ other) := by
  intro before value after hloops hrun
  obtain ⟨a, between, haction, hrest⟩ := exists_of_bind hrun
  obtain ⟨hbetween, fragments, hfits, hpage⟩ :=
    h before a between hloops haction
  obtain ⟨hafter, more, hmore, hpage'⟩ :=
    hnext a between value after (hbetween ▸ hloops) hrest
  refine ⟨hafter.trans hbetween, fragments ++ more, hfits.append hmore, ?_⟩
  rw [hpage', hpage, Fragment.textAll_append]
  simp [Page.write, String.append_assoc]

/-- A printing after what prints nothing. -/
theorem after (h : Emit.Silent action) (hnext : ∀ a, Writes view loops around deep (next a) found) :
    Writes view loops around deep (action >>= next) found :=
  ((silent h).bind hnext).congr (Set.empty_union found)

/-- What prints nothing after a printing. -/
theorem before (h : Writes view loops around deep action found)
    (hnext : ∀ a, Emit.Silent (next a)) : Writes view loops around deep (action >>= next) found :=
  (h.bind fun a => silent (hnext a)).congr (Set.union_empty found)

/-- Where a reference is followed, the result is what it refers to. -/
theorem follow {result : Except Fault α}
    (h : ∀ a, result = .ok a → Writes view loops around deep (next a) found) :
    Writes view loops around deep (Emit.follow result >>= next) found := by
  cases result with
  | error fault => exact .throw _
  | ok a => exact h a rfl

/-- What is rendered may be known to have a property. -/
theorem rendered {action : Render α} {post : α → Prop} (h : Yields (fun _ => True) action post)
    (hnext : ∀ a, post a → Writes view loops around deep (next a) found) :
    Writes view loops around deep (liftM action >>= next) found := by
  intro before value after hloops hrun
  obtain ⟨a, between, haction, hrest⟩ := exists_of_bind hrun
  have hpost : post a := by
    rw [Tie.run_liftM_render] at haction
    cases hresult : action before.scope with
    | error error scope => simp [hresult] at haction
    | ok b scope =>
      simp only [hresult, EStateM.Result.ok.injEq] at haction
      exact haction.1 ▸ (h _ _ _ trivial hresult).2
  obtain ⟨hpage, hsame⟩ := Emit.Silent.render action before a between haction
  rw [← hpage, ← hsame]
  exact hnext a hpost between value after (hsame ▸ hloops) hrest

/-- The loops around a statement may be looked up. -/
theorem lookUp {next : Printer → Emit β}
    (h : ∀ printer, printer.loops.map Loop.id = loops →
      Writes view loops around deep (next printer) found) :
    Writes view loops around deep (get >>= next) found := by
  intro before value after hloops hrun
  have hget : (get : Emit Printer) before = .ok before before := rfl
  rw [bind_of_ok hget] at hrun
  exact h before hloops before value after hloops hrun

theorem line (text : String) : Writes view loops around 0 (Emit.line text) ∅ := by
  intro before value after _ hrun
  cases hrun
  refine ⟨rfl, [.line text], .line text, ?_⟩
  simp [Fragment.textAll_singleton, Fragment.text_line, Fragment.indented, Page.writeLine,
    Page.margin]

theorem blankLine : Writes view loops around 0 Emit.blankLine ∅ := by
  intro before value after _ hrun
  cases hrun
  refine ⟨rfl, [.blank], .blank, ?_⟩
  rw [Fragment.textAll_singleton]
  rfl

/-- A line that leaves a construct. -/
theorem exit {construct : NodeId}
    (h : ∀ found ∈ view.lang.destination .leave around, found = construct) :
    Writes view loops around 0 (Emit.line (view.lang.jumpText .leave)) ∅ := by
  intro before value after _ hrun
  cases hrun
  refine ⟨rfl, _, .exit h, ?_⟩
  simp [Fragment.textAll_singleton, Fragment.text_jump, Fragment.indented, Page.writeLine,
    Page.margin]

/-- A jump of the tree. -/
theorem jump {id : NodeId} {jump : Jump} (hjump : view.jump? id = some jump)
    (h : view.lang.expresses jump around = true →
      view.lang.destination jump.kind around = jump.designated around) :
    Writes view loops around 0 (Emit.line (view.lang.jumpText jump.kind))
      {⟨jump.kind, id, around⟩} := by
  intro before value after _ hrun
  cases hrun
  refine ⟨rfl, _, .jump hjump h, ?_⟩
  simp [Fragment.textAll_singleton, Fragment.text_jump, Fragment.indented, Page.writeLine,
    Page.margin]

/-- A jump is its keyword. -/
theorem keyword {id : NodeId} {node : Node} {jump : Jump} (hnode : view.arena.node id = .ok node)
    (hjump : node.jump? = some jump) (hplain : view.lang ≠ .python ∨ jump.kind = .leave)
    {text : String} (htext : view.lang.jumpText jump.kind = text) :
    Writes view loops around 0 (Emit.line text) (view.jumps around id) := by
  have hself : view.jump? id = some jump := (View.jump?_eq hnode).trans hjump
  rw [View.jumps_of_jump hnode hjump, ← htext]
  refine .jump hself fun hexpressed => ?_
  unfold Language.expresses at hexpressed
  split at hexpressed
  · rename_i hpython hnext
    rcases hplain with hbraced | hleave
    · exact absurd hpython hbraced
    · rw [hleave] at hnext
      cases hnext
  · exact (of_decide_eq_true hexpressed).symm

/-! ## Several printings -/

section Several

variable {first second : Emit Unit}

theorem andThen (h : Writes view loops around deep first found)
    (h' : Writes view loops around deep second other) :
    Writes view loops around deep (do first; second) (found ∪ other) :=
  h.bind fun _ => h'

/-- A printing with a line after it. -/
theorem thenLine (h : Writes view loops around 0 first found) (text : String) :
    Writes view loops around 0 (do first; Emit.line text) found :=
  (h.andThen (line text)).congr (Set.union_empty found)

/-- A line before a printing. -/
theorem lineThen (text : String) (h : Writes view loops around 0 second found) :
    Writes view loops around 0 (do Emit.line text; second) found :=
  ((line text).andThen h).congr (Set.empty_union found)

/-- Items that hold no jumps. -/
theorem each {γ : Type} {f : γ → Emit Unit} (items : List γ)
    (h : ∀ item, Writes view loops around deep (f item) ∅) :
    Writes view loops around deep (items.forM f) ∅ := by
  induction items with
  | nil => exact silent (.pure ())
  | cons item rest ih => exact ((h item).andThen ih).congr (Set.empty_union ∅)

/-- Statements one after another. -/
theorem items {f : NodeId → Emit Unit} (items : List NodeId)
    (h : ∀ item ∈ items, Writes view loops around deep (f item) (view.jumps around item)) :
    Writes view loops around deep (items.forM f) (view.jumpsAll around items) := by
  induction items with
  | nil => exact (silent (.pure ())).congr View.jumpsAll_nil.symm
  | cons item rest ih =>
    refine ((h item (by simp)).andThen (ih fun item hitem => ?_)).congr
      (View.jumpsAll_cons item rest).symm
    exact h item (List.mem_cons_of_mem _ hitem)

end Several

/-! ## What is opened and closed -/

variable {inside head : Emit Unit}

/-- A frame that is opened is closed. -/
theorem framed (h : Writes view loops around deep inside found) :
    Writes view loops around deep (do Emit.enter; inside; Emit.leave) found :=
  .after .enter fun _ => h.before fun _ => .leave

/-- What is printed between indentation and dedentation is deeper. -/
theorem deeper (h : Writes view loops around 0 inside found) :
    Writes view loops around 1 (do Emit.indent; inside; Emit.dedent) found := by
  intro before value after hloops hrun
  obtain ⟨between, hinside, hafter⟩ := Emit.exists_of_indented hrun
  obtain ⟨hbetween, fragments, hfits, hpage⟩ :=
    h { before with page := before.page.indent } () between hloops hinside
  obtain rfl := hafter _ hpage
  exact ⟨hbetween, fragments, hfits, rfl⟩

/-- Inside a loop. -/
theorem inLoop {loop : Loop} (h : Writes view (loop.id :: loops) around deep inside found) :
    Writes view loops around deep (Emit.inLoop loop inside) found := by
  intro before value after hloops hrun
  obtain ⟨_, entered, hentered, hrest⟩ := exists_of_bind hrun
  cases hentered
  obtain ⟨_, between, hinside, hleft⟩ := exists_of_bind hrest
  cases hleft
  obtain ⟨hbetween, fragments, hfits, hpage⟩ := h _ _ between (by simp [hloops]) hinside
  exact ⟨by simp [hbetween], fragments, hfits, hpage⟩

/-- A header, and what is nested under it. -/
theorem nest {nesting : Nesting} {header : List String}
    (h : Writes view loops (nesting.inside around) 1 inside found)
    (hhead : Emit.Spells head header)
    (hheader : header.head?.any (nesting.isOpenedBy view.lang) = true) :
    Writes view loops around 0 (do head; inside) found := by
  intro before value after hloops hrun
  rw [bind_of_ok (hhead before)] at hrun
  obtain ⟨hafter, fragments, hfits, hpage⟩ := h
    { before with page := header.foldl Page.writeLine before.page } value after hloops hrun
  refine ⟨hafter, [.nest nesting header fragments], .nest hheader hfits, ?_⟩
  rw [hpage, Page.foldl_writeLine]
  rw [Fragment.textAll_singleton]
  simp [Fragment.text, Page.write, String.append_assoc]

/-- A header of one line. -/
theorem underLine {nesting : Nesting} {header : String}
    (h : Writes view loops (nesting.inside around) 1 inside found)
    (hheader : nesting.isOpenedBy view.lang header = true) :
    Writes view loops around 0 (do Emit.line header; inside) found := by
  have hhead : Emit.Spells (Emit.line header) [header] := fun _ => rfl
  exact h.nest hhead (by simpa using hheader)

/-! ## Programs -/

section Programs

variable {below : NodeId → Emit Unit}
  (hbelow : ∀ id, Writes view loops around 0 (below id) (view.jumps around id))
include hbelow

/-- Items with an empty line around each definition. -/
theorem spaced (previous : Option NodeId) (items : List NodeId) :
    Writes view loops around 0 (Emit.spaced view.arena below previous items)
      (view.jumpsAll around items) := by
  induction items generalizing previous with
  | nil => exact (silent (.pure ())).congr View.jumpsAll_nil.symm
  | cons item rest ih =>
    have hitem := ((hbelow item).andThen (ih (some item))).congr
      (View.jumpsAll_cons item rest).symm
    cases previous with
    | none => exact hitem
    | some previous =>
      refine .after (.render _) fun apart => ?_
      dsimp only
      split
      · exact (blankLine.andThen hitem).congr (Set.empty_union _)
      · exact hitem

theorem preamble (items : List NodeId) :
    Writes view loops around 0 (Emit.preamble below items) (view.jumpsAll around items) := by
  have hend :
      Writes view loops around 0 (if !items.isEmpty then Emit.blankLine else pure ()) ∅ := by
    split
    · exact blankLine
    · exact silent (.pure ())
  exact ((Writes.items items fun item _ => hbelow item).andThen hend).congr
    (Set.union_empty _)

omit hbelow in
theorem definitions {print : NodeId → Emit Unit} (items : List NodeId)
    (h : ∀ item ∈ items, Writes view loops around 0 (print item) (view.jumps around item)) :
    Writes view loops around 0 (Emit.definitions print items) (view.jumpsAll around items) :=
  .items items fun item hitem => ((h item hitem).andThen blankLine).congr (Set.union_empty _)

end Programs

end Writes

/-- The parts of a program hold its jumps: there are none before the definitions, and no jump of a
definition concerns what is around it. -/
structure Sections.HoldsJumps (sections : Sections) (view : View) (items : List NodeId) : Prop where
  preamble : ∀ around, view.jumpsAll around sections.preamble = ∅
  definitions : ∀ around,
    view.jumpsAll around sections.definitions = view.jumpsAll [] sections.definitions
  items : ∀ around, view.jumpsAll around items =
    view.jumpsAll around sections.definitions ∪ view.jumpsAll around sections.statements

theorem View.jumps_definition {view : View} {id : NodeId} {node : Node}
    (found : view.arena.node id = .ok node) (h : node.isDefinition = true)
    (around : List Construct) : view.jumps around id = view.jumps [] id := by
  cases node with
  | defn d =>
    cases d with
    | function decl body => rw [jumps_of_part found rfl rfl, jumps_of_part found rfl rfl]; rfl
    | classBody decl members => rw [jumps_of_part found rfl rfl, jumps_of_part found rfl rfl]; rfl
    | program items mainClass entryPoint => cases h
  | decl d => rw [jumps_of_none found rfl rfl, jumps_of_none found rfl rfl]
  | _ => cases h

theorem Sections.grants_ofItems (view : View) (items : List NodeId) :
    Grants (Sections.ofItems view.arena items) fun sections => sections.HoldsJumps view items := by
  induction items with
  | nil => exact .ok ⟨by simp, by simp, by simp⟩
  | cons item rest ih =>
    refine Grants.bind (fun node found => found) fun node found => ?_
    refine ih.bind fun sections hrest => ?_
    split
    · rename_i hpreamble
      have hitem : ∀ around, view.jumps around item = ∅ := by
        intro around
        cases node with
        | decl d => exact View.jumps_of_none found rfl rfl
        | _ => cases hpreamble
      refine .ok ⟨fun around => ?_, hrest.definitions, fun around => ?_⟩
      · rw [View.jumpsAll_cons, hitem, hrest.preamble, Set.empty_union]
      · rw [View.jumpsAll_cons, hitem, hrest.items, Set.empty_union]
    · split
      · rename_i hdefinition
        refine .ok ⟨hrest.preamble, fun around => ?_, fun around => ?_⟩
        · rw [View.jumpsAll_cons, View.jumpsAll_cons, hrest.definitions,
            View.jumps_definition found hdefinition]
        · rw [View.jumpsAll_cons, View.jumpsAll_cons, hrest.items, Set.union_assoc]
      · refine .ok ⟨hrest.preamble, hrest.definitions, fun around => ?_⟩
        rw [View.jumpsAll_cons, View.jumpsAll_cons, hrest.items, Set.union_left_comm]

end Interlingua
