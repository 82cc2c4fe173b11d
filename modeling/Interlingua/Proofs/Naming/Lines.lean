import Interlingua.Proofs.Emit.Rows
import Mathlib.Data.List.Basic

/-!
# Declared names, line by line

* `TracedLine` — a printed line, with the assignment that it is printed for.
* `TracedLine.visible` — the names that some lines declare in the brace scopes that are still open.
* `View.IsWritten` — a line spells the assignment that it is printed for.
* `View.IsExact` — the line of an assignment carries a type exactly if its name is not in sight.
* `View.Follows` — lines that are written and exact, one after another;
  `View.Follows.split` says so for each of them.
-/

namespace Interlingua

/-- What a line is printed for. -/
inductive Origin where
  /-- An assignment, written with a type: it declares its name. -/
  | typed (id : NodeId) (name : String)
  /-- An assignment, written without a type. -/
  | bare (id : NodeId)
  /-- What is around the assignments: headers, braces and the end of the entry point. -/
  | around
  deriving DecidableEq, Repr

/-- A printed line, and what it is printed for. -/
structure TracedLine where
  level : Nat
  text : String
  origin : Origin
  deriving DecidableEq, Repr

namespace TracedLine

def row (line : TracedLine) : Row := .line line.level line.text

/-- A line stands in the text of the lines. -/
theorem infix_textAll {line : TracedLine} {lines : List TracedLine} (width : Nat)
    (h : line ∈ lines) :
    line.text.toList <:+: (Row.textAll width (lines.map row)).toList := by
  obtain ⟨before, later, rfl⟩ := List.append_of_mem h
  refine ⟨(Row.textAll width (before.map row)).toList ++
    List.replicate (line.level * width) ' ', '\n' :: (Row.textAll width (later.map row)).toList, ?_⟩
  rw [List.map_append, List.map_cons, Row.textAll_append]
  simp [Row.textAll, String.join_cons, row, Row.text, Fragment.indented]

/-- The assignment that a line is printed for. -/
def assignment? (line : TracedLine) : Option NodeId :=
  match line.origin with
  | .typed id _ | .bare id => some id
  | .around => none

def isTyped (line : TracedLine) : Bool :=
  match line.origin with
  | .typed .. => true
  | .bare _ | .around => false

/-- The line starts with a closing brace. -/
def closes (line : TracedLine) : Bool := line.text.toList.head? = some '\x7d'

/-- The line ends with an opening brace. -/
def opens (line : TracedLine) : Bool := line.text.toList.getLast? = some '\x7b'

/-- The names declared in each brace scope that is open after a line, the innermost first. -/
def after (scopes : List (List String)) (line : TracedLine) : List (List String) :=
  match line.origin, scopes with
  | .typed _ name, names :: rest => (name :: names) :: rest
  | .typed .., [] | .bare _, _ => scopes
  | .around, _ =>
    let left := if line.closes then scopes.tail else scopes
    if line.opens then [] :: left else left

/-- The names declared in the brace scopes that are open after some lines. -/
def visible (lines : List TracedLine) : List String := (lines.foldl after [[]]).flatten

theorem origin_eq_around {line : TracedLine} (h : line.assignment? = none) :
    line.origin = .around := by
  unfold assignment? at h
  split at h
  · cases h
  · cases h
  · assumption

theorem origin_of_isTyped {line : TracedLine} (h : line.isTyped = true) :
    ∃ id name, line.origin = .typed id name := by
  unfold isTyped at h
  split at h
  · exact ⟨_, _, ‹_›⟩
  · cases h
  · cases h

section Scopes

variable {line : TracedLine} {lines : List TracedLine} {scopes : List (List String)} {name : String}

/-- What is in sight after a line was so before, or the line declares it. -/
theorem of_mem_after (h : name ∈ (line.after scopes).flatten) :
    name ∈ scopes.flatten ∨ ∃ id, line.origin = .typed id name := by
  have htail : ∀ {names : List (List String)}, name ∈ names.tail.flatten → name ∈ names.flatten := by
    intro names hname
    obtain ⟨inner, hinner, hname⟩ := List.mem_flatten.1 hname
    exact List.mem_flatten.2 ⟨inner, List.mem_of_mem_tail hinner, hname⟩
  unfold after at h
  split at h
  · rename_i horigin
    rw [List.flatten_cons, List.cons_append, List.mem_cons] at h
    rcases h with rfl | h
    · exact .inr ⟨_, horigin⟩
    · exact .inl h
  · exact .inl h
  · exact .inl h
  · dsimp only at h
    split at h <;> split at h
    · exact .inl (htail h)
    · exact .inl h
    · exact .inl (htail h)
    · exact .inl h

/-- **What is in sight was declared.** -/
theorem exists_typed_of_mem_visible (h : name ∈ visible lines) :
    ∃ line ∈ lines, ∃ id, line.origin = .typed id name := by
  have hscopes : ∀ scopes : List (List String), name ∈ (lines.foldl after scopes).flatten →
      name ∈ scopes.flatten ∨ ∃ line ∈ lines, ∃ id, line.origin = .typed id name := by
    clear h
    induction lines with
    | nil => exact fun _ h => .inl h
    | cons line rest ih =>
      intro scopes h
      rcases ih _ h with h | ⟨other, hother, htyped⟩
      · exact (of_mem_after h).imp_right fun htyped => ⟨line, by simp, htyped⟩
      · exact .inr ⟨other, List.mem_cons_of_mem _ hother, htyped⟩
  exact (hscopes [[]] h).resolve_left (by simp)

/-- The line of an assignment closes no brace scope. -/
theorem mem_after (h : line.assignment?.isSome = true) (hname : name ∈ scopes.flatten) :
    name ∈ (line.after scopes).flatten := by
  unfold assignment? at h
  unfold after
  split
  · rw [List.flatten_cons, List.cons_append]
    exact List.mem_cons_of_mem _ hname
  · exact hname
  · exact hname
  · rename_i horigin
    simp [horigin] at h

theorem mem_foldl_after (h : ∀ line ∈ lines, line.assignment?.isSome = true)
    (hname : name ∈ scopes.flatten) : name ∈ (lines.foldl after scopes).flatten := by
  induction lines generalizing scopes with
  | nil => exact hname
  | cons line rest ih =>
    obtain ⟨hline, hrest⟩ := List.forall_mem_cons.1 h
    exact ih hrest (mem_after hline hname)

theorem after_ne_nil (h : line.assignment?.isSome = true) (hscopes : scopes ≠ []) :
    line.after scopes ≠ [] := by
  unfold assignment? at h
  unfold after
  split
  · exact List.cons_ne_nil _ _
  · exact hscopes
  · exact hscopes
  · rename_i horigin
    simp [horigin] at h

/-- A line with a type declares its name. -/
theorem mem_after_of_typed {id : NodeId} (h : line.origin = .typed id name)
    (hscopes : scopes ≠ []) : name ∈ (line.after scopes).flatten := by
  obtain ⟨names, rest, rfl⟩ := List.exists_cons_of_ne_nil hscopes
  simp [after, h]

/-- A line around the assignments closes a brace scope, opens one, or does both. -/
theorem after_around (level : Nat) (text : String) :
    (mk level text .around).after scopes =
      (if text.toList.getLast? = some '\x7b' then [[]] else []) ++
        if text.toList.head? = some '\x7d' then scopes.tail else scopes := by
  simp only [after, closes, opens, decide_eq_true_eq]
  split <;> rfl

end Scopes

end TracedLine

namespace View

variable {view : View} {scopes mid last : List (List String)} {lines more : List TracedLine}
  {line : TracedLine} {names : List String}

/-- A statement is a plain assignment to a name. -/
def AssignsTo (view : View) (id : NodeId) (name : String) : Prop :=
  ∃ target value, view.arena.stmt id = .ok (.assign .plain target value) ∧
    view.arena.expr target = .ok (.ident name)

/-- A line spells the assignment that it is printed for. -/
def IsWritten (view : View) (line : TracedLine) : Prop :=
  match line.origin with
  | .typed id name => ∃ target value typeText valueText,
      view.arena.stmt id = .ok (.assign .plain target value) ∧
      view.arena.expr target = .ok (.ident name) ∧ view.Renders value valueText ∧
      line.text = typeText ++ " " ++ name ++ " = " ++ valueText ++ ";"
  | .bare id => ∃ op target value, view.arena.stmt id = .ok (.assign op target value) ∧
      ∀ name, op = .plain → view.arena.expr target = .ok (.ident name) →
        ∃ valueText, view.Renders value valueText ∧ (line.text = name ++ " = " ++ valueText ++ ";" ∨
          line.text = name ++ " = " ++ parenthesized valueText ++ ";")
  | .around => True

/-- A type is written before the name that is assigned. -/
theorem IsWritten.name_eq {id : NodeId} {declared name : String} (h : view.IsWritten line)
    (horigin : line.origin = .typed id declared) (hassigns : view.AssignsTo id name) :
    declared = name := by
  rw [IsWritten, horigin] at h
  obtain ⟨target, value, _, _, found, htarget, -⟩ := h
  obtain ⟨target', value', found', htarget'⟩ := hassigns
  cases found.symm.trans found'
  cases htarget.symm.trans htarget'
  rfl

/-- The line of an assignment to a name carries a type exactly if the name is not in sight. -/
def IsExact (view : View) (names : List String) (line : TracedLine) : Prop :=
  ∀ id name, line.assignment? = some id → view.AssignsTo id name →
    (line.isTyped = true ↔ name ∉ names)

/-- Lines one after another, each of them written and exact, and the brace scopes after them. -/
inductive Follows (view : View) :
    List (List String) → List TracedLine → List (List String) → Prop
  | nil {scopes : List (List String)} : Follows view scopes [] scopes
  | cons {scopes last : List (List String)} {line : TracedLine} {lines : List TracedLine}
      (written : view.IsWritten line) (exact : view.IsExact scopes.flatten line)
      (rest : Follows view (line.after scopes) lines last) : Follows view scopes (line :: lines) last

namespace Follows

theorem append (h : view.Follows scopes lines mid) (h' : view.Follows mid more last) :
    view.Follows scopes (lines ++ more) last := by
  induction h with
  | nil => exact h'
  | cons written exact _ ih => exact .cons written exact (ih h')

theorem single (written : view.IsWritten line) (exact : view.IsExact scopes.flatten line) :
    view.Follows scopes [line] (line.after scopes) :=
  .cons written exact .nil

theorem last_eq (h : view.Follows scopes lines last) : last = lines.foldl TracedLine.after scopes := by
  induction h with
  | nil => rfl
  | cons _ _ _ ih => exact ih

theorem written (h : view.Follows scopes lines last) : ∀ line ∈ lines, view.IsWritten line := by
  induction h with
  | nil => simp
  | cons written _ _ ih => exact List.forall_mem_cons.2 ⟨written, ih⟩

/-- Lines that follow each other do so up to each of them and from there on. -/
theorem split (h : view.Follows scopes (lines ++ line :: more) last) :
    view.Follows scopes lines (lines.foldl TracedLine.after scopes) ∧
      view.IsExact (lines.foldl TracedLine.after scopes).flatten line ∧
      view.Follows (line.after (lines.foldl TracedLine.after scopes)) more last := by
  induction lines generalizing scopes with
  | nil =>
    cases h with
    | cons _ exact rest => exact ⟨.nil, exact, rest⟩
  | cons first lines ih =>
    cases h with
    | cons written exact rest =>
      obtain ⟨hfirst, hline, hmore⟩ := ih rest
      exact ⟨.cons written exact hfirst, hline, hmore⟩

/-- Among lines of assignments, the target of a plain one is in sight from its line on. -/
theorem mem_flatten {id : NodeId} {name : String} (h : view.Follows scopes lines last)
    (hscopes : scopes ≠ []) (hlines : ∀ line ∈ lines, line.assignment?.isSome = true)
    (hline : line ∈ lines) (hid : line.assignment? = some id) (hassigns : view.AssignsTo id name) :
    name ∈ last.flatten := by
  induction h with
  | nil => cases hline
  | @cons scopes last first lines written exact rest ih =>
    obtain ⟨hfirst, hrest⟩ := List.forall_mem_cons.1 hlines
    rcases List.mem_cons.1 hline with rfl | hline
    · rw [rest.last_eq]
      refine TracedLine.mem_foldl_after hrest ?_
      by_cases hseen : name ∈ scopes.flatten
      · exact TracedLine.mem_after hfirst hseen
      · -- the name is not in sight, so the line carries a type, and the name is that of the target
        have htyped := (exact id name hid hassigns).2 hseen
        obtain ⟨id', declared, horigin⟩ := TracedLine.origin_of_isTyped htyped
        rw [TracedLine.assignment?, horigin, Option.some.injEq] at hid
        subst hid
        obtain rfl := written.name_eq horigin hassigns
        exact TracedLine.mem_after_of_typed horigin hscopes
    · exact ih (TracedLine.after_ne_nil hfirst hscopes) hrest hline

end Follows

/-! ## Rows of some assignments -/

/-- Rows that are the lines of some assignments and what is around them. -/
def Prints (view : View) (ids : List NodeId) (scopes last : List (List String)) (rows : List Row) :
    Prop :=
  ∃ lines, rows = lines.map TracedLine.row ∧ lines.filterMap TracedLine.assignment? = ids ∧
    view.Follows scopes lines last

namespace Prints

variable {ids others : List NodeId} {rows rest : List Row} {level : Nat} {text header : String}

theorem nil : view.Prints [] scopes scopes [] := ⟨[], rfl, rfl, .nil⟩

theorem append (h : view.Prints ids scopes mid rows) (h' : view.Prints others mid last rest) :
    view.Prints (ids ++ others) scopes last (rows ++ rest) := by
  obtain ⟨lines, rfl, rfl, hlines⟩ := h
  obtain ⟨more, rfl, rfl, hmore⟩ := h'
  exact ⟨lines ++ more, by simp, by simp, hlines.append hmore⟩

/-- Rows around the assignments, and what follows. -/
theorem after (h : view.Prints [] scopes mid rows) (h' : view.Prints ids mid last rest) :
    view.Prints ids scopes last (rows ++ rest) :=
  h.append h'

/-- A line around the assignments. -/
theorem around (level : Nat) (text : String)
    (hlast : (TracedLine.mk level text .around).after scopes = last) :
    view.Prints [] scopes last [.line level text] := by
  refine ⟨[⟨level, text, .around⟩], rfl, rfl, ?_⟩
  rw [← hlast]
  exact .single trivial nofun

/-- A line that is neither the start nor the end of a brace scope. -/
theorem flat (hclose : text.toList.head? ≠ some '\x7d') (hopen : text.toList.getLast? ≠ some '\x7b') :
    view.Prints [] scopes scopes [.line level text] :=
  around level text (by simp [TracedLine.after_around, hclose, hopen])

/-- A line that opens a brace scope. -/
theorem opening (hclose : header.toList.head? ≠ some '\x7d')
    (hopen : header.toList.getLast? = some '\x7b') :
    view.Prints [] scopes ([] :: scopes) [.line level header] :=
  around level header (by simp [TracedLine.after_around, hclose, hopen])

/-- A line that closes a brace scope. -/
theorem closing (hclose : text.toList.head? = some '\x7d')
    (hopen : text.toList.getLast? ≠ some '\x7b') :
    view.Prints [] (names :: scopes) scopes [.line level text] :=
  around level text (by simp [TracedLine.after_around, hclose, hopen])

/-- A line that closes a brace scope and opens the next one. -/
theorem turning (hclose : text.toList.head? = some '\x7d')
    (hopen : text.toList.getLast? = some '\x7b') :
    view.Prints [] (names :: scopes) ([] :: scopes) [.line level text] :=
  around level text (by simp [TracedLine.after_around, hclose, hopen])

end Prints

end View

end Interlingua
