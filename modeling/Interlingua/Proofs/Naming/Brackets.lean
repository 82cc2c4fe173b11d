import Interlingua.Proofs.Jump.Braced
import Interlingua.Proofs.Naming.Printing

/-!
# Printed braces

Java and C++ print what a statement holds in braces, and deeper than the statement.

* `Row.isFrom` — a row is at a level or deeper.
* `Row.Bracketed` — all that is at a level opens or closes a brace, and what is deeper is in one.
* `Writes.adds` — nested fragments are rows from a level on.
* `Emit.Brackets` — a printing that adds such rows.  There is one lemma for each statement and each
  definition with braces.
-/

namespace Interlingua

/-! ## Rows -/

namespace Row

/-- A row is at a level or deeper.  An empty one is at no level. -/
def isFrom (level : Nat) : Row → Bool
  | .blank => true
  | .line own _ => level ≤ own

theorem isFrom_of_le {level deeper : Nat} (h : level ≤ deeper) {row : Row}
    (hrow : row.isFrom deeper = true) : row.isFrom level = true := by
  cases row with
  | blank => rfl
  | line own text => exact decide_eq_true (h.trans (of_decide_eq_true hrow))

/-- Rows where all that is at the level opens or closes a brace: what is deeper follows a header
with an opening brace. -/
inductive Bracketed (level : Nat) : List Row → Prop
  | nil : Bracketed level []
  | blank {rest : List Row} (h : Bracketed level rest) : Bracketed level (.blank :: rest)
  | closing {text : String} {rest : List Row} (hclose : text.toList.head? = some '\x7d')
      (h : Bracketed level rest) : Bracketed level (.line level text :: rest)
  | opening {header : List String} {inner rest : List Row}
      (hopen : ∃ text ∈ header, text.toList.getLast? = some '\x7b')
      (hinner : ∀ row ∈ inner, row.isFrom (level + 1) = true) (h : Bracketed level rest) :
      Bracketed level (header.map (.line level) ++ inner ++ rest)

theorem Bracketed.append {level : Nat} {rows more : List Row} (h : Bracketed level rows)
    (h' : Bracketed level more) : Bracketed level (rows ++ more) := by
  induction h with
  | nil => exact h'
  | blank _ ih => exact .blank ih
  | closing hclose _ ih => exact .closing hclose ih
  | opening hopen hinner _ ih =>
    rw [List.append_assoc]
    exact .opening hopen hinner ih

end Row

/-! ## Nested fragments as rows -/

namespace Fragment

mutual
/-- The rows of a fragment. -/
def rows (lang : Language) (level : Nat) : Fragment → List Row
  | .line text => [.line level text]
  | .blank => [.blank]
  | .jump kind _ => [.line level (lang.jumpText kind)]
  | .nest _ header inner => header.map (.line level) ++ rowsAll lang (level + 1) inner

def rowsAll (lang : Language) (level : Nat) : List Fragment → List Row
  | [] => []
  | fragment :: rest => fragment.rows lang level ++ rowsAll lang level rest
end

variable {lang : Language} {width : Nat}

mutual
theorem textAll_rows (level : Nat) (fragment : Fragment) :
    Row.textAll width (fragment.rows lang level) = fragment.text lang width level := by
  match fragment with
  | .line _ | .blank | .jump _ _ => simp [rows, text, Row.textAll, Row.text]
  | .nest _ header inner =>
    rw [rows, text, Row.textAll_append, Row.textAll_header, textAll_rowsAll (level + 1) inner]

theorem textAll_rowsAll (level : Nat) (fragments : List Fragment) :
    Row.textAll width (rowsAll lang level fragments) = textAll lang width level fragments := by
  match fragments with
  | [] => rfl
  | fragment :: rest =>
    rw [rowsAll, textAll, Row.textAll_append, textAll_rows level fragment,
      textAll_rowsAll level rest]
end

mutual
theorem isFrom_rows (level : Nat) (fragment : Fragment) :
    ∀ row ∈ fragment.rows lang level, row.isFrom level = true := by
  match fragment with
  | .line _ | .blank | .jump _ _ => simp [rows, Row.isFrom]
  | .nest _ header inner =>
    rw [rows, List.forall_mem_append]
    refine ⟨by simp [Row.isFrom], fun row hrow => ?_⟩
    exact Row.isFrom_of_le (Nat.le_succ level) (isFrom_rowsAll (level + 1) inner row hrow)

theorem isFrom_rowsAll (level : Nat) (fragments : List Fragment) :
    ∀ row ∈ rowsAll lang level fragments, row.isFrom level = true := by
  match fragments with
  | [] => simp [rowsAll]
  | fragment :: rest =>
    rw [rowsAll, List.forall_mem_append]
    exact ⟨isFrom_rows level fragment, isFrom_rowsAll level rest⟩
end

end Fragment

/-- What writes nested fragments adds rows from a level on. -/
theorem Writes.adds {α : Type} {view : View} {around : List Construct} {deep level : Nat}
    {action : Emit α} {found : Set Occurrence}
    (h : ∀ loops, Writes view loops around deep action found) :
    Emit.Adds level action fun _ rows => ∀ row ∈ rows, row.isFrom (level + deep) = true := by
  intro before value after hlevel hrun
  obtain ⟨-, fragments, -, hpage⟩ := h _ before value after rfl hrun
  refine ⟨Fragment.rowsAll view.lang (level + deep) fragments, Fragment.isFrom_rowsAll _ _, ?_⟩
  rw [Fragment.textAll_rowsAll, hpage, hlevel]

/-! ## Printing braces -/

/-- At a level, a printing adds rows where all that is at the level opens or closes a brace. -/
def Emit.Brackets (level : Nat) (action : Emit Unit) : Prop :=
  Emit.Adds level action fun _ => Row.Bracketed level

/-- A printing adds rows that are deeper than a level. -/
def Emit.Deepens (level : Nat) (action : Emit Unit) : Prop :=
  Emit.Adds level action fun _ rows => ∀ row ∈ rows, row.isFrom (level + 1) = true

namespace Emit.Brackets

variable {level : Nat} {first second head inside : Emit Unit}

theorem andThen (h : Brackets level first) (h' : Brackets level second) :
    Brackets level (do first; second) :=
  Adds.andThen h h' fun _ _ => .append

theorem line {text : String} (hclose : text.toList.head? = some '\x7d') :
    Brackets level (Emit.line text) :=
  (Adds.line text).mono fun _ _ hrows => hrows ▸ .closing hclose .nil

/-- A header and the inside of its brace. -/
theorem opened {header : List String} (hhead : Emit.Spells head header)
    (hopen : ∃ text ∈ header, text.toList.getLast? = some '\x7b') (h : Deepens level inside) :
    Brackets level (do head; inside) := by
  intro before value after hlevel hrun
  rw [bind_of_ok (hhead before)] at hrun
  obtain ⟨rows, hrows, hpage⟩ := h
    { before with page := header.foldl Page.writeLine before.page } value after
    (by simp [Page.foldl_writeLine, Page.write, hlevel]) hrun
  refine ⟨_, .opening hopen hrows .nil, ?_⟩
  rw [hpage, Page.foldl_writeLine, List.append_nil, Row.textAll_append, Row.textAll_header]
  simp [Page.write, String.append_assoc, hlevel]

end Emit.Brackets

namespace Braced

open Emit

variable {view : View} {level : Nat} {inside : Emit Unit}

theorem exists_brace_opening (view : View) (header : String) :
    ∃ text ∈ opening view header, text.toList.getLast? = some '\x7b' := by
  unfold opening
  split
  · exact ⟨_, List.mem_singleton_self _, getLast?_append_brace header⟩
  · exact ⟨"\x7b", by simp, by decide⟩

theorem brackets_openBlock (view : View) (header : String) (h : Deepens level inside) :
    Brackets level (do openBlock view header; inside) :=
  .opened (spells_openBlock view header) (exists_brace_opening view header) h

theorem brackets_closeBlock : Brackets level closeBlock := .line (by decide)

theorem brackets_reopenBlock (view : View) (header : String) (h : Deepens level inside) :
    Brackets level (do reopenBlock view header; inside) := by
  unfold reopenBlock
  split
  · have hhead : Spells (Emit.line ("\x7d " ++ header ++ " \x7b"))
        ["\x7d " ++ header ++ " \x7b"] := fun _ => rfl
    exact .opened hhead ⟨_, List.mem_singleton_self _, getLast?_append_brace _⟩ h
  · have hhead : Spells (do Emit.line header; Emit.line "\x7b") [header, "\x7b"] := fun _ => rfl
    have hnext : Brackets level _ := .opened hhead ⟨"\x7b", by simp, by decide⟩ h
    have hall := brackets_closeBlock.andThen hnext
    simpa only [closeBlock, bind_assoc] using hall

/-- Braces with a header. -/
theorem brackets_block (view : View) (header : String) (h : Deepens level inside) :
    Brackets level (do openBlock view header; inside; closeBlock) := by
  have hall := (brackets_openBlock view header h).andThen brackets_closeBlock
  simpa only [bind_assoc] using hall

/-! ## Statements with braces -/

variable {below : NodeId → Emit Unit}
  (hbelow : ∀ loops around id, Writes view loops around 0 (below id) (view.jumps around id))
include hbelow

theorem deepens_body (level : Nat) (id : NodeId) : Deepens level (body view below id none) :=
  Writes.adds fun loops => writes_plainBody (hbelow loops) [] id

theorem brackets_bodyUnder (header : String) (id : NodeId) :
    Brackets level (bodyUnder view below header id) :=
  brackets_block view header (deepens_body hbelow level id)

theorem brackets_otherArms (branches : List Branch) :
    Brackets level (otherArms view below branches) := by
  induction branches with
  | nil => exact .pure .nil
  | cons branch rest ih =>
    refine .after (.render _) fun cond => ?_
    have harm := brackets_reopenBlock view ("else if (" ++ cond ++ ")")
      (deepens_body hbelow level branch.body)
    have hall := harm.andThen ih
    simp only [bind_assoc] at hall
    exact hall

theorem brackets_conditional (branches : List Branch) (otherwise : Option NodeId) :
    Brackets level (conditional view below branches otherwise) := by
  have hend : Brackets level (conditional view below [] otherwise) := by
    cases otherwise with
    | none => exact brackets_closeBlock
    | some id =>
      have hall := (brackets_reopenBlock view "else" (deepens_body hbelow level id)).andThen
        brackets_closeBlock
      simp only [bind_assoc] at hall
      exact hall
  cases branches with
  | nil => exact hend
  | cons first rest =>
    refine .after (.render _) fun cond => ?_
    have hfirst := brackets_openBlock view ("if (" ++ cond ++ ")")
      (deepens_body hbelow level first.body)
    have hall := (hfirst.andThen (brackets_otherArms hbelow rest)).andThen hend
    simp only [bind_assoc] at hall
    exact hall

theorem brackets_doWhile (id cond : NodeId) :
    Brackets level (do
      openBlock view "do"
      body view below id none
      let condText ← view.expr cond
      Emit.line ("\x7d while (" ++ condText ++ ");")) := by
  have hend : Brackets level (do
      let condText ← view.expr cond
      Emit.line ("\x7d while (" ++ condText ++ ");")) := by
    refine .after (.render _) fun condText => Brackets.line ?_
    simp [String.toList_append]
  have hall := (brackets_openBlock view "do" (deepens_body hbelow level id)).andThen hend
  simp only [bind_assoc] at hall
  exact hall

theorem brackets_forLoop (style : Style) (init cond update : Option NodeId) (loopBody : NodeId) :
    Brackets level (do
      Emit.enter
      let initText ← match init with
        | some init => liftM (inlineTo style view view.arena.depthBound init)
        | none => pure ""
      let condText ← clause view cond
      let updateText ← clause view update
      bodyUnder view below ("for (" ++ initText ++ ";" ++ condText ++ ";" ++ updateText ++ ")")
        loopBody
      Emit.leave) := by
  have hrest : ∀ initText : String, Brackets level (do
      let condText ← clause view cond
      let updateText ← clause view update
      bodyUnder view below ("for (" ++ initText ++ ";" ++ condText ++ ";" ++ updateText ++ ")")
        loopBody
      Emit.leave) := by
    intro initText
    refine .after (.render _) fun condText => .after (.render _) fun updateText => ?_
    exact .before (brackets_bodyUnder hbelow _ loopBody) (fun _ => .leave) fun _ _ _ hrows => hrows
  refine .after .enter fun _ => ?_
  cases init with
  | none => exact .after (.pure "") hrest
  | some init => exact .after (.render _) hrest

theorem deepens_cases (hlang : view.lang ≠ .python) (level : Nat) (cases : List Case) :
    Deepens level (do Emit.indent; cases.forM (switchCase view below); Emit.dedent) :=
  Writes.adds fun loops => (writes_cases (hbelow loops) hlang ⟨0⟩ [] cases).deeper

theorem brackets_switch (hlang : view.lang ≠ .python) (subject : String) (cases : List Case) :
    Brackets level (do
      openBlock view ("switch (" ++ subject ++ ")")
      Emit.indent
      cases.forM (switchCase view below)
      Emit.dedent
      closeBlock) := by
  have hall := brackets_block view ("switch (" ++ subject ++ ")")
    (deepens_cases hbelow hlang level cases)
  simp only [bind_assoc] at hall
  exact hall

/-! ## Definitions -/

theorem brackets_function (header : String) (decl functionBody : NodeId) :
    Brackets level (function view below header decl functionBody) := by
  refine .after (.render _) fun _ => .after .enter fun _ => .after (.render _) fun _ => ?_
  exact .before (brackets_bodyUnder hbelow header functionBody) (fun _ => .leave)
    fun _ _ _ hrows => hrows

theorem brackets_entryPoint (header : String) (statements : List NodeId) (tail : Option String) :
    Brackets level (entryPoint view below header statements tail) := by
  have hall : Brackets level _ := brackets_block view header
    (Writes.adds fun loops => writes_entryBody (hbelow loops) statements tail)
  simp only [bind_assoc] at hall
  exact hall

/-- What a class holds. -/
theorem deepens_members (level : Nat) (members : List NodeId) :
    Deepens level (do
      Emit.indent
      Emit.enter
      separated below members
      Emit.leave
      Emit.dedent) := by
  have hall : Deepens level _ :=
    Writes.adds fun loops => (writes_separated (hbelow loops) [] members).framed.deeper
  simp only [bind_assoc] at hall
  exact hall

end Braced

namespace Java

open Emit Braced

variable {view : View} {level : Nat} {below : NodeId → Emit Unit}
  (hbelow : ∀ loops around id, Writes view loops around 0 (below id) (view.jumps around id))
include hbelow

theorem brackets_function (place : Enclosing) (decl functionBody : NodeId) :
    Brackets level (function view below place decl functionBody) := by
  refine .follow fun d _ => .after (.render _) fun header => ?_
  exact Braced.brackets_function hbelow header decl functionBody

theorem brackets_classBody (place : Enclosing) (decl : NodeId) (members : List NodeId) :
    Brackets level (classBody view below place decl members) := by
  refine .follow fun d _ => .after (.render _) fun header => ?_
  have hall := brackets_block view header (deepens_members hbelow level members)
  simp only [bind_assoc] at hall
  exact hall

/-- The class that a program is put into. -/
theorem brackets_mainClass (hlang : view.lang = .java) (definitions statements : List NodeId) :
    Brackets level (do
      openBlock view "public class Main"
      Emit.indent
      Emit.definitions (staticMember view below) definitions
      entryPoint view below "public static void main(String[] args)" statements none
      Emit.dedent
      closeBlock) := by
  have hall : Brackets level _ := brackets_block view "public class Main"
    (Writes.adds fun loops => writes_mainBody (hbelow loops) hlang definitions statements)
  simp only [bind_assoc] at hall
  exact hall

end Java

/-- A class ends with its brace and a semicolon. -/
theorem Cpp.brackets_classBody {view : View} {level : Nat} {below : NodeId → Emit Unit}
    (hbelow : ∀ loops around id, Writes view loops around 0 (below id) (view.jumps around id))
    (decl : NodeId) (members : List NodeId) :
    Emit.Brackets level (classBody view below decl members) := by
  refine .follow fun d _ => .after (.render _) fun header => ?_
  have hspells : Emit.Spells (do Braced.openBlock view header; Emit.line "public:")
      (Braced.opening view header ++ ["public:"]) := by
    intro printer
    rw [bind_of_ok (Braced.spells_openBlock view header printer), List.foldl_append]
    rfl
  obtain ⟨text, htext, hopen⟩ := Braced.exists_brace_opening view header
  have hopened : Emit.Brackets level _ := .opened hspells ⟨text, List.mem_append_left _ htext, hopen⟩
    (Braced.deepens_members hbelow level members)
  have hclose : Emit.Brackets level (Emit.line "\x7d;") := .line (by decide)
  have hall := hopened.andThen hclose
  simp only [bind_assoc] at hall
  exact hall

end Interlingua
