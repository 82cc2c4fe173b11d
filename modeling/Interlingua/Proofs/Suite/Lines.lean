import Interlingua.Proofs.Emit.Rows
import Mathlib.Data.List.TakeWhile

/-!
# Suites of printed lines

A suite is what follows a header and is deeper than it.

* `PrintedLine` — a printed line and its role: the header of a suite, a comment, or a statement.
* `IsWritten` — a line is written as its role asks.  The text of a statement comes from the tree.
* `allSuited` — every header is followed, before any line that is not deeper, by a line one level
  deeper that is no comment.
* `Lays` — printed rows are such lines, from a level on.  There is one rule for each way of putting
  rows together.
-/

namespace Interlingua.Suite

/-! ## Lines -/

inductive Role where
  | header
  | comment
  | statement
  deriving DecidableEq

inductive PrintedLine where
  | blank
  | full (role : Role) (level : Nat) (text : String)
  deriving DecidableEq

/-- What a header starts with. -/
def headerStarts : List String :=
  ["if ", "elif ", "else", "while ", "for ", "match ", "case ", "def ", "class "]

/-- How a header is written, up to the colon. -/
def Opens (header : String) : Prop := ∃ start ∈ headerStarts, ∃ rest, header = start ++ rest

def IsHeader (text : String) : Prop := ∃ header, Opens header ∧ text = header ++ ":"

/-- How a statement is written that stands on one line. -/
inductive IsStatement (view : View) : String → Prop
  | word {text : String} (h : text ∈ ["pass", "break", "continue", "return", "@staticmethod"]) :
      IsStatement view text
  | expr {id : NodeId} {text : String} (h : view.Renders id text) : IsStatement view text
  | ret {id : NodeId} {text : String} (h : view.Renders id text) :
      IsStatement view ("return " ++ text)
  | delete {id : NodeId} {text : String} (h : view.Renders id text) :
      IsStatement view ("del " ++ text)
  | assign {id target value : NodeId} {op : AssignOp} {text : String}
      (found : view.arena.node id = .ok (.stmt (.assign op target value)))
      (h : ∃ before after, Python.assignment view.site op target value before = .ok text after) :
      IsStatement view text
  | declares {id ty : NodeId} {declarators : List Declarator} {modifiers : Modifiers}
      {note : Option String} {d : Declarator} {text : String}
      (found : view.arena.decl id = .ok (.vars ty declarators modifiers))
      (hnote : Python.typeNote? view ty = .ok note) (hd : d ∈ declarators)
      (h : ∃ before after, Python.declarator view note d before = .ok text after) :
      IsStatement view text
  | imports (source : String) : IsStatement view ("import " ++ source)
  | importsFrom (source : String) : IsStatement view ("from " ++ source)
  | type {id : NodeId} {ty : Ty} {text : String} (found : view.arena.node id = .ok (.type ty))
      (h : view.typeName ty = .ok text) : IsStatement view text
  | run (entry : String) : IsStatement view (entry ++ "()")

namespace PrintedLine

def row : PrintedLine → Row
  | .blank => .blank
  | .full _ level text => .line level text

/-- A line is written as its role asks. -/
def IsWritten (view : View) : PrintedLine → Prop
  | .blank => True
  | .full .header _ text => IsHeader text
  | .full .comment _ text => ∃ rest, text = "#" ++ rest
  | .full .statement _ text => IsStatement view text

/-- A line is at a level or deeper.  An empty one is at no level. -/
def isFrom (level : Nat) : PrintedLine → Bool
  | .blank => true
  | .full _ own _ => level ≤ own

/-- A line is at a level and no comment. -/
def isCodeAt (level : Nat) : PrintedLine → Bool
  | .blank => false
  | .full role own _ => role ≠ .comment && own = level

/-- If a line is a header, there is code one level deeper among the lines that follow it and are
deeper. -/
def isSuited (rest : List PrintedLine) : PrintedLine → Bool
  | .full .header level _ => (rest.takeWhile (isFrom (level + 1))).any (isCodeAt (level + 1))
  | _ => true

end PrintedLine

/-- Each header has a suite with code in it. -/
def allSuited : List PrintedLine → Bool
  | [] => true
  | line :: rest => line.isSuited rest && allSuited rest

variable {view : View} {level : Nat} {lines more : List PrintedLine}

theorem PrintedLine.isSuited_append {line : PrintedLine} (h : line.isSuited lines = true)
    (more : List PrintedLine) : line.isSuited (lines ++ more) = true := by
  match line with
  | .full .header level text =>
    have hmore : (lines ++ more).takeWhile (isFrom (level + 1)) = _ := List.takeWhile_append
    rw [isSuited] at h ⊢
    rw [hmore]
    split
    · rename_i hall
      rw [( List.takeWhile_prefix _).eq_of_length hall] at h
      rw [List.any_append, h, Bool.true_or]
    · exact h
  | .full .comment level text | .full .statement level text | .blank => rfl

theorem allSuited_append (h : allSuited lines = true) (h' : allSuited more = true) :
    allSuited (lines ++ more) = true := by
  induction lines with
  | nil => exact h'
  | cons line rest ih =>
    rw [allSuited, Bool.and_eq_true] at h
    rw [List.cons_append, allSuited, Bool.and_eq_true]
    exact ⟨PrintedLine.isSuited_append h.1 more, ih h.2⟩

/-- A header before lines that are deeper, some of them code. -/
theorem PrintedLine.isSuited_header (text : String)
    (hdeep : ∀ line ∈ lines, line.isFrom (level + 1) = true)
    (hcode : lines.any (isCodeAt (level + 1)) = true) :
    (PrintedLine.full .header level text).isSuited lines = true := by
  have hall : lines.takeWhile (isFrom (level + 1)) = lines := List.takeWhile_eq_self_iff.2 hdeep
  rw [isSuited, hall]
  exact hcode

/-! ## Rows -/

/-- Lines from a level on, each as its role asks, each header with its suite. -/
structure AreLaid (view : View) (level : Nat) (lines : List PrintedLine) : Prop where
  written : ∀ line ∈ lines, line.IsWritten view
  deep : ∀ line ∈ lines, line.isFrom level = true
  suited : allSuited lines = true

/-- Rows are such lines, with code at the level itself if so asked. -/
def Lays (view : View) (level : Nat) (coded : Prop) (rows : List Row) : Prop :=
  ∃ lines, rows = lines.map PrintedLine.row ∧ AreLaid view level lines ∧
    (coded → lines.any (PrintedLine.isCodeAt level) = true)

namespace Lays

variable {rows others : List Row} {coded other : Prop} {text : String}

theorem mono (h : Lays view level coded rows) (hcoded : other → coded) :
    Lays view level other rows := by
  obtain ⟨lines, hrows, hlaid, hcode⟩ := h
  exact ⟨lines, hrows, hlaid, fun h => hcode (hcoded h)⟩

theorem nil : Lays view level False [] := by
  refine ⟨[], rfl, ⟨?_, ?_, rfl⟩, nofun⟩
  · simp
  · simp

theorem append (h : Lays view level coded rows) (h' : Lays view level other others) :
    Lays view level (coded ∨ other) (rows ++ others) := by
  obtain ⟨lines, rfl, hlaid, hcode⟩ := h
  obtain ⟨more, rfl, hlaid', hcode'⟩ := h'
  refine ⟨lines ++ more, (List.map_append ..).symm, ⟨?_, ?_, ?_⟩, ?_⟩
  · exact List.forall_mem_append.2 ⟨hlaid.written, hlaid'.written⟩
  · exact List.forall_mem_append.2 ⟨hlaid.deep, hlaid'.deep⟩
  · exact allSuited_append hlaid.suited hlaid'.suited
  · rw [List.any_append, Bool.or_eq_true]
    exact Or.imp hcode hcode'

/-- A line that stands by itself. -/
theorem single (line : PrintedLine) (hwritten : line.IsWritten view)
    (hdeep : line.isFrom level = true) (hsuited : line.isSuited [] = true)
    (hcode : coded → line.isCodeAt level = true) : Lays view level coded [line.row] := by
  refine ⟨[line], rfl, ⟨?_, ?_, ?_⟩, fun hcoded => ?_⟩
  · exact List.forall_mem_singleton.2 hwritten
  · exact List.forall_mem_singleton.2 hdeep
  · rw [allSuited, hsuited]
    rfl
  · rw [List.any_cons, hcode hcoded, Bool.true_or]

theorem blank : Lays view level False [.blank] :=
  single .blank trivial rfl rfl nofun

theorem comment (rest : String) : Lays view level False [.line level ("#" ++ rest)] :=
  single (.full .comment level ("#" ++ rest)) ⟨rest, rfl⟩ (decide_eq_true le_rfl) rfl nofun

theorem statement (h : IsStatement view text) : Lays view level coded [.line level text] :=
  single (.full .statement level text) h (decide_eq_true le_rfl) rfl
    fun _ => by simp [PrintedLine.isCodeAt]

/-- A header and its suite. -/
theorem suite {header : String} (hopens : Opens header) (h : Lays view (level + 1) other rows)
    (hother : other) : Lays view level coded (.line level (header ++ ":") :: rows) := by
  obtain ⟨lines, rfl, hlaid, hcode⟩ := h
  have hcode := hcode hother
  refine ⟨.full .header level (header ++ ":") :: lines, rfl, ⟨?_, ?_, ?_⟩, fun _ => ?_⟩
  · exact List.forall_mem_cons.2 ⟨⟨header, hopens, rfl⟩, hlaid.written⟩
  · refine List.forall_mem_cons.2 ⟨by simp [PrintedLine.isFrom], fun line hline => ?_⟩
    have hdeep := hlaid.deep line hline
    cases line with
    | blank => rfl
    | full role own text => simp only [PrintedLine.isFrom, decide_eq_true_eq] at hdeep ⊢; omega
  · rw [allSuited, Bool.and_eq_true]
    exact ⟨PrintedLine.isSuited_header _ hlaid.deep hcode, hlaid.suited⟩
  · simp [PrintedLine.isCodeAt]

/-- There is code among the rows of several items if there is in those of one. -/
theorem flatten {γ : Type} {coded : γ → Prop} {items : List γ} {groups : List (List Row)}
    (h : List.Forall₂ (fun item => Lays view level (coded item)) items groups) :
    Lays view level (∃ item ∈ items, coded item) groups.flatten := by
  induction h with
  | nil => exact nil.mono (by simp)
  | cons hfirst _ ih => exact (hfirst.append ih).mono (by simp)

end Lays

end Interlingua.Suite
