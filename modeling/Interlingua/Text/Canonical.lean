import Interlingua.Text.Blank

/-!
# Canonical layout

Two renderings of a program are the same code if they differ in layout only.  The canonical
layout of a text has line feeds for line endings, four blanks for each tab, no blanks at the ends
of lines, no empty lines, and one spelling of the step from one arm of a conditional to the next.

* `canonical` — the canonical layout.
* `sameCode` — equality up to layout.
-/

namespace Interlingua.Text

/-- Every carriage return before a line feed dropped. -/
def joinReturns : List Char → List Char
  | '\r' :: '\n' :: rest => '\n' :: joinReturns rest
  | c :: rest => c :: joinReturns rest
  | [] => []

/-- Four blanks for each tab. -/
def expandTabs (s : List Char) : List Char :=
  s.flatMap fun c => if c = '\t' then [' ', ' ', ' ', ' '] else [c]

/-- Trimmed lines, without those that are empty. -/
def solidLines (s : List Char) : List (List Char) :=
  ((lines s).map trim).filter (!·.isEmpty)

/-- What follows a word that a text starts with. -/
def dropWord? : List Char → List Char → Option (List Char)
  | [], s => some s
  | c :: word, d :: s => if c = d then dropWord? word s else none
  | _ :: _, [] => none

/-- What follows the start of another arm, with any blanks before and inside it. -/
def dropElse? (s : List Char) : Option (List Char) :=
  match dropWord? "else".toList (trimStart s) with
  | none => none
  | some body =>
    match trimStart body with
    | '\x7b' :: rest => some rest
    | _ => none

theorem length_dropWord? {word s rest : List Char} (h : dropWord? word s = some rest) :
    rest.length ≤ s.length := by
  induction word generalizing s with
  | nil => simp only [dropWord?, Option.some.injEq] at h; simp [h]
  | cons c word ih =>
    cases s with
    | nil => simp [dropWord?] at h
    | cons d s =>
      by_cases hc : c = d
      · simp only [dropWord?, hc, if_true] at h
        exact Nat.le_succ_of_le (ih h)
      · simp [dropWord?, hc] at h

theorem length_trimStart (s : List Char) : (trimStart s).length ≤ s.length :=
  List.Sublist.length_le (List.dropWhile_sublist _)

theorem length_dropElse? {s rest : List Char} (h : dropElse? s = some rest) :
    rest.length < s.length := by
  unfold dropElse? at h
  split at h
  · cases h
  · rename_i body hb
    split at h
    · rename_i after ha
      cases h
      have h₁ := length_dropWord? hb
      have h₂ := length_trimStart s
      have h₃ := length_trimStart body
      rw [ha] at h₃
      simp only [List.length_cons] at h₃
      omega
    · cases h

/-- Every step to another arm on one line, with one blank between its parts. -/
def collapseElse : List Char → List Char
  | [] => []
  | c :: rest =>
    if c = '\x7d' then
      match h : dropElse? rest with
      | some after =>
        have := length_dropElse? h
        "\x7d else \x7b".toList ++ collapseElse after
      | none => c :: collapseElse rest
    else c :: collapseElse rest
termination_by s => s.length

/-- The canonical layout of a text. -/
def canonicalChars (s : List Char) : List Char :=
  collapseElse (['\n'].intercalate (solidLines (expandTabs (joinReturns s))))

def canonical (s : String) : String := String.ofList (canonicalChars s.toList)

/-- Whether two texts are the same code up to layout. -/
def sameCode (a b : String) : Bool := canonical a == canonical b

end Interlingua.Text
