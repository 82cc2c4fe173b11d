import Interlingua.Proofs.Text.Canonical
import Mathlib.Logic.Relation

/-!
# Layouts of the same code

What may be done to a text without changing its code.

* `LaidOut` — a text that has given lines: each between blanks and with either ending, and with
  blank lines anywhere.
* `Respaced` — a text with other blanks inside its steps from one arm to the next.
* `Relaid` — one change of either kind; `Relaid.canonicalChars_eq` — it keeps the canonical layout.
* `sameCode_of_relaid` — **however often a text is laid out anew, it is the same code.**
-/

namespace Interlingua.Text

/-! ## Lines that are laid out -/

/-- Blanks that may stand on a line. -/
def IsPadding (pad : List Char) : Prop := ∀ c ∈ pad, isBlank c = true ∧ c ≠ '\n'

instance (pad : List Char) : Decidable (IsPadding pad) :=
  List.decidableBAll _ pad

/-- The endings that a line can have. -/
def endings : List (List Char) := [['\n'], ['\r', '\n']]

/-- A text that has the lines of a list, each between blanks and with either ending, and besides
them lines of blanks only.  The last line may do without an ending. -/
inductive LaidOut : List (List Char) → List Char → Prop
  | rest {pad : List Char} (h : IsPadding pad) : LaidOut [] pad
  | last {before line after : List Char} (hline : '\n' ∉ line) (hbefore : IsPadding before)
      (hafter : IsPadding after) : LaidOut [line] (before ++ line ++ after)
  | line {lines : List (List Char)} {before line after ending text : List Char}
      (hline : '\n' ∉ line) (hbefore : IsPadding before) (hafter : IsPadding after)
      (hending : ending ∈ endings) (h : LaidOut lines text) :
      LaidOut (line :: lines) (before ++ line ++ after ++ ending ++ text)
  | blank {lines : List (List Char)} {pad ending text : List Char} (hpad : IsPadding pad)
      (hending : ending ∈ endings) (h : LaidOut lines text) : LaidOut lines (pad ++ ending ++ text)

theorem solidRows_intercalate (lines : List (List Char)) :
    solidRows (['\n'].intercalate lines) = lines.flatMap solidRows := by
  induction lines with
  | nil => rfl
  | cons line rest ih =>
    cases rest with
    | nil => simp
    | cons next rest =>
      rw [List.intercalate_cons_cons, List.append_assoc, List.singleton_append,
        solidRows_append_newline, ih, ← List.flatMap_cons]

/-- A carriage return before a line feed is no part of a row. -/
theorem solidRows_append_ending {line ending : List Char} (hline : '\n' ∉ line)
    (hending : ending ∈ endings) (text : List Char) :
    solidRows (line ++ ending ++ text) = solidRows line ++ solidRows text := by
  simp only [endings, List.mem_cons, List.not_mem_nil, or_false] at hending
  rcases hending with rfl | rfl
  · rw [List.append_assoc, List.singleton_append, solidRows_append_newline]
  · have hreturn : '\n' ∉ line ++ ['\r'] := by simp [hline]
    have hsplit : line ++ ['\r', '\n'] ++ text = (line ++ ['\r']) ++ '\n' :: text := by simp
    rw [hsplit, solidRows_append_newline, solidRows_of_not_mem hreturn, solidRows_of_not_mem hline,
      row_append_right (List.forall_mem_singleton.2 (by decide))]

theorem newline_not_mem_between {before line after : List Char} (hline : '\n' ∉ line)
    (hbefore : IsPadding before) (hafter : IsPadding after) : '\n' ∉ before ++ line ++ after := by
  simp only [List.mem_append, not_or]
  exact ⟨⟨fun hmem => (hbefore _ hmem).2 rfl, hline⟩, fun hmem => (hafter _ hmem).2 rfl⟩

theorem solidRows_between {before line after : List Char} (hline : '\n' ∉ line)
    (hbefore : IsPadding before) (hafter : IsPadding after) :
    solidRows (before ++ line ++ after) = solidRows line := by
  rw [solidRows_of_not_mem (newline_not_mem_between hline hbefore hafter),
    row_append_right fun c hc => (hafter c hc).1, row_append_left fun c hc => (hbefore c hc).1,
    solidRows_of_not_mem hline]

theorem IsPadding.solidRows {pad : List Char} (h : IsPadding pad) : solidRows pad = [] :=
  solidRows_blank fun c hc => (h c hc).1

/-- **The rows of a text that is laid out are those of its lines.** -/
theorem LaidOut.solidRows_eq {lines : List (List Char)} {text : List Char}
    (h : LaidOut lines text) : solidRows text = lines.flatMap solidRows := by
  induction h with
  | rest h => exact h.solidRows
  | last hline hbefore hafter => rw [solidRows_between hline hbefore hafter, List.flatMap_singleton]
  | line hline hbefore hafter hending _ ih =>
    rw [solidRows_append_ending (newline_not_mem_between hline hbefore hafter) hending,
      solidRows_between hline hbefore hafter, ih, List.flatMap_cons]
  | blank hpad hending _ ih =>
    rw [solidRows_append_ending (fun hmem => (hpad _ hmem).2 rfl) hending, hpad.solidRows, ih,
      List.nil_append]

/-! ## Steps to another arm -/

/-- The start of another arm, with blanks before and inside it. -/
def armStart (before inside : List Char) : List Char :=
  before ++ "else".toList ++ inside ++ ['\x7b']

/-- The same text, but for the blanks inside its steps from one arm to the next. -/
inductive Respaced : List Char → List Char → Prop
  | nil : Respaced [] []
  | keep (c : Char) {s t : List Char} (h : Respaced s t) : Respaced (c :: s) (c :: t)
  | arm {before inside before' inside' s t : List Char} (hbefore : ∀ c ∈ before, isBlank c = true)
      (hinside : ∀ c ∈ inside, isBlank c = true) (hbefore' : ∀ c ∈ before', isBlank c = true)
      (hinside' : ∀ c ∈ inside', isBlank c = true) (h : Respaced s t) :
      Respaced ('\x7d' :: (armStart before inside ++ s)) ('\x7d' :: (armStart before' inside' ++ t))

theorem dropWord?_eq_some_iff {word s rest : List Char} :
    dropWord? word s = some rest ↔ s = word ++ rest := by
  induction word generalizing s with
  | nil => simp [dropWord?]
  | cons c word ih =>
    cases s with
    | nil => simp [dropWord?]
    | cons d s =>
      rw [dropWord?]
      split
      · rename_i hc
        simp [ih, hc]
      · rename_i hc
        simp [Ne.symm hc]

theorem exists_trimStart (s : List Char) :
    ∃ pad, (∀ c ∈ pad, isBlank c = true) ∧ s = pad ++ trimStart s :=
  ⟨s.takeWhile isBlank, fun _ hc => List.mem_takeWhile_imp hc,
    List.takeWhile_append_dropWhile.symm⟩

/-- What follows the start of another arm, said of the whole text. -/
theorem dropElse?_eq_some_iff {s after : List Char} :
    dropElse? s = some after ↔ ∃ before inside, (∀ c ∈ before, isBlank c = true) ∧
      (∀ c ∈ inside, isBlank c = true) ∧ s = armStart before inside ++ after := by
  rw [dropElse?_eq, Option.bind_eq_some_iff]
  constructor
  · rintro ⟨body, hword, hbrace⟩
    obtain ⟨before, hbefore, hs⟩ := exists_trimStart s
    obtain ⟨inside, hinside, hbody⟩ := exists_trimStart body
    rw [dropWord?_eq_some_iff] at hword hbrace
    refine ⟨before, inside, hbefore, hinside, ?_⟩
    rw [hs, hword, hbody, hbrace]
    simp [armStart]
  · rintro ⟨before, inside, hbefore, hinside, rfl⟩
    refine ⟨inside ++ '\x7b' :: after, ?_, ?_⟩
    · rw [armStart, List.append_assoc, List.append_assoc, List.append_assoc,
        trimStart_append hbefore]
      exact dropWord?_eq_some_iff.2 (by simp [trimStart_cons (c := 'e') (by decide)])
    · rw [trimStart_append hinside, trimStart_cons (by decide)]
      rfl

theorem brace_not_mem_armStart {before inside : List Char}
    (hbefore : ∀ c ∈ before, isBlank c = true) (hinside : ∀ c ∈ inside, isBlank c = true) :
    '\x7d' ∉ armStart before inside := by
  have hblank : ∀ {pad : List Char}, (∀ c ∈ pad, isBlank c = true) → '\x7d' ∉ pad :=
    fun hpad hmem => absurd (hpad _ hmem) (by decide)
  simp [armStart, hblank hbefore, hblank hinside]

namespace Respaced

variable {s t front after : List Char}

theorem symm (h : Respaced s t) : Respaced t s := by
  induction h with
  | nil => exact .nil
  | keep c _ ih => exact .keep c ih
  | arm hbefore hinside hbefore' hinside' _ ih => exact .arm hbefore' hinside' hbefore hinside ih

protected theorem refl : ∀ s, Respaced s s
  | [] => .nil
  | c :: s => .keep c (Respaced.refl s)

theorem append_left (h : Respaced s t) (front : List Char) :
    Respaced (front ++ s) (front ++ t) := by
  induction front with
  | nil => exact h
  | cons c front ih => exact .keep c ih

/-- Where there is no closing brace, nothing is respaced. -/
theorem of_append (h : Respaced (front ++ s) t) (hfront : '\x7d' ∉ front) :
    ∃ t', t = front ++ t' ∧ Respaced s t' := by
  induction front generalizing t with
  | nil => exact ⟨t, rfl, h⟩
  | cons c front ih =>
    rw [List.mem_cons, not_or] at hfront
    generalize hwhole : (c :: front) ++ s = whole at h
    cases h with
    | nil => cases hwhole
    | keep d h =>
      obtain ⟨rfl, rfl⟩ := List.cons.inj hwhole
      obtain ⟨t', rfl, ht'⟩ := ih h hfront.2
      exact ⟨t', rfl, ht'⟩
    | arm => exact absurd (List.cons.inj hwhole).1.symm hfront.1

theorem dropElse? (h : Respaced s t) (hs : Text.dropElse? s = some after) :
    ∃ after', Text.dropElse? t = some after' ∧ Respaced after after' := by
  obtain ⟨before, inside, hbefore, hinside, rfl⟩ := dropElse?_eq_some_iff.1 hs
  obtain ⟨after', rfl, hafter⟩ := h.of_append (brace_not_mem_armStart hbefore hinside)
  exact ⟨after', dropElse?_eq_some_iff.2 ⟨before, inside, hbefore, hinside, rfl⟩, hafter⟩

/-- **The blanks inside a step to another arm do not matter once arms are collapsed.** -/
theorem collapseElse_eq (h : Respaced s t) : collapseElse s = collapseElse t := by
  fun_induction collapseElse s generalizing t with
  | case1 =>
    cases h with
    | nil => exact collapseElse_nil.symm
  | case2 rest after hrest _ ih =>
    cases h with
    | keep _ h =>
      obtain ⟨after', hdrop, hafter⟩ := h.dropElse? hrest
      rw [collapseElse_arm hdrop, ih hafter]
    | arm hbefore hinside hbefore' hinside' h =>
      rw [dropElse?_eq_some_iff.2 ⟨_, _, hbefore, hinside, rfl⟩, Option.some.injEq] at hrest
      subst hrest
      rw [collapseElse_arm (dropElse?_eq_some_iff.2 ⟨_, _, hbefore', hinside', rfl⟩), ih h]
  | case3 rest hrest ih =>
    cases h with
    | @keep _ _ t h =>
      have hdrop : Text.dropElse? t = none := by
        rw [Option.eq_none_iff_forall_ne_some]
        intro after hafter
        obtain ⟨after', hdrop, -⟩ := h.symm.dropElse? hafter
        rw [hrest] at hdrop
        cases hdrop
      rw [collapseElse_brace hdrop, ih h]
    | arm hbefore hinside _ _ _ =>
      rw [dropElse?_eq_some_iff.2 ⟨_, _, hbefore, hinside, rfl⟩] at hrest
      cases hrest
  | case4 c rest hc ih =>
    cases h with
    | keep _ h => rw [collapseElse_cons hc, ih h]
    | arm => exact absurd rfl hc

end Respaced

/-! ## Any number of changes -/

/-- One change of layout: lines are laid out, or steps to another arm are respaced. -/
inductive Relaid : List Char → List Char → Prop
  | lines {lines : List (List Char)} {text : List Char} (h : LaidOut lines text) :
      Relaid (['\n'].intercalate lines) text
  | arms {s t : List Char} (h : Respaced s t) : Relaid s t

/-- A change of layout keeps the canonical layout. -/
theorem Relaid.canonicalChars_eq {s t : List Char} (h : Relaid s t) :
    canonicalChars s = canonicalChars t := by
  rw [Text.canonicalChars_eq, Text.canonicalChars_eq]
  cases h with
  | lines h => rw [settle, settle, solidRows_intercalate, h.solidRows_eq]
  | arms h => rw [← settle_collapseElse, ← settle_collapseElse, h.collapseElse_eq]

/-- **However often a text is laid out anew, it is the same code.**  Lines may be put between
blanks, ended by a line feed with or without a carriage return, and kept apart by blank lines; steps
to another arm may have any blanks between their parts, line feeds included. -/
theorem sameCode_of_relaid {lines : List (List Char)} {text : List Char}
    (h : Relation.ReflTransGen Relaid (['\n'].intercalate lines) text) :
    sameCode (String.ofList text) (String.ofList (['\n'].intercalate lines)) = true := by
  have hchars : canonicalChars (['\n'].intercalate lines) = canonicalChars text := by
    induction h with
    | refl => rfl
    | tail _ hstep ih => rw [ih, hstep.canonicalChars_eq]
  rw [sameCode, beq_iff_eq, canonical, canonical, String.toList_ofList, String.toList_ofList,
    hchars]

/-- Lines with a tab, a blank line and carriage returns, and a step to another arm over two
lines. -/
theorem sameCode_of_relaid_split :
    let lines := ["a \x7b".toList, "\x7d else \x7b".toList, "\x7d".toList]
    let text := "\ta \x7b\r\n \n\x7d\r\nelse\x7b\n\x7d\n".toList
    Relation.ReflTransGen Relaid (['\n'].intercalate lines) text ∧
      sameCode (String.ofList text) (String.ofList (['\n'].intercalate lines)) = true := by
  intro lines text
  have hlast : LaidOut ["\x7d".toList] "\x7d\n".toList := by
    refine @LaidOut.line [] [] "\x7d".toList [] ['\n'] [] ?_ ?_ ?_ ?_ (.rest ?_) <;> decide
  have harms : LaidOut ["\x7d else \x7b".toList, "\x7d".toList]
      "\x7d else \x7b\n\x7d\n".toList := by
    refine @LaidOut.line _ [] "\x7d else \x7b".toList [] ['\n'] _ ?_ ?_ ?_ ?_ hlast <;> decide
  have hlaid : LaidOut lines "\ta \x7b\r\n \n\x7d else \x7b\n\x7d\n".toList := by
    refine @LaidOut.line _ ['\t'] "a \x7b".toList [] ['\r', '\n'] _ ?_ ?_ ?_ ?_
      (@LaidOut.blank _ [' '] ['\n'] _ ?_ ?_ harms) <;> decide
  have harm : Respaced "\ta \x7b\r\n \n\x7d else \x7b\n\x7d\n".toList text := by
    refine Respaced.append_left ?_ "\ta \x7b\r\n \n".toList
    refine @Respaced.arm [' '] [' '] ['\r', '\n'] [] _ _ ?_ ?_ ?_ ?_ (.refl "\n\x7d\n".toList) <;>
      exact List.all_eq_true.1 (by decide)
  have hrelaid := (Relation.ReflTransGen.single (Relaid.lines hlaid)).tail (.arms harm)
  exact ⟨hrelaid, sameCode_of_relaid hrelaid⟩

end Interlingua.Text
