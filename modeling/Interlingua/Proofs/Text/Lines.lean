import Interlingua.Text.Blank
import Mathlib.Data.List.TakeWhile

/-!
# Lines and their blanks

* `Text.stretches_append` — a line feed divides a text; `Text.lines_append` — a line and what
  follows its ending.
* `Text.newline_not_mem_of_mem_lines` — no line has a line feed in it.
* `Text.trim_eq_self`, `Text.trim_trim` — what has no blank at its ends stays when it is trimmed,
  and so does what was trimmed.
-/

namespace Interlingua.Text

/-! ## Lines -/

theorem stretches_newline (s : List Char) : stretches ('\n' :: s) = [] :: stretches s := rfl

theorem stretches_cons {c : Char} {s first : List Char} {more : List (List Char)} (hc : c ≠ '\n')
    (h : stretches s = first :: more) : stretches (c :: s) = (c :: first) :: more := by
  rw [stretches, if_neg hc, h]

theorem stretches_ne_nil (text : List Char) : stretches text ≠ [] := by
  induction text with
  | nil => exact List.cons_ne_nil _ _
  | cons c rest ih =>
    by_cases hc : c = '\n'
    · subst hc
      exact List.cons_ne_nil _ _
    · obtain ⟨first, more, hrest⟩ := List.exists_cons_of_ne_nil ih
      rw [stretches_cons hc hrest]
      exact List.cons_ne_nil _ _

theorem stretches_append {line rest : List Char} (h : '\n' ∉ line) :
    stretches (line ++ '\n' :: rest) = line :: stretches rest := by
  induction line with
  | nil => exact stretches_newline rest
  | cons c line ih =>
    simp only [List.mem_cons, not_or] at h
    exact stretches_cons (Ne.symm h.1) (ih h.2)

theorem stretches_of_not_mem {line : List Char} (h : '\n' ∉ line) : stretches line = [line] := by
  induction line with
  | nil => rfl
  | cons c line ih =>
    simp only [List.mem_cons, not_or] at h
    exact stretches_cons (Ne.symm h.1) (ih h.2)

theorem endLines_cons_cons (line next : List Char) (more : List (List Char)) :
    endLines (line :: next :: more) = dropReturn line :: endLines (next :: more) := rfl

theorem lines_append {line rest : List Char} (hline : '\n' ∉ line)
    (hreturn : line.getLast? ≠ some '\r') : lines (line ++ '\n' :: rest) = line :: lines rest := by
  obtain ⟨next, more, hrest⟩ := List.exists_cons_of_ne_nil (stretches_ne_nil rest)
  rw [lines, stretches_append hline, lines, hrest, endLines_cons_cons, dropReturn, if_neg hreturn]

theorem lines_of_not_mem {line : List Char} (hne : line ≠ []) (hline : '\n' ∉ line) :
    lines line = [line] := by
  rw [lines, stretches_of_not_mem hline]
  exact if_neg (by simpa using hne)

theorem newline_not_mem_of_mem_stretches {s stretch : List Char} (h : stretch ∈ stretches s) :
    '\n' ∉ stretch := by
  induction s generalizing stretch with
  | nil =>
    cases List.mem_singleton.1 h
    exact List.not_mem_nil
  | cons c rest ih =>
    by_cases hc : c = '\n'
    · subst hc
      rw [stretches_newline] at h
      rcases List.mem_cons.1 h with rfl | h
      · exact List.not_mem_nil
      · exact ih h
    · obtain ⟨first, more, hrest⟩ := List.exists_cons_of_ne_nil (stretches_ne_nil rest)
      rw [stretches_cons hc hrest] at h
      rw [hrest] at ih
      rcases List.mem_cons.1 h with rfl | h
      · simp only [List.mem_cons, not_or]
        exact ⟨Ne.symm hc, ih List.mem_cons_self⟩
      · exact ih (List.mem_cons_of_mem _ h)

theorem dropReturn_isPrefix (line : List Char) : dropReturn line <+: line := by
  unfold dropReturn
  split
  · exact List.dropLast_prefix line
  · exact List.prefix_rfl

theorem exists_of_mem_endLines {parts : List (List Char)} {line : List Char}
    (h : line ∈ endLines parts) : ∃ part ∈ parts, line <+: part := by
  fun_induction endLines parts with
  | case1 => cases h
  | case2 last hempty => cases h
  | case3 last hempty =>
    rw [List.mem_singleton] at h
    exact ⟨last, by simp, h ▸ List.prefix_rfl⟩
  | case4 first more hmore ih =>
    rcases List.mem_cons.1 h with rfl | h
    · exact ⟨first, by simp, dropReturn_isPrefix first⟩
    · obtain ⟨part, hmem, hpart⟩ := ih h
      exact ⟨part, List.mem_cons_of_mem _ hmem, hpart⟩

theorem newline_not_mem_of_mem_lines {s line : List Char} (h : line ∈ lines s) : '\n' ∉ line := by
  obtain ⟨stretch, hstretch, hpart⟩ := exists_of_mem_endLines h
  exact fun hmem => newline_not_mem_of_mem_stretches hstretch (hpart.subset hmem)

/-! ## Blanks at the ends -/

theorem trim_eq_self {s : List Char} (hfirst : ∀ c ∈ s.head?, isBlank c = false)
    (hlast : ∀ c ∈ s.getLast?, isBlank c = false) : trim s = s := by
  have hstart : trimStart s = s := by
    cases s with
    | nil => rfl
    | cons c rest =>
      rw [trimStart, List.dropWhile_cons_of_neg]
      simp [hfirst c rfl]
  have hend : trimEnd s = s := by
    rcases List.eq_nil_or_concat s with rfl | ⟨rest, c, rfl⟩
    · rfl
    · have hc := hlast c (by simp)
      simp [trimEnd, List.reverse_append, List.dropWhile_cons_of_neg, hc]
  rw [trim, hstart, hend]

theorem trim_of_forall {s : List Char} (h : ∀ c ∈ s, isBlank c = false) : trim s = s :=
  trim_eq_self (fun c hc => h c (List.mem_of_head? hc)) fun c hc => h c (List.mem_of_getLast? hc)

theorem trimEnd_isPrefix (s : List Char) : trimEnd s <+: s := by
  rw [← List.reverse_suffix, trimEnd, List.reverse_reverse]
  exact List.dropWhile_suffix isBlank

theorem mem_of_mem_trim {s : List Char} {c : Char} (h : c ∈ trim s) : c ∈ s :=
  (List.dropWhile_suffix isBlank).subset ((trimEnd_isPrefix _).subset h)

theorem head?_dropWhile_isBlank {s : List Char} {c : Char} (h : c ∈ (s.dropWhile isBlank).head?) :
    isBlank c = false := by
  have hnot := List.head?_dropWhile_not isBlank s
  rw [Option.mem_def.1 h] at hnot
  exact hnot

/-- What is trimmed has no blank at its ends. -/
theorem trim_trim (s : List Char) : trim (trim s) = trim s := by
  refine trim_eq_self (fun c hc => ?_) fun c hc => ?_
  · -- what is left of a text starts as it did, if anything is left
    obtain ⟨back, happend⟩ := trimEnd_isPrefix (trimStart s)
    refine head?_dropWhile_isBlank (s := s) ?_
    rw [show s.dropWhile isBlank = trim s ++ back from happend.symm, List.head?_append,
      Option.mem_def.1 hc]
    rfl
  · rw [trim, trimEnd, List.getLast?_reverse] at hc
    exact head?_dropWhile_isBlank hc

theorem trim_cons_of_blank {s : List Char} {c : Char} (h : isBlank c = true) :
    trim (c :: s) = trim s := by
  rw [trim, trimStart, List.dropWhile_cons_of_pos h, ← trimStart, trim]

theorem trim_concat_of_blank {s : List Char} {c : Char} (h : isBlank c = true) :
    trim (s ++ [c]) = trim s := by
  have hend : ∀ t, trimEnd (t ++ [c]) = trimEnd t := fun t => by
    rw [trimEnd, List.reverse_append, List.reverse_singleton, List.singleton_append,
      List.dropWhile_cons_of_pos h, ← trimEnd]
  rw [trim, trimStart, List.dropWhile_append]
  split
  · rename_i hempty
    rw [List.isEmpty_iff] at hempty
    rw [List.dropWhile_cons_of_pos h, List.dropWhile_nil, trim, trimStart, hempty]
  · rw [hend, trim, trimStart]

end Interlingua.Text
