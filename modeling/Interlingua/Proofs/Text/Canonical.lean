import Interlingua.Proofs.Text.Lines
import Interlingua.Text.Canonical
import Mathlib.Data.List.Forall2

/-!
# The canonical layout is settled

Canonical layout is found in two steps: `settle` puts the lines in order, and `collapseElse`
rewrites the steps from one arm to the next.  Each step changes nothing when it is taken again, and
the two may change places, so the layout of a canonical text is that text.

* `solidRows` — the lines that the canonical layout keeps; they do not depend on carriage returns.
* `squeeze` — what settling does, stretch of blanks by stretch of blanks: `settle_eq_squeeze`.
* `KeepsArms` — rewritings that keep what is read as a step to another arm.
* `collapseElse_squeeze` — squeezing blanks and collapsing arms may change places.
* `canonical_canonical` — **the canonical layout of a canonical layout is itself.**
-/

namespace Interlingua.Text

/-! ## Blanks -/

theorem ne_of_isBlank {c d : Char} (hc : isBlank c = false) (hd : isBlank d = true) : c ≠ d := by
  rintro rfl
  rw [hc] at hd
  cases hd

theorem trim_append_left {pad s : List Char} (h : ∀ c ∈ pad, isBlank c = true) :
    trim (pad ++ s) = trim s := by
  induction pad with
  | nil => rfl
  | cons c pad ih =>
    obtain ⟨hc, hpad⟩ := List.forall_mem_cons.1 h
    rw [List.cons_append, trim_cons_of_blank hc, ih hpad]

theorem trim_append_right {pad s : List Char} (h : ∀ c ∈ pad, isBlank c = true) :
    trim (s ++ pad) = trim s := by
  induction pad generalizing s with
  | nil => rw [List.append_nil]
  | cons c pad ih =>
    obtain ⟨hc, hpad⟩ := List.forall_mem_cons.1 h
    rw [← List.singleton_append, ← List.append_assoc, ih hpad, trim_concat_of_blank hc]

theorem trimStart_cons {c : Char} {s : List Char} (h : isBlank c = false) :
    trimStart (c :: s) = c :: s := by
  rw [trimStart, List.dropWhile_cons_of_neg (by simp [h])]

theorem trimStart_cons_of_blank {c : Char} {s : List Char} (h : isBlank c = true) :
    trimStart (c :: s) = trimStart s :=
  List.dropWhile_cons_of_pos h

theorem trimStart_append {pad : List Char} (h : ∀ c ∈ pad, isBlank c = true) (s : List Char) :
    trimStart (pad ++ s) = trimStart s :=
  List.dropWhile_append_of_pos h

theorem trimEnd_append {s t : List Char} (h : trimEnd t ≠ []) :
    trimEnd (s ++ t) = s ++ trimEnd t := by
  have hrest : (t.reverse.dropWhile isBlank).isEmpty = false := by
    rw [List.isEmpty_eq_false_iff]
    intro hnil
    exact h (by rw [trimEnd, hnil, List.reverse_nil])
  rw [trimEnd, List.reverse_append, List.dropWhile_append, hrest, if_neg (by simp),
    List.reverse_append, List.reverse_reverse, trimEnd]

theorem trimEnd_cons_ne_nil {c : Char} {s : List Char} (h : isBlank c = false) :
    trimEnd (c :: s) ≠ [] := by
  intro hnil
  rw [trimEnd, List.reverse_eq_nil_iff, List.dropWhile_eq_nil_iff] at hnil
  simp [hnil c (by simp)] at h

/-- Between two characters that are no blanks, nothing is trimmed. -/
theorem trim_between {c d : Char} {s t : List Char} (hc : isBlank c = false)
    (hd : isBlank d = false) : trim (c :: (s ++ d :: t)) = c :: (s ++ trim (d :: t)) := by
  rw [trim, trim, trimStart_cons hc, trimStart_cons hd, ← List.cons_append,
    trimEnd_append (trimEnd_cons_ne_nil hd), List.cons_append]

theorem expandTabs_append (s t : List Char) : expandTabs (s ++ t) = expandTabs s ++ expandTabs t :=
  List.flatMap_append

theorem expandTabs_cons {c : Char} {s : List Char} (h : isBlank c = false) :
    expandTabs (c :: s) = c :: expandTabs s := by
  have htab : c ≠ '\t' := ne_of_isBlank h (by decide)
  rw [expandTabs, List.flatMap_cons, if_neg htab, List.singleton_append, expandTabs]

theorem isBlank_of_mem_expandTabs {s : List Char} (h : ∀ c ∈ s, isBlank c = true) :
    ∀ c ∈ expandTabs s, isBlank c = true := by
  intro c hc
  obtain ⟨d, hd, hmem⟩ := List.mem_flatMap.1 hc
  split at hmem
  · simp only [List.mem_cons, List.not_mem_nil, or_false, or_self] at hmem
    subst hmem
    decide
  · rw [List.mem_singleton.1 hmem]
    exact h d hd

theorem tab_not_mem_expandTabs (s : List Char) : '\t' ∉ expandTabs s := by
  intro hmem
  obtain ⟨d, -, hmem⟩ := List.mem_flatMap.1 hmem
  split at hmem
  · exact absurd hmem (by decide)
  · rename_i hd
    exact hd (List.mem_singleton.1 hmem).symm

theorem newline_not_mem_expandTabs {s : List Char} (h : '\n' ∉ s) : '\n' ∉ expandTabs s := by
  intro hmem
  obtain ⟨d, hd, hmem⟩ := List.mem_flatMap.1 hmem
  split at hmem
  · exact absurd hmem (by decide)
  · exact h (List.mem_singleton.1 hmem ▸ hd)

theorem expandTabs_of_not_mem {s : List Char} (h : '\t' ∉ s) : expandTabs s = s := by
  induction s with
  | nil => rfl
  | cons c s ih =>
    rw [List.mem_cons, not_or] at h
    rw [expandTabs, List.flatMap_cons, if_neg (Ne.symm h.1), ← expandTabs, ih h.2,
      List.singleton_append]

/-! ## The lines that are kept -/

/-- A line as the canonical layout has it. -/
def row (line : List Char) : List Char := trim (expandTabs line)

/-- The lines of a text that the canonical layout keeps. -/
def solidRows (s : List Char) : List (List Char) := ((stretches s).map row).filter (!·.isEmpty)

/-- A text with its lines in order. -/
def settle (s : List Char) : List Char := ['\n'].intercalate (solidRows s)

theorem row_append_left {pad s : List Char} (h : ∀ c ∈ pad, isBlank c = true) :
    row (pad ++ s) = row s := by
  rw [row, expandTabs_append, trim_append_left (isBlank_of_mem_expandTabs h), row]

theorem row_append_right {pad s : List Char} (h : ∀ c ∈ pad, isBlank c = true) :
    row (s ++ pad) = row s := by
  rw [row, expandTabs_append, trim_append_right (isBlank_of_mem_expandTabs h), row]

theorem stretches_append_of_not_mem {s t first : List Char} {more : List (List Char)}
    (h : '\n' ∉ s) (ht : stretches t = first :: more) :
    stretches (s ++ t) = (s ++ first) :: more := by
  induction s with
  | nil => exact ht
  | cons c s ih =>
    rw [List.mem_cons, not_or] at h
    exact stretches_cons (Ne.symm h.1) (ih h.2)

theorem stretches_append_newline (s t : List Char) :
    stretches (s ++ '\n' :: t) = stretches s ++ stretches t := by
  induction s with
  | nil => exact stretches_newline t
  | cons c s ih =>
    by_cases hc : c = '\n'
    · subst hc
      rw [List.cons_append, stretches_newline, stretches_newline, ih]
      rfl
    · obtain ⟨first, more, hs⟩ := List.exists_cons_of_ne_nil (stretches_ne_nil s)
      rw [hs] at ih
      rw [List.cons_append, stretches_cons hc ih, stretches_cons hc hs]
      rfl

theorem stretches_expandTabs (s : List Char) :
    stretches (expandTabs s) = (stretches s).map expandTabs := by
  induction s with
  | nil => rfl
  | cons c s ih =>
    obtain ⟨first, more, hs⟩ := List.exists_cons_of_ne_nil (stretches_ne_nil s)
    by_cases hc : c = '\n'
    · subst hc
      rw [show expandTabs ('\n' :: s) = '\n' :: expandTabs s from rfl, stretches_newline,
        stretches_newline, ih, List.map_cons]
      rfl
    · have happend : expandTabs (c :: s) = expandTabs [c] ++ expandTabs s := expandTabs_append [c] s
      have hhead : '\n' ∉ expandTabs [c] := newline_not_mem_expandTabs (by simp [Ne.symm hc])
      rw [hs, List.map_cons] at ih
      rw [happend, stretches_append_of_not_mem hhead ih, stretches_cons hc hs, List.map_cons,
        ← expandTabs_append [c] first]
      rfl

/-- Dropped carriage returns stood at ends of lines. -/
theorem stretches_joinReturns (s : List Char) :
    List.Forall₂ (fun line whole => whole = line ∨ whole = line ++ ['\r'])
      (stretches (joinReturns s)) (stretches s) := by
  fun_induction joinReturns s with
  | case1 rest ih =>
    rw [stretches_cons (c := '\r') (by decide) (stretches_newline rest), stretches_newline]
    exact .cons (.inr rfl) ih
  | case2 c rest hnot ih =>
    by_cases hc : c = '\n'
    · subst hc
      rw [stretches_newline, stretches_newline]
      exact .cons (.inl rfl) ih
    · obtain ⟨first, more, hs⟩ := List.exists_cons_of_ne_nil (stretches_ne_nil rest)
      obtain ⟨line, others, hj⟩ := List.exists_cons_of_ne_nil (stretches_ne_nil (joinReturns rest))
      rw [stretches_cons hc hs, stretches_cons hc hj]
      rw [hs, hj, List.forall₂_cons] at ih
      exact .cons (ih.1.imp (congrArg _) (congrArg _)) ih.2
  | case3 => exact .cons (.inl rfl) .nil

theorem trim_dropReturn (line : List Char) : trim (dropReturn line) = trim line := by
  unfold dropReturn
  split
  · rename_i hlast
    obtain ⟨front, rfl⟩ := List.getLast?_eq_some_iff.1 hlast
    rw [List.dropLast_concat, trim_concat_of_blank (by decide)]
  · rfl

/-- The endings of lines do not matter where the lines are trimmed and empty ones dropped. -/
theorem filter_trim_endLines (parts : List (List Char)) :
    ((endLines parts).map trim).filter (!·.isEmpty) = (parts.map trim).filter (!·.isEmpty) := by
  fun_induction endLines parts with
  | case1 => rfl
  | case2 last hempty =>
    rw [List.isEmpty_iff.1 hempty]
    rfl
  | case3 last hempty => rfl
  | case4 line more hmore ih =>
    rw [List.map_cons, List.map_cons, List.filter_cons, List.filter_cons, trim_dropReturn, ih]

/-- **The lines that are kept are those between the line feeds, trimmed.** -/
theorem solidLines_eq (s : List Char) : solidLines (expandTabs (joinReturns s)) = solidRows s := by
  have hrows : (stretches (joinReturns s)).map row = (stretches s).map row := by
    refine List.forall₂_eq_eq_eq ▸ List.forall₂_map_left_iff.2 (List.forall₂_map_right_iff.2 ?_)
    refine (stretches_joinReturns s).imp fun line whole hwhole => ?_
    rcases hwhole with rfl | rfl
    · rfl
    · exact (row_append_right (List.forall_mem_singleton.2 (by decide))).symm
  rw [solidLines, lines, filter_trim_endLines, stretches_expandTabs, List.map_map, solidRows,
    ← hrows]
  rfl

theorem canonicalChars_eq (s : List Char) : canonicalChars s = collapseElse (settle s) := by
  rw [canonicalChars, solidLines_eq, settle]

/-! ### Rows of parts of a text -/

theorem solidRows_append_newline (s t : List Char) :
    solidRows (s ++ '\n' :: t) = solidRows s ++ solidRows t := by
  rw [solidRows, stretches_append_newline, List.map_append, List.filter_append, ← solidRows,
    ← solidRows]

theorem solidRows_of_not_mem {line : List Char} (h : '\n' ∉ line) :
    solidRows line = [row line].filter (!·.isEmpty) := by
  rw [solidRows, stretches_of_not_mem h, List.map_singleton]

theorem solidRows_cons_of_blank {c : Char} {s : List Char} (h : isBlank c = true) :
    solidRows (c :: s) = solidRows s := by
  by_cases hc : c = '\n'
  · subst hc
    exact solidRows_append_newline [] s
  · obtain ⟨first, more, hs⟩ := List.exists_cons_of_ne_nil (stretches_ne_nil s)
    have hrow : row (c :: first) = row first := @row_append_left [c] first (by simpa using h)
    rw [solidRows, stretches_cons hc hs, List.map_cons, hrow, ← List.map_cons, ← hs, solidRows]

theorem solidRows_append_left {pad s : List Char} (h : ∀ c ∈ pad, isBlank c = true) :
    solidRows (pad ++ s) = solidRows s := by
  induction pad with
  | nil => rfl
  | cons c pad ih =>
    obtain ⟨hc, hpad⟩ := List.forall_mem_cons.1 h
    rw [List.cons_append, solidRows_cons_of_blank hc, ih hpad]

theorem solidRows_blank {pad : List Char} (h : ∀ c ∈ pad, isBlank c = true) :
    solidRows pad = [] := by
  rw [← List.append_nil pad, solidRows_append_left h]
  rfl

/-- A text that starts with no blank has a first row, which starts with the same character. -/
theorem solidRows_cons {c : Char} {s first : List Char} {more : List (List Char)}
    (hc : isBlank c = false) (hs : stretches s = first :: more) :
    solidRows (c :: s) = row (c :: first) :: (more.map row).filter (!·.isEmpty) := by
  have hnewline : c ≠ '\n' := ne_of_isBlank hc (by decide)
  have hrow : row (c :: first) ≠ [] := by
    rw [row, expandTabs_cons hc, trim, trimStart_cons hc]
    exact trimEnd_cons_ne_nil hc
  rw [solidRows, stretches_cons hnewline hs, List.map_cons,
    List.filter_cons_of_pos (by simpa using hrow)]

theorem solidRows_cons_blank {c : Char} {pad : List Char} (hc : isBlank c = false)
    (h : ∀ c ∈ pad, isBlank c = true) : solidRows (c :: pad) = [[c]] := by
  have hline : ∀ {front : List Char}, '\n' ∉ front → (∀ c ∈ front, isBlank c = true) →
      solidRows (c :: front) = [[c]] := fun hnewline hfront => by
    have hrow : row [c] = [c] := by
      rw [row, expandTabs_cons hc, trim_of_forall (by simpa [expandTabs] using hc)]
      rfl
    have hblank := row_append_right (s := [c]) hfront
    rw [List.singleton_append, hrow] at hblank
    rw [solidRows_cons hc (stretches_of_not_mem hnewline), hblank]
    rfl
  by_cases hnewline : '\n' ∈ pad
  · obtain ⟨front, back, rfl, hfront⟩ := List.eq_append_cons_of_mem hnewline
    rw [← List.cons_append, solidRows_append_newline,
      hline hfront fun c hc => h c (by simp [hc]), solidRows_blank fun c hc => h c (by simp [hc])]
    rfl
  · exact hline hnewline h

/-! ## Settling, stretch by stretch -/

/-- What is left of the blanks between two other characters: a line feed, if there is one. -/
def gap (pad : List Char) : List Char := if '\n' ∈ pad then ['\n'] else expandTabs pad

/-- A text after a character that is no blank and some blanks after it, with each stretch of blanks
replaced by what is left of it. -/
def squeeze (pad : List Char) : List Char → List Char
  | [] => []
  | c :: s => if isBlank c then squeeze (pad ++ [c]) s else gap pad ++ c :: squeeze [] s

theorem isBlank_of_mem_gap {pad : List Char} (h : ∀ c ∈ pad, isBlank c = true) :
    ∀ c ∈ gap pad, isBlank c = true := by
  unfold gap
  split
  · exact List.forall_mem_singleton.2 (by decide)
  · exact isBlank_of_mem_expandTabs h

theorem gap_ne_nil {pad : List Char} (h : pad ≠ []) : gap pad ≠ [] := by
  unfold gap
  split
  · simp
  · obtain ⟨c, rest, rfl⟩ := List.exists_cons_of_ne_nil h
    rw [expandTabs, List.flatMap_cons]
    split <;> simp

theorem squeeze_nil_cons {c : Char} {s : List Char} (h : isBlank c = false) :
    squeeze [] (c :: s) = c :: squeeze [] s := by
  rw [squeeze, if_neg (by simp [h])]
  rfl

theorem settle_cons_of_blank {c : Char} {s : List Char} (h : isBlank c = true) :
    settle (c :: s) = settle s := by
  rw [settle, solidRows_cons_of_blank h, settle]

theorem settle_trimStart (s : List Char) : settle (trimStart s) = settle s := by
  induction s with
  | nil => rfl
  | cons c s ih =>
    by_cases hc : isBlank c = true
    · rw [trimStart_cons_of_blank hc, ih, settle_cons_of_blank hc]
    · rw [trimStart_cons (Bool.not_eq_true _ ▸ hc)]

theorem intercalate_append_cons (sep front line : List Char) (rest : List (List Char)) :
    sep.intercalate ((front ++ line) :: rest) = front ++ sep.intercalate (line :: rest) := by
  cases rest with
  | nil => simp
  | cons next rest => simp [List.intercalate_cons_cons]

/-- Between two characters that are no blanks, settling leaves the gap. -/
theorem settle_gap {c d : Char} {pad s : List Char} (hc : isBlank c = false)
    (hd : isBlank d = false) (h : ∀ c ∈ pad, isBlank c = true) :
    settle (c :: (pad ++ d :: s)) = c :: (gap pad ++ settle (d :: s)) := by
  obtain ⟨first, more, hs⟩ := List.exists_cons_of_ne_nil (stretches_ne_nil s)
  have hrows := solidRows_cons hd hs
  unfold gap
  split
  · -- the line ends after the first character: what follows it are lines of their own
    rename_i hnewline
    obtain ⟨front, back, rfl, -⟩ := List.eq_append_cons_of_mem hnewline
    have hfront : ∀ c ∈ front, isBlank c = true := fun c hc => h c (by simp [hc])
    have hback : ∀ c ∈ back, isBlank c = true := fun c hc => h c (by simp [hc])
    have hsplit : c :: (front ++ '\n' :: back ++ d :: s) =
        (c :: front) ++ '\n' :: (back ++ d :: s) := by simp
    rw [settle, hsplit, solidRows_append_newline, solidRows_cons_blank hc hfront,
      solidRows_append_left hback, settle, hrows]
    simp [List.intercalate_cons_cons]
  · rename_i hnewline
    have hstretches : stretches (pad ++ d :: s) = (pad ++ d :: first) :: more :=
      stretches_append_of_not_mem hnewline (stretches_cons (ne_of_isBlank hd (by decide)) hs)
    have hrow : row (c :: (pad ++ d :: first)) = (c :: expandTabs pad) ++ row (d :: first) := by
      rw [row, row, expandTabs_cons hc, expandTabs_append, expandTabs_cons hd, trim_between hc hd,
        List.cons_append]
    rw [settle, solidRows_cons hc hstretches, hrow, intercalate_append_cons, ← hrows, ← settle,
      List.cons_append]

/-- **After a character that is no blank, settling squeezes the blanks.** -/
theorem settle_cons {c : Char} {pad : List Char} (hc : isBlank c = false)
    (h : ∀ c ∈ pad, isBlank c = true) (s : List Char) :
    settle (c :: (pad ++ s)) = c :: squeeze pad s := by
  induction s generalizing c pad with
  | nil =>
    rw [List.append_nil, settle, solidRows_cons_blank hc h, squeeze, List.intercalate_singleton]
  | cons d s ih =>
    rw [squeeze]
    split
    · rename_i hd
      have hpad : ∀ c ∈ pad ++ [d], isBlank c = true :=
        List.forall_mem_append.2 ⟨h, by simpa using hd⟩
      rw [← ih hc hpad, List.append_assoc, List.singleton_append]
    · rename_i hd
      rw [Bool.not_eq_true] at hd
      rw [settle_gap hc hd h]
      exact congrArg (fun t => c :: (gap pad ++ t)) (ih hd (List.forall_mem_nil _))

theorem settle_eq_squeeze (s : List Char) : settle s = squeeze [] (trimStart s) := by
  rw [← settle_trimStart]
  cases hs : trimStart s with
  | nil => rfl
  | cons c rest =>
    have hc : isBlank c = false := head?_dropWhile_isBlank (s := s) (by
      rw [show s.dropWhile isBlank = c :: rest from hs]
      rfl)
    rw [squeeze_nil_cons hc, ← settle_cons hc (List.forall_mem_nil _), List.nil_append]

/-- A text whose lines are in order is settled. -/
theorem settle_settle (s : List Char) : settle (settle s) = settle s := by
  have hlines : ∀ lines : List (List Char),
      (∀ line ∈ lines, '\n' ∉ line ∧ row line = line ∧ line ≠ []) →
        solidRows (['\n'].intercalate lines) = lines := by
    intro lines h
    induction lines with
    | nil => rfl
    | cons line rest ih =>
      obtain ⟨⟨hnewline, hrow, hne⟩, hrest⟩ := List.forall_mem_cons.1 h
      have hline : solidRows line = [line] := by
        rw [solidRows_of_not_mem hnewline, hrow]
        simp [hne]
      cases rest with
      | nil => rw [List.intercalate_singleton, hline]
      | cons next rest =>
        rw [List.intercalate_cons_cons, List.append_assoc, List.singleton_append,
          solidRows_append_newline, hline, ih hrest, List.singleton_append]
  rw [settle, settle, hlines (solidRows s) fun line hline => ?_]
  rw [solidRows, List.mem_filter, List.mem_map] at hline
  obtain ⟨⟨stretch, hstretch, rfl⟩, hne⟩ := hline
  refine ⟨fun hmem => ?_, ?_, by simpa using hne⟩
  · have hline := newline_not_mem_of_mem_stretches hstretch
    exact newline_not_mem_expandTabs hline (mem_of_mem_trim hmem)
  · have htab : '\t' ∉ row stretch := fun hmem => tab_not_mem_expandTabs _ (mem_of_mem_trim hmem)
    rw [row, expandTabs_of_not_mem htab, row, trim_trim]

/-! ## Steps to another arm -/

/-- A rewriting that keeps what is read as a step to another arm: it trims as the text does, and it
leaves every character but blanks and closing braces as it is. -/
structure KeepsArms (f : List Char → List Char) : Prop where
  trimStart : ∀ s, Text.trimStart (f s) = f (Text.trimStart s)
  cons : ∀ c s, isBlank c = false → c ≠ '\x7d' → f (c :: s) = c :: f s
  head : ∀ c s, isBlank c = false → (f s).head? = some c → s.head? = some c

/-- The start of another arm is a word and an opening brace, with any blanks before each. -/
theorem dropElse?_eq (s : List Char) :
    dropElse? s = (dropWord? "else".toList (trimStart s)).bind fun body =>
      dropWord? ['\x7b'] (trimStart body) := by
  unfold dropElse?
  cases dropWord? "else".toList (trimStart s) with
  | none => rfl
  | some body =>
    simp only [Option.bind_some]
    split
    · rename_i rest hbody
      rw [hbody]
      rfl
    · rename_i hbody
      cases hrest : trimStart body with
      | nil => rfl
      | cons c rest =>
        rw [dropWord?, if_neg]
        rintro rfl
        exact hbody rest hrest

namespace KeepsArms

variable {f : List Char → List Char}

theorem dropWord? (hf : KeepsArms f) {word : List Char}
    (hword : word.all (fun c => !isBlank c && c != '\x7d') = true) (s : List Char) :
    Text.dropWord? word (f s) = (Text.dropWord? word s).map f := by
  induction word generalizing s with
  | nil => rfl
  | cons c word ih =>
    simp only [List.all_cons, Bool.and_eq_true, Bool.not_eq_true', bne_iff_ne] at hword
    obtain ⟨⟨hblank, hbrace⟩, hword⟩ := hword
    by_cases hs : s.head? = some c
    · obtain ⟨rest, rfl⟩ := List.head?_eq_some_iff.1 hs
      rw [hf.cons c rest hblank hbrace, Text.dropWord?, if_pos rfl, Text.dropWord?, if_pos rfl,
        ih hword]
    · have hother : ∀ t : List Char, t.head? ≠ some c → Text.dropWord? (c :: word) t = none := by
        intro t ht
        cases t with
        | nil => rfl
        | cons d t =>
          rw [Text.dropWord?, if_neg]
          rintro rfl
          exact ht rfl
      rw [hother s hs, hother (f s) fun hfs => hs (hf.head c s hblank hfs), Option.map_none]

/-- What follows the start of another arm is rewritten. -/
theorem dropElse? (hf : KeepsArms f) (s : List Char) :
    Text.dropElse? (f s) = (Text.dropElse? s).map f := by
  rw [dropElse?_eq, dropElse?_eq, hf.trimStart, hf.dropWord? (by decide)]
  cases Text.dropWord? "else".toList (Text.trimStart s) with
  | none => rfl
  | some body =>
    rw [Option.map_some, Option.bind_some, Option.bind_some, hf.trimStart, hf.dropWord? (by decide)]

end KeepsArms

/-! ### Squeezing keeps arms -/

theorem trimStart_squeeze {pad : List Char} (h : ∀ c ∈ pad, isBlank c = true) (s : List Char) :
    trimStart (squeeze pad s) = squeeze [] (trimStart s) := by
  induction s generalizing pad with
  | nil => rfl
  | cons c s ih =>
    by_cases hc : isBlank c = true
    · rw [squeeze, if_pos hc, trimStart_cons_of_blank hc,
        ih (List.forall_mem_append.2 ⟨h, by simpa using hc⟩)]
    · rw [squeeze, if_neg hc]
      rw [Bool.not_eq_true] at hc
      rw [trimStart_cons hc, squeeze_nil_cons hc, trimStart_append (isBlank_of_mem_gap h),
        trimStart_cons hc]

/-- After blanks, a squeezed text starts with a blank. -/
theorem isBlank_of_head?_squeeze {c : Char} {pad s : List Char} (hne : pad ≠ [])
    (h : ∀ c ∈ pad, isBlank c = true) (hhead : (squeeze pad s).head? = some c) :
    isBlank c = true := by
  induction s generalizing pad with
  | nil => cases hhead
  | cons d s ih =>
    rw [squeeze] at hhead
    split at hhead
    · rename_i hd
      exact ih (by simp) (List.forall_mem_append.2 ⟨h, by simpa using hd⟩) hhead
    · obtain ⟨first, rest, hgap⟩ := List.exists_cons_of_ne_nil (gap_ne_nil hne)
      rw [hgap, List.cons_append, List.head?_cons, Option.some.injEq] at hhead
      exact isBlank_of_mem_gap h c (by simp [hgap, hhead])

theorem keepsArms_squeeze : KeepsArms (squeeze []) where
  trimStart := trimStart_squeeze (by simp)
  cons c s hc _ := squeeze_nil_cons hc
  head c s hc hhead := by
    cases s with
    | nil => cases hhead
    | cons d s =>
      by_cases hd : isBlank d = true
      · rw [squeeze, if_pos hd] at hhead
        rw [isBlank_of_head?_squeeze (by simp) (by simpa using hd) hhead] at hc
        cases hc
      · rwa [squeeze_nil_cons (Bool.not_eq_true _ ▸ hd)] at hhead

/-! ### Collapsing arms -/

variable {c : Char} {s after : List Char}

theorem collapseElse_nil : collapseElse [] = [] := by
  rw [collapseElse]

theorem collapseElse_step (c : Char) (s : List Char) :
    collapseElse (c :: s) =
      if c = '\x7d' then
        (dropElse? s).elim (c :: collapseElse s) ("\x7d else \x7b".toList ++ collapseElse ·)
      else c :: collapseElse s := by
  rw [collapseElse]
  congr 1
  split
  · rename_i after hdrop
    simp only [hdrop, Option.elim_some]
  · rename_i hdrop
    simp only [hdrop, Option.elim_none]

theorem collapseElse_cons (h : c ≠ '\x7d') : collapseElse (c :: s) = c :: collapseElse s :=
  (collapseElse_step c s).trans (if_neg h)

theorem collapseElse_arm (h : dropElse? s = some after) :
    collapseElse ('\x7d' :: s) = "\x7d else \x7b".toList ++ collapseElse after := by
  rw [collapseElse_step, if_pos rfl, h, Option.elim_some]

theorem collapseElse_brace (h : dropElse? s = none) :
    collapseElse ('\x7d' :: s) = '\x7d' :: collapseElse s := by
  rw [collapseElse_step, if_pos rfl, h, Option.elim_none]

theorem collapseElse_append_of_not_mem {front : List Char} (h : '\x7d' ∉ front) :
    collapseElse (front ++ s) = front ++ collapseElse s := by
  induction front with
  | nil => rfl
  | cons c front ih =>
    rw [List.mem_cons, not_or] at h
    rw [List.cons_append, collapseElse_cons (Ne.symm h.1), ih h.2, List.cons_append]

theorem head?_collapseElse (s : List Char) : (collapseElse s).head? = s.head? := by
  cases s with
  | nil => rw [collapseElse_nil]
  | cons c s =>
    by_cases hc : c = '\x7d'
    · subst hc
      cases hdrop : dropElse? s with
      | none => rw [collapseElse_brace hdrop, List.head?_cons, List.head?_cons]
      | some after =>
        rw [collapseElse_arm hdrop]
        rfl
    · rw [collapseElse_cons hc, List.head?_cons, List.head?_cons]

theorem not_isBlank_brace : isBlank '\x7d' = false := by decide

theorem trimStart_collapseElse (s : List Char) :
    trimStart (collapseElse s) = collapseElse (trimStart s) := by
  induction s with
  | nil => rw [collapseElse_nil, show trimStart [] = [] from rfl, collapseElse_nil]
  | cons c s ih =>
    by_cases hc : isBlank c = true
    · have hbrace : c ≠ '\x7d' := (ne_of_isBlank not_isBlank_brace hc).symm
      rw [collapseElse_cons hbrace, trimStart_cons_of_blank hc, trimStart_cons_of_blank hc, ih]
    · rw [Bool.not_eq_true] at hc
      obtain ⟨rest, hrest⟩ := List.head?_eq_some_iff.1 (head?_collapseElse (c :: s))
      rw [trimStart_cons hc, hrest, trimStart_cons hc]

theorem keepsArms_collapseElse : KeepsArms collapseElse where
  trimStart := trimStart_collapseElse
  cons c s _ hc := collapseElse_cons hc
  head c s _ hhead := by rwa [head?_collapseElse] at hhead

/-- Collapsing arms once is enough. -/
theorem collapseElse_collapseElse (s : List Char) :
    collapseElse (collapseElse s) = collapseElse s := by
  fun_induction collapseElse s with
  | case1 => exact collapseElse_nil
  | case2 rest after h _ ih =>
    have hdrop : dropElse? (" else \x7b".toList ++ collapseElse after) =
        some (collapseElse after) := rfl
    exact (collapseElse_arm hdrop).trans (by rw [ih])
  | case3 rest h ih =>
    have hdrop : dropElse? (collapseElse rest) = none := by
      rw [keepsArms_collapseElse.dropElse?, h, Option.map_none]
    rw [collapseElse_brace hdrop, ih]
  | case4 c rest hc ih => rw [collapseElse_cons hc, ih]

/-- **Squeezing blanks and collapsing arms may change places.** -/
theorem collapseElse_squeeze {pad : List Char} (hpad : ∀ c ∈ pad, isBlank c = true)
    (s : List Char) : collapseElse (squeeze pad s) = squeeze pad (collapseElse s) := by
  have hfront : ∀ {pad : List Char}, (∀ c ∈ pad, isBlank c = true) → '\x7d' ∉ gap pad :=
    fun hpad hmem => absurd (isBlank_of_mem_gap hpad _ hmem) (by decide)
  have hbrace : ∀ {pad : List Char}, (∀ c ∈ pad, isBlank c = true) → ∀ t : List Char,
      squeeze pad ('\x7d' :: t) = gap pad ++ '\x7d' :: squeeze [] t := fun _ t => by
    rw [squeeze, if_neg (by simp [not_isBlank_brace])]
  fun_induction collapseElse s generalizing pad with
  | case1 => exact collapseElse_nil
  | case2 rest after h _ ih =>
    have hdrop : dropElse? (squeeze [] rest) = some (squeeze [] after) := by
      rw [keepsArms_squeeze.dropElse?, h, Option.map_some]
    rw [hbrace hpad, collapseElse_append_of_not_mem (hfront hpad), collapseElse_arm hdrop,
      ih (by simp)]
    exact (hbrace hpad (" else \x7b".toList ++ collapseElse after)).symm
  | case3 rest h ih =>
    have hdrop : dropElse? (squeeze [] rest) = none := by
      rw [keepsArms_squeeze.dropElse?, h, Option.map_none]
    rw [hbrace hpad, collapseElse_append_of_not_mem (hfront hpad), collapseElse_brace hdrop,
      ih (by simp), hbrace hpad]
  | case4 c rest hc ih =>
    by_cases hblank : isBlank c = true
    · rw [squeeze, if_pos hblank, squeeze, if_pos hblank,
        ih (List.forall_mem_append.2 ⟨hpad, by simpa using hblank⟩)]
    · rw [squeeze, if_neg hblank, squeeze, if_neg hblank,
        collapseElse_append_of_not_mem (hfront hpad), collapseElse_cons hc, ih (by simp)]

theorem settle_collapseElse (s : List Char) :
    settle (collapseElse s) = collapseElse (settle s) := by
  rw [settle_eq_squeeze, settle_eq_squeeze, collapseElse_squeeze (by simp), trimStart_collapseElse]

/-- **The canonical layout of a canonical layout is itself.** -/
theorem canonical_canonical (s : String) : canonical (canonical s) = canonical s := by
  have hchars : ∀ s, canonicalChars (canonicalChars s) = canonicalChars s := fun s => by
    rw [canonicalChars_eq, canonicalChars_eq, settle_collapseElse, collapseElse_collapseElse,
      settle_settle]
  rw [canonical, canonical, String.toList_ofList, hchars]

end Interlingua.Text
