import Interlingua.Proofs.Surface.Operands

/-!
# Texts taken apart at their operators

A reader of a text goes by the words that are separated by blanks outside of all brackets and
literals, and by how tightly those of them bind that are operators.

* `outerWords` — these words; brackets and literals, with all that is in them, are parts of words.
* `Language.weight` — how weak an operator is; other words have no weight.
* `Language.outermost?` — the words around the weakest operator, the last of them.
* `Language.alternate` — the words between the operators of one level, and these operators.
* `OperatorForm.limit` — the level up to which an operand goes without parentheses.
* `Shows.outermost?_between`, `Shows.alternate_text` — between operands that keep to their limits,
  an operator is found where it is.
-/

namespace Interlingua

open Surface

namespace Surface

/-! ## Words -/

/-- What a reader starts in. -/
def Mode.start : Mode := .code [] ' '

/-- Whether a character is on the surface. -/
def Mode.shows (mode : Mode) (c : Char) : Bool := mode.isOutside || (mode.step c).isOutside

/-- The words of a text, the first of which has begun before it. -/
def Mode.wordsFrom (mode : Mode) (word : List Char) : List Char → List (List Char)
  | [] => [word]
  | c :: rest =>
    if c = ' ' ∧ mode.shows c = true then word :: (mode.step c).wordsFrom [] rest
    else (mode.step c).wordsFrom (word ++ [c]) rest

/-- The words of a text that blanks on its surface separate. -/
def outerWords (text : String) : List (List Char) := Mode.start.wordsFrom [] text.toList

/-- What of a word is on the surface. -/
def face (word : List Char) : List Char := Mode.start.surface word

variable {mode : Mode} {word text more : List Char}

@[simp] theorem Mode.wordsFrom_nil : mode.wordsFrom word [] = [word] := rfl

theorem Mode.wordsFrom_cons (c : Char) (rest : List Char) :
    mode.wordsFrom word (c :: rest) =
      if c = ' ' ∧ mode.shows c = true then word :: (mode.step c).wordsFrom [] rest
      else (mode.step c).wordsFrom (word ++ [c]) rest := rfl

theorem Mode.wordsFrom_ne_nil : mode.wordsFrom word text ≠ [] := by
  induction text generalizing mode word with
  | nil => simp
  | cons c rest ih =>
    rw [wordsFrom_cons]
    split
    · simp
    · exact ih

theorem outerWords_ne_nil (text : String) : outerWords text ≠ [] := Mode.wordsFrom_ne_nil

/-- With the blanks between them, the words are the text. -/
theorem Mode.intercalate_wordsFrom :
    [' '].intercalate (mode.wordsFrom word text) = word ++ text := by
  induction text generalizing mode word with
  | nil => simp
  | cons c rest ih =>
    rw [wordsFrom_cons]
    split
    · rename_i hblank
      rw [List.intercalate_cons_of_ne_nil wordsFrom_ne_nil, ih, hblank.1]
      simp
    · rw [ih]
      simp

theorem ofList_intercalate_outerWords (text : String) :
    String.ofList ([' '].intercalate (outerWords text)) = text := by
  rw [outerWords, Mode.intercalate_wordsFrom, List.nil_append, String.ofList_toList]

/-- After a blank on the surface, a reader is where it started. -/
theorem Mode.step_blank (h : mode.shows ' ' = true) : mode.step ' ' = .start := by
  have hplain : ∀ stack last, Mode.step (.code stack last) ' ' = .code stack ' ' :=
    step_plain (by decide)
  cases mode with
  | code stack last =>
    rw [shows, hplain] at h
    rw [hplain]
    cases stack with
    | nil => rfl
    | cons top rest => cases h
  | literal mark escaped stack =>
    cases escaped with
    | true => cases h
    | false =>
      rw [shows, Mode.step] at h
      rw [Mode.step]
      split at h
      · rename_i hmark
        rw [if_pos hmark]
        cases stack with
        | nil => rfl
        | cons top rest => cases h
      · cases h
  | format escaped stack => cases escaped <;> cases h
  | brace stack =>
    have hstep : Mode.step (.brace stack) ' ' = .code (.field :: stack) ' ' :=
      hplain (.field :: stack) '\x7b'
    rw [shows, hstep] at h
    cases h

theorem Mode.surface_concat (mode : Mode) (word : List Char) (c : Char) :
    mode.surface (word ++ [c]) =
      mode.surface word ++ if (mode.run word).shows c then [c] else [] := by
  rw [surface_append]
  congr 1

theorem Mode.mem_of_mem_surface {c : Char} (h : c ∈ mode.surface text) : c ∈ text := by
  induction text generalizing mode with
  | nil => exact h
  | cons first rest ih =>
    rw [Mode.surface] at h
    split at h
    · rcases List.mem_cons.1 h with rfl | h
      · exact List.mem_cons_self
      · exact List.mem_cons_of_mem _ (ih h)
    · exact List.mem_cons_of_mem _ (ih h)

theorem Mode.map_face_wordsFrom (hword : ' ' ∉ face word) :
    ((Mode.start.run word).wordsFrom word text).map face = (face (word ++ text)).splitOn ' ' := by
  induction text generalizing word with
  | nil =>
    rw [List.append_nil, splitOn_of_not_mem hword]
    rfl
  | cons c rest ih =>
    rw [wordsFrom_cons]
    split
    · rename_i hblank
      obtain ⟨rfl, hshows⟩ := hblank
      have hface : face (word ++ ' ' :: rest) = face word ++ ' ' :: face rest := by
        rw [face, surface_append, Mode.surface]
        refine congrArg (face word ++ ·) ((if_pos hshows).trans ?_)
        rw [step_blank hshows]
        rfl
      have hrest : ((Mode.start.run []).wordsFrom [] rest).map face =
          (face ([] ++ rest)).splitOn ' ' := ih (by simp [face, Mode.surface])
      rw [Mode.run_nil, List.nil_append] at hrest
      have hsplit : (face word ++ ' ' :: face rest).splitOn ' ' =
          (face word).splitOn ' ' ++ (face rest).splitOn ' ' :=
        List.splitOnP_append_cons _ _ (by simp)
      rw [List.map_cons, step_blank hshows, hface, hsplit, hrest, splitOn_of_not_mem hword]
      rfl
    · rename_i hblank
      have hconcat : ' ' ∉ face (word ++ [c]) := by
        rw [face, surface_concat]
        intro hmem
        rcases List.mem_append.1 hmem with hmem | hmem
        · exact hword hmem
        · split at hmem
          · rename_i hshows
            exact hblank ⟨(List.mem_singleton.1 hmem).symm, hshows⟩
          · cases hmem
      have hrest := ih hconcat
      rw [Mode.run_append] at hrest
      simpa using hrest

/-- **The faces of the words are the words of the surface.** -/
theorem map_face_outerWords (text : String) :
    (outerWords text).map face = (surface text).splitOn ' ' := by
  have hstart : ' ' ∉ face [] := by simp [face, Mode.surface]
  exact Mode.map_face_wordsFrom hstart

theorem Mode.wordsFrom_append (h : (mode.run text).isOutside = true) :
    mode.wordsFrom word (text ++ ' ' :: more) =
      mode.wordsFrom word text ++ Mode.start.wordsFrom [] more := by
  induction text generalizing mode word with
  | nil =>
    rw [run_nil] at h
    have hshows : mode.shows ' ' = true := by rw [shows, h, Bool.true_or]
    have hsplit : mode.wordsFrom word (' ' :: more) = word :: (mode.step ' ').wordsFrom [] more :=
      if_pos ⟨rfl, hshows⟩
    rw [List.nil_append, hsplit, step_blank hshows]
    rfl
  | cons c rest ih =>
    rw [Mode.run_cons] at h
    rw [List.cons_append, wordsFrom_cons, wordsFrom_cons]
    split
    · rw [ih h]
      rfl
    · exact ih h

/-- A text closes what it opens. -/
def isClosed (text : String) : Bool := (Mode.start.run text.toList).isOutside

theorem isClosed_of_neat {text : String} {shown : List Char}
    (h : Neat AroundCode text.toList shown) : isClosed text = true := by
  obtain ⟨hrun, -⟩ := h [] ' ' (by simp [AroundCode]) fun _ => by decide
  rw [isClosed, Mode.start, hrun]
  rfl

/-- **A blank after a text that closes what it opens separates words.** -/
theorem outerWords_append {text : String} (h : isClosed text = true) (more : String) :
    outerWords (text ++ " " ++ more) = outerWords text ++ outerWords more := by
  have hblank : " ".toList = [' '] := by simp
  rw [outerWords, String.toList_append, String.toList_append, hblank, List.append_assoc]
  exact Mode.wordsFrom_append h

end Surface

/-! ## Operators among words -/

namespace Language

variable {lang : Language} {form : OperatorForm} {word : List Char}

/-- How weak the operator is that a word belongs to; nothing for other words. -/
def weight (lang : Language) (word : List Char) : Nat :=
  ((lang.infixes.find? fun form => form.words.contains word).map OperatorForm.level).getD 0

theorem weight_eq (hform : form ∈ lang.infixes) (hword : word ∈ form.words) :
    lang.weight word = form.level := by
  unfold weight
  cases hfind : lang.infixes.find? fun form => form.words.contains word with
  | none =>
    have hnone := List.find?_eq_none.1 hfind form hform
    exact absurd (by simpa using hword) hnone
  | some other =>
    have hother := List.find?_some hfind
    exact level_of_shared hform (List.mem_of_find?_eq_some hfind) hword (by simpa using hother)

theorem exists_of_weight (h : lang.weight word ≠ 0) :
    ∃ form ∈ lang.infixes, word ∈ form.words ∧ form.level = lang.weight word := by
  unfold weight at h ⊢
  cases hfind : lang.infixes.find? fun form => form.words.contains word with
  | none =>
    rw [hfind] at h
    exact absurd rfl h
  | some form =>
    have hword := List.find?_some hfind
    exact ⟨form, List.mem_of_find?_eq_some hfind, by simpa using hword, rfl⟩

/-- The words before the weakest operator, the operator, and the words after it.  Of operators that
bind alike, it is the last. -/
def outermost? (lang : Language) :
    List (List Char) → Option (List (List Char) × List Char × List (List Char))
  | [] => none
  | word :: rest =>
    match lang.outermost? rest with
    | none => if lang.weight word = 0 then none else some ([], word, rest)
    | some (before, operator, after) =>
      if lang.weight operator < lang.weight word then some ([], word, rest)
      else some (word :: before, operator, after)

theorem outermost?_cons (word : List Char) (rest : List (List Char)) :
    lang.outermost? (word :: rest) =
      match lang.outermost? rest with
      | none => if lang.weight word = 0 then none else some ([], word, rest)
      | some (before, operator, after) =>
        if lang.weight operator < lang.weight word then some ([], word, rest)
        else some (word :: before, operator, after) := rfl

theorem mem_of_outermost? {words before after : List (List Char)} {operator : List Char}
    (h : lang.outermost? words = some (before, operator, after)) : operator ∈ words := by
  induction words generalizing before operator after with
  | nil => cases h
  | cons word rest ih =>
    rw [outermost?_cons] at h
    cases hrest : lang.outermost? rest with
    | none =>
      rw [hrest] at h
      dsimp only at h
      split at h
      · cases h
      · cases h
        exact List.mem_cons_self
    | some found =>
      obtain ⟨front, inner, back⟩ := found
      rw [hrest] at h
      dsimp only at h
      split at h
      · cases h
        exact List.mem_cons_self
      · cases h
        exact List.mem_cons_of_mem _ (ih hrest)

theorem outermost?_of_weight (h : lang.weight word ≠ 0) {after : List (List Char)}
    (hafter : ∀ other ∈ after, lang.weight other < lang.weight word) :
    lang.outermost? (word :: after) = some ([], word, after) := by
  rw [outermost?_cons]
  cases hfound : lang.outermost? after with
  | none => exact if_neg h
  | some found =>
    obtain ⟨front, operator, back⟩ := found
    exact if_pos (hafter operator (mem_of_outermost? hfound))

/-- An operator with no weaker one before it, and with tighter ones only after it, is found. -/
theorem outermost?_append (h : lang.weight word ≠ 0) {before after : List (List Char)}
    (hbefore : ∀ other ∈ before, lang.weight other ≤ lang.weight word)
    (hafter : ∀ other ∈ after, lang.weight other < lang.weight word) :
    lang.outermost? (before ++ word :: after) = some (before, word, after) := by
  induction before with
  | nil => exact outermost?_of_weight h hafter
  | cons first rest ih =>
    rw [List.cons_append, outermost?_cons, ih fun other hother => hbefore other (by simp [hother])]
    exact if_neg (Nat.not_lt.2 (hbefore first (by simp)))

/-- Words without operators. -/
theorem outermost?_eq_none {words : List (List Char)} (h : ∀ word ∈ words, lang.weight word = 0) :
    lang.outermost? words = none := by
  induction words with
  | nil => rfl
  | cons word rest ih =>
    rw [outermost?_cons, ih fun other hother => h other (by simp [hother])]
    exact if_pos (h word (by simp))

/-- The words up to the first operator of a level, and each operator of that level with the words
up to the next. -/
def alternate (lang : Language) (level : Nat) :
    List (List Char) → List (List Char) × List (List (List Char) × List (List Char))
  | [] => ([], [])
  | word :: rest =>
    let later := lang.alternate level rest
    if lang.weight word = level then
      match later with
      | ([], (operator, next) :: links) => ([], (word :: operator, next) :: links)
      | (operand, links) => ([], ([word], operand) :: links)
    else (word :: later.1, later.2)

variable {level : Nat} {words rest : List (List Char)}

theorem alternate_operand (h : ∀ word ∈ words, lang.weight word ≠ level) :
    lang.alternate level (words ++ rest) =
      (words ++ (lang.alternate level rest).1, (lang.alternate level rest).2) := by
  induction words with
  | nil => rfl
  | cons word words ih =>
    rw [List.cons_append, alternate, ih fun other hother => h other (by simp [hother])]
    exact if_neg (h word (by simp))

/-- All words of an operator belong together. -/
theorem alternate_operator (hne : words ≠ []) (h : ∀ word ∈ words, lang.weight word = level)
    (hrest : (lang.alternate level rest).1 ≠ []) :
    lang.alternate level (words ++ rest) =
      ([], (words, (lang.alternate level rest).1) :: (lang.alternate level rest).2) := by
  induction words with
  | nil => exact absurd rfl hne
  | cons word words ih =>
    rw [List.cons_append, alternate]
    by_cases hwords : words = []
    · subst hwords
      obtain ⟨first, others, hfirst⟩ := List.exists_cons_of_ne_nil hrest
      rw [List.nil_append]
      generalize lang.alternate level rest = later at hfirst
      obtain ⟨operand, links⟩ := later
      cases hfirst
      exact if_pos (h word (by simp))
    · rw [ih hwords fun other hother => h other (by simp [hother])]
      exact if_pos (h word (by simp))

end Language

namespace Surface

variable {lang : Language} {bound : Nat} {form : OperatorForm} {word : List Char}
  {text more : String}

/-- The words of an operator show themselves. -/
theorem face_of_mem_words (hform : form ∈ lang.infixes) (hword : word ∈ form.words) :
    face word = word := by
  rcases infix_word hform hword with hsymbol | hlower
  · exact (run_symbols hsymbol (by simp [AroundCode]) (by decide)).2
  · have hmarks : ∀ c ∈ marks, c.isLower = false := forall_mem_of_all (by decide)
    have hplain : word.all isPlain = true := by
      refine List.all_eq_true.2 fun c hc => ?_
      have hc := List.all_eq_true.1 hlower c hc
      by_contra hmark
      rw [hmarks c (by simpa [isPlain] using hmark)] at hc
      cases hc
    exact (Neat.plain hplain [] ' ' trivial fun _ => by decide).2

/-- An operator is split into its words. -/
theorem outerWords_value (hform : form ∈ lang.infixes) :
    isClosed form.value = true ∧ outerWords form.value = form.words := by
  have hall : ∀ form ∈ lang.infixes,
      isClosed form.value = true ∧ outerWords form.value = form.words := by
    cases lang <;> decide
  exact hall form hform

namespace Shows

theorem calm_face (h : Shows lang bound text) :
    ∀ word ∈ outerWords text, Calm lang bound (face word) := by
  obtain ⟨words, hneat, hcalm, first, hfirst, -⟩ := h
  have hne : words ≠ [] := by
    rintro rfl
    cases hfirst
  have hfaces : (outerWords text).map face = words := by
    rw [map_face_outerWords, surface_eq hneat]
    exact List.splitOn_intercalate ' ' (fun word hword => (hcalm word hword).blank) hne
  intro word hword
  exact hcalm _ (hfaces ▸ List.mem_map_of_mem hword)

/-- **No word of a text weighs more than the text shows.** -/
theorem weight_le (h : Shows lang bound text) :
    ∀ word ∈ outerWords text, lang.weight word ≤ bound := by
  intro word hword
  by_cases hzero : lang.weight word = 0
  · omega
  · obtain ⟨form, hform, hmem, hlevel⟩ := Language.exists_of_weight hzero
    have hcalm := h.calm_face word hword
    rw [face_of_mem_words hform hmem] at hcalm
    rw [← hlevel]
    exact hcalm.level form hform hmem

theorem outerWords_between (h : Shows lang bound text) (hform : form ∈ lang.infixes)
    (more : String) : outerWords (text ++ " " ++ form.value ++ " " ++ more) =
      outerWords text ++ (form.words ++ outerWords more) := by
  obtain ⟨shown, hneat⟩ := h.neat
  obtain ⟨hclosed, hwords⟩ := outerWords_value hform
  have hassoc : text ++ " " ++ form.value ++ " " ++ more =
      text ++ " " ++ (form.value ++ " " ++ more) := by
    simp only [String.append_assoc]
  rw [hassoc, outerWords_append (isClosed_of_neat hneat), outerWords_append hclosed, hwords]

/-- **The operator between two texts is the outermost**, if the first shows none that is weaker, and
the second tighter ones only. -/
theorem outermost?_between (hform : form ∈ lang.infixes) (hword : form.words = [word])
    (h : Shows lang form.level text) (h' : Shows lang (form.level - 1) more) :
    lang.outermost? (outerWords (text ++ " " ++ form.value ++ " " ++ more)) =
      some (outerWords text, word, outerWords more) := by
  have hweight : lang.weight word = form.level := Language.weight_eq hform (by simp [hword])
  have hlevel := infix_level hform
  rw [h.outerWords_between hform, hword, List.singleton_append]
  refine Language.outermost?_append (by omega) ?_ ?_
  · intro other hother
    rw [hweight]
    exact h.weight_le other hother
  · intro other hother
    have hle := h'.weight_le other hother
    omega

/-- **A text that shows tighter operators only is one operand.** -/
theorem alternate_text {level : Nat} (hbound : bound < level) (h : Shows lang bound text) :
    lang.alternate level (outerWords text) = (outerWords text, []) := by
  have hweight : ∀ word ∈ outerWords text, lang.weight word ≠ level := by
    intro word hword
    have hle := h.weight_le word hword
    omega
  have hoperand : lang.alternate level (outerWords text ++ []) = _ :=
    Language.alternate_operand hweight
  simpa [Language.alternate] using hoperand

end Shows

/-! ## Operands with operators between them -/

/-- Words with blanks between them. -/
def textOf (words : List (List Char)) : String := String.ofList ([' '].intercalate words)

@[simp] theorem textOf_outerWords (text : String) : textOf (outerWords text) = text :=
  ofList_intercalate_outerWords text

theorem textOf_words (form : OperatorForm) : textOf form.words = form.value := by
  have hwords : [' '].intercalate form.words = form.value.toList := List.intercalate_splitOn ' '
  rw [textOf, hwords, String.ofList_toList]

/-- An operand, and operators each with an operand after it. -/
def linked (first : String) : List (OperatorForm × String) → String
  | [] => first
  | (form, next) :: rest => first ++ " " ++ form.value ++ " " ++ linked next rest

theorem linked_eq_append (first : String) (links : List (OperatorForm × String)) :
    linked first links =
      first ++ String.join (links.map fun link => " " ++ link.1.value ++ " " ++ link.2) := by
  induction links generalizing first with
  | nil => simp [linked]
  | cons link rest ih =>
    rw [linked, ih, List.map_cons, String.join_cons]
    simp only [String.append_assoc]

/-- A text without a blank on its surface is one word. -/
theorem outerWords_eq_singleton (h : ' ' ∉ surface text) : outerWords text = [text.toList] := by
  have hfaces := map_face_outerWords text
  rw [splitOn_of_not_mem h] at hfaces
  obtain ⟨one, hone, -⟩ := List.map_eq_singleton_iff.1 hfaces
  have htext : [' '].intercalate (outerWords text) = [] ++ text.toList :=
    Mode.intercalate_wordsFrom
  rw [hone] at htext
  rw [hone]
  simpa using htext

theorem surface_parenthesized {shown : List Char} (h : Neat AroundCode text.toList shown) :
    surface (parenthesized text) = ['(', ')'] := Shows.surface_eq (.weaken (.parenthesized h))

/-- The operands of a text, and the operators of one level between them; none if the text shows an
operator that is weaker. -/
def operands? (lang : Language) (level : Nat) (text : String) :
    Option (String × List (String × String)) :=
  let words := outerWords text
  if words.all fun word => lang.weight word ≤ level then
    let (first, links) := lang.alternate level words
    some (textOf first, links.map fun link => (textOf link.1, textOf link.2))
  else none

/-- Each operator is one of a level, and the operands show tighter ones only. -/
structure Level (lang : Language) (level : Nat) (first : String)
    (links : List (OperatorForm × String)) : Prop where
  first : Shows lang (level - 1) first
  form : ∀ link ∈ links, link.1 ∈ lang.infixes ∧ link.1.level = level
  next : ∀ link ∈ links, Shows lang (level - 1) link.2

namespace Level

variable {level : Nat} {first : String} {links : List (OperatorForm × String)}

theorem tail {link : OperatorForm × String} (h : Level lang level first (link :: links)) :
    Level lang level link.2 links :=
  ⟨h.next link (by simp), fun other hother => h.form other (by simp [hother]),
    fun other hother => h.next other (by simp [hother])⟩

theorem shows (h : Level lang level first links) : Shows lang level (linked first links) := by
  induction links generalizing first with
  | nil => exact h.first.mono (Nat.sub_le _ _)
  | cons link rest ih =>
    obtain ⟨hform, hlevel⟩ := h.form link (by simp)
    exact .between hform (Nat.le_of_eq hlevel) (h.first.mono (Nat.sub_le _ _)) (ih h.tail)

theorem alternate (hpos : 0 < level) (h : Level lang level first links) :
    lang.alternate level (outerWords (linked first links)) =
      (outerWords first, links.map fun link => (link.1.words, outerWords link.2)) := by
  induction links generalizing first with
  | nil => exact h.first.alternate_text (by omega)
  | cons link rest ih =>
    obtain ⟨hform, hlevel⟩ := h.form link (by simp)
    have hwords : ∀ word ∈ link.1.words, lang.weight word = level := fun word hword =>
      (Language.weight_eq hform hword).trans hlevel
    have hfirst : ∀ word ∈ outerWords first, lang.weight word ≠ level := by
      intro word hword
      have hle := h.first.weight_le word hword
      omega
    have hrest := ih h.tail
    have hnext : (lang.alternate level (outerWords (linked link.2 rest))).1 ≠ [] := by
      rw [hrest]
      exact outerWords_ne_nil _
    rw [linked, h.first.outerWords_between hform, Language.alternate_operand hfirst,
      Language.alternate_operator (words_ne_nil hform) hwords hnext, hrest, List.append_nil]
    rfl

/-- **Operands with operators of one level between them are read back.** -/
theorem operands?_linked (hpos : 0 < level) (h : Level lang level first links) :
    operands? lang level (linked first links) =
      some (first, links.map fun link => (link.1.value, link.2)) := by
  have hweight : (outerWords (linked first links)).all (fun word => lang.weight word ≤ level) =
      true := by
    rw [List.all_eq_true]
    exact fun word hword => decide_eq_true (h.shows.weight_le word hword)
  rw [operands?, h.alternate hpos]
  simp only [hweight, if_true, textOf_outerWords, List.map_map, Function.comp_def, textOf_words]

end Level

end Surface

/-! ## Operands of operators -/

/-- The level up to which an operand goes without parentheses. -/
def OperatorForm.limit (parent : OperatorForm) (side : Side) : Nat :=
  if parent.strict then parent.level - 1
  else
    match parent.assoc, side with
    | .left, .left | .right, .right => parent.level
    | _, _ => parent.level - 1

theorem OperatorForm.level_le_limit {parent child : OperatorForm} {side : Side}
    (h : parent.mustGroup child side = false) : child.level ≤ parent.limit side := by
  have hle := level_le_of_not_mustGroup h
  by_cases hlevel : child.level = parent.level
  · have hstrict : parent.strict = false := by
      cases hstrict : parent.strict with
      | false => rfl
      | true => simp [mustGroup, hlevel, hstrict] at h
    unfold limit
    rw [hstrict]
    rcases side_of_not_mustGroup h hlevel with ⟨hassoc, rfl⟩ | ⟨hassoc, rfl⟩ <;>
      rw [hassoc] <;> exact hle
  · have hlow : child.level ≤ parent.level - 1 := by omega
    have hlimit : parent.level - 1 ≤ parent.limit side := by
      unfold limit
      split
      · exact Nat.le_refl _
      · split <;> omega
    exact Nat.le_trans hlow hlimit

namespace Site

variable {site : Site} {id : NodeId}

theorem boundOf_le_limit {lang : Language} {arena : Arena} {parent : OperatorForm} {side : Side}
    {e : Expr} (he : arena.expr id = .ok e) (h : lang.wraps arena parent id side = .ok false) :
    lang.boundOf e ≤ parent.limit side := by
  simp only [Language.wraps, Language.exprForm?, he, bind, Except.bind, pure, Except.pure] at h
  unfold Language.boundOf
  cases hform : lang.formOf? e with
  | none => exact Nat.zero_le _
  | some form =>
    rw [hform] at h
    exact OperatorForm.level_le_limit (Except.ok.inj h)

end Site

end Interlingua
