import Interlingua.Emit.Render
import Interlingua.Proofs.Surface.Scan
import Mathlib.Data.List.Infix

/-!
# Operators on the surface of a text

* `Language.infixes` — the operators of a language that stand between operands, each of which is
  written with a blank on either side.
* `Language.exposed` — those that the surface of a text shows as words of their own.
* `Language.isClear` — under an operator, a text can go without parentheses: it shows no operator
  that binds weaker, and no comma.
* `Shows` — a text is made of words, none of which is an operator that binds weaker than a bound.
  There is one rule for each way of writing an expression.
-/

namespace Interlingua

open Surface

/-! ## Words -/

/-- Every operator of a language that stands between operands. -/
def Language.infixes (lang : Language) : List OperatorForm :=
  BinaryOp.all.filterMap lang.operators.binary ++ AssignOp.all.filterMap lang.operators.assign ++
    AssignOp.all.filterMap lang.operators.assignStatement ++
    [lang.operators.ternary.1, lang.operators.ternary.2]

/-- The words of an operator. -/
def OperatorForm.words (form : OperatorForm) : List (List Char) := form.value.toList.splitOn ' '

/-- The operators that a text shows outside of brackets and literals. -/
def Language.exposed (lang : Language) (text : String) : List OperatorForm :=
  lang.infixes.filter fun form => form.words <:+: (surface text).splitOn ' '

/-- Whether a text shows neither a comma nor an operator that binds weaker than its parent. -/
def Language.isClear (lang : Language) (parent : OperatorForm) (text : String) : Bool :=
  !(surface text).contains ',' && (lang.exposed text).all (·.level ≤ parent.level)

namespace Surface

variable {lang : Language} {bound : Nat} {form : OperatorForm} {word : List Char}

/-- A word that is no operator weaker than a bound, and holds no comma. -/
structure Calm (lang : Language) (bound : Nat) (word : List Char) : Prop where
  blank : ' ' ∉ word
  comma : ',' ∉ word
  level : ∀ form ∈ lang.infixes, word ∈ form.words → form.level ≤ bound

theorem Calm.mono {bound' : Nat} (h : Calm lang bound word) (hle : bound ≤ bound') :
    Calm lang bound' word :=
  ⟨h.blank, h.comma, fun form hform hword => Nat.le_trans (h.level form hform hword) hle⟩

/-- Not made of symbols alone. -/
def Solid (word : List Char) : Prop := ∃ c ∈ word, isSymbol c = false

/-! ## What the operators of the languages look like -/

/-- The words that operators are made of when they are not made of symbols. -/
def operatorWords : List (List Char) :=
  ["and", "or", "is", "not", "in", "if", "else", "instanceof"].map String.toList

/-- What is true of every operator of a language, checked over its table at once. -/
theorem infix_checked : ∀ form ∈ lang.infixes,
    form.words ≠ [] ∧ lang.operators.access.level < form.level ∧
      (form.value.toList.all isSymbol = true ∨ form.value.toList.all isPlain = true) ∧
      ∀ word ∈ form.words, (word.all isSymbol = true ∨ word ∈ operatorWords) ∧
        ' ' ∉ word ∧ ',' ∉ word ∧ (Language.isIdentifier (String.ofList word) = true →
          lang.grammar.keywords.contains (String.ofList word) = true) := by
  cases lang <;> decide +kernel

/-- The word of an operator is made of symbols, or it is a word of small letters. -/
theorem infix_word (hform : form ∈ lang.infixes) (hword : word ∈ form.words) :
    word.all isSymbol = true ∨ word.all Char.isLower = true := by
  obtain ⟨-, -, -, hwords⟩ := infix_checked form hform
  refine (hwords word hword).1.imp_right fun hmem => ?_
  have hlower : ∀ word ∈ operatorWords, word.all Char.isLower = true := by decide
  exact hlower word hmem

/-- Any other word that is more than symbols is in no operator. -/
theorem not_mem_words (hsolid : word.all isSymbol = false) (hother : word ∉ operatorWords) :
    ∀ form ∈ lang.infixes, word ∉ form.words := by
  intro form hform hword
  obtain ⟨-, -, -, hwords⟩ := infix_checked form hform
  rcases (hwords word hword).1 with hsymbols | hmem
  · rw [hsolid] at hsymbols
    cases hsymbols
  · exact hother hmem

/-- Operators that share a word bind alike. -/
theorem level_of_shared {other : OperatorForm} (hform : form ∈ lang.infixes)
    (hother : other ∈ lang.infixes) (hword : word ∈ form.words) (hword' : word ∈ other.words) :
    other.level = form.level := by
  have hall : lang.infixes.all (fun form => lang.infixes.all fun other =>
      other.level == form.level || form.words.all fun word => !other.words.contains word) = true := by
    cases lang <;> decide +kernel
  have hpair := List.all_eq_true.1 (List.all_eq_true.1 hall form hform) other hother
  rcases Bool.or_eq_true_iff.1 hpair with hlevel | hapart
  · exact beq_iff_eq.1 hlevel
  · have hnot := List.all_eq_true.1 hapart word hword
    rw [List.contains_iff_mem.2 hword'] at hnot
    cases hnot

theorem words_ne_nil (hform : form ∈ lang.infixes) : form.words ≠ [] := (infix_checked form hform).1

/-- Operators bind weaker than access, and they hold neither a blank at an end nor a comma. -/
theorem infix_level (hform : form ∈ lang.infixes) : lang.operators.access.level < form.level :=
  (infix_checked form hform).2.1

theorem infix_comma (hform : form ∈ lang.infixes) (hword : word ∈ form.words) :
    ' ' ∉ word ∧ ',' ∉ word := by
  obtain ⟨-, -, -, hwords⟩ := infix_checked form hform
  obtain ⟨-, hblank, hcomma, -⟩ := hwords word hword
  exact ⟨hblank, hcomma⟩

/-- The words of an operator that are names are keywords. -/
theorem infix_keyword (hform : form ∈ lang.infixes) (hword : word ∈ form.words)
    (hname : Language.isIdentifier (String.ofList word) = true) :
    lang.grammar.keywords.contains (String.ofList word) = true := by
  obtain ⟨-, -, -, hwords⟩ := infix_checked form hform
  obtain ⟨-, -, -, hkeyword⟩ := hwords word hword
  exact hkeyword hname

/-- An operator between blanks shows itself. -/
theorem infix_neat (hform : form ∈ lang.infixes) :
    Neat AroundCode (' ' :: form.value.toList ++ [' ']) (' ' :: form.value.toList ++ [' ']) := by
  obtain ⟨-, -, hsymbol | hplain, -⟩ := infix_checked form hform
  · exact .symbol hsymbol
  · have hblank : isPlain ' ' = true := by decide
    exact .weaken (.plain (by simp [hplain, hblank]))

/-! ## Words with blanks between them -/

theorem intercalate_append {words more : List (List Char)} (h : words ≠ []) (h' : more ≠ []) :
    [' '].intercalate (words ++ more) =
      [' '].intercalate words ++ ' ' :: [' '].intercalate more := by
  induction words with
  | nil => exact absurd rfl h
  | cons word rest ih =>
    by_cases hrest : rest = []
    · subst hrest
      rw [List.singleton_append, List.intercalate_cons_of_ne_nil h', List.intercalate_singleton,
        List.append_assoc, List.singleton_append]
    · rw [List.cons_append, List.intercalate_cons_of_ne_nil (by simp [hrest]),
        List.intercalate_cons_of_ne_nil hrest, ih hrest]
      simp

theorem intercalate_append_head (start word : List Char) (rest : List (List Char)) :
    [' '].intercalate ((start ++ word) :: rest) = start ++ [' '].intercalate (word :: rest) := by
  cases rest with
  | nil => simp
  | cons next rest => simp [List.intercalate_cons_cons]

theorem intercalate_append_last (rest : List (List Char)) (word ending : List Char) :
    [' '].intercalate (rest ++ [word ++ ending]) =
      [' '].intercalate (rest ++ [word]) ++ ending := by
  by_cases hrest : rest = []
  · simp [hrest]
  · rw [intercalate_append hrest (by simp), intercalate_append hrest (by simp)]
    simp

theorem mem_intercalate {c : Char} {mark : List Char} {words : List (List Char)}
    (h : c ∈ mark.intercalate words) : c ∈ mark ∨ ∃ word ∈ words, c ∈ word := by
  induction words with
  | nil => simp at h
  | cons word rest ih =>
    by_cases hrest : rest = []
    · subst hrest
      exact .inr ⟨word, by simp, by simpa using h⟩
    · rw [List.intercalate_cons_of_ne_nil hrest] at h
      simp only [List.mem_append] at h
      rcases h with (hword | hmark) | hmore
      · exact .inr ⟨word, by simp, hword⟩
      · exact .inl hmark
      · rcases ih hmore with hmark | ⟨other, hother, hc⟩
        · exact .inl hmark
        · exact .inr ⟨other, List.mem_cons_of_mem _ hother, hc⟩

/-! ## Texts made of calm words -/

/-- A word that mixes symbols with other characters, or holds one that is neither a symbol nor a
small letter, is no operator. -/
theorem Calm.of_odd (hblank : ' ' ∉ word) (hcomma : ',' ∉ word)
    (hsymbol : ∃ c ∈ word, isSymbol c = false) (hlower : ∃ c ∈ word, c.isLower = false) :
    Calm lang bound word := by
  refine ⟨hblank, hcomma, fun form hform hword => ?_⟩
  obtain ⟨c, hc, hcsymbol⟩ := hsymbol
  obtain ⟨d, hd, hdlower⟩ := hlower
  rcases infix_word hform hword with hall | hall
  · rw [List.all_eq_true.1 hall c hc] at hcsymbol
    cases hcsymbol
  · rw [List.all_eq_true.1 hall d hd] at hdlower
    cases hdlower

/-- The words of an operator are calm under a bound that the operator keeps to. -/
theorem Calm.of_operator (hform : form ∈ lang.infixes) (hword : word ∈ form.words)
    (hle : form.level ≤ bound) : Calm lang bound word := by
  obtain ⟨hblank, hcomma⟩ := infix_comma hform hword
  refine ⟨hblank, hcomma, fun other hother hword' => ?_⟩
  rw [level_of_shared hform hother hword hword']
  exact hle

/-- A text is made of words, none of which is an operator that binds weaker than the bound; the
first is more than symbols. -/
def Shows (lang : Language) (bound : Nat) (text : String) : Prop :=
  ∃ words : List (List Char), Neat AroundCode text.toList ([' '].intercalate words) ∧
    (∀ word ∈ words, Calm lang bound word) ∧ ∃ first ∈ words.head?, Solid first

namespace Shows

variable {text more : String} {face : List Char}

theorem one (hneat : Neat AroundCode text.toList face) (hcalm : Calm lang bound face)
    (hsolid : Solid face) : Shows lang bound text :=
  ⟨[face], by simpa using hneat, by simpa using hcalm, face, rfl, hsolid⟩

theorem mono {bound' : Nat} (h : Shows lang bound text) (hle : bound ≤ bound') :
    Shows lang bound' text := by
  obtain ⟨words, hneat, hcalm, hfirst⟩ := h
  exact ⟨words, hneat, fun word hword => (hcalm word hword).mono hle, hfirst⟩

/-- Nothing binds as tightly as access does, except what shows no operator. -/
theorem tighten (h : Shows lang bound text) (hle : bound ≤ lang.operators.access.level) :
    Shows lang 0 text := by
  obtain ⟨words, hneat, hcalm, hfirst⟩ := h
  refine ⟨words, hneat, fun word hword => ?_, hfirst⟩
  obtain ⟨hblank, hcomma, hlevel⟩ := hcalm word hword
  refine ⟨hblank, hcomma, fun form hform hmem => ?_⟩
  have hlow := hlevel form hform hmem
  have hhigh := infix_level hform
  omega

theorem neat (h : Shows lang bound text) : ∃ face, Neat AroundCode text.toList face := by
  obtain ⟨words, hneat, -⟩ := h
  exact ⟨_, hneat⟩

theorem surface_eq (hneat : Neat AroundCode text.toList face) : surface text = face := by
  obtain ⟨-, hface⟩ := hneat [] ' ' (by simp [AroundCode]) fun _ => by decide
  simpa [surface] using hface

theorem ne_nil (h : Shows lang bound text) : text.toList ≠ [] := by
  obtain ⟨words, hneat, -, first, hfirst, c, hc, -⟩ := h
  intro hnil
  have hface := surface_eq hneat
  obtain ⟨rest, hwords⟩ := List.head?_eq_some_iff.1 hfirst
  simp only [surface, hnil, Mode.surface, hwords] at hface
  have hempty : first = [] := by
    cases rest with
    | nil => simpa using hface.symm
    | cons next rest => simp [List.intercalate_cons_cons] at hface
  simp [hempty] at hc

/-- **A text that shows nothing weaker than a bound is clear under every operator that is not
tighter than the bound.** -/
theorem isClear {parent : OperatorForm} (h : Shows lang bound text) (hle : bound ≤ parent.level) :
    lang.isClear parent text = true := by
  obtain ⟨words, hneat, hcalm, first, hfirst, -⟩ := h
  have hne : words ≠ [] := by
    rintro rfl
    cases hfirst
  have hsplit : (surface text).splitOn ' ' = words := by
    rw [surface_eq hneat]
    exact List.splitOn_intercalate ' ' (fun word hword => (hcalm word hword).blank) hne
  have hcomma : (surface text).contains ',' = false := by
    rw [surface_eq hneat, List.contains_eq_mem, decide_eq_false_iff_not]
    intro hmem
    rcases mem_intercalate hmem with hblank | ⟨word, hword, hc⟩
    · exact absurd hblank (by decide)
    · exact (hcalm word hword).comma hc
  rw [Language.isClear, hcomma, Bool.not_false, Bool.true_and, List.all_eq_true]
  intro form hform
  rw [Language.exposed, List.mem_filter, hsplit, decide_eq_true_eq] at hform
  obtain ⟨word, rest, hwords⟩ := List.exists_cons_of_ne_nil (words_ne_nil hform.1)
  have hword : word ∈ form.words := by simp [hwords]
  have hlevel := (hcalm word (hform.2.subset hword)).level form hform.1 hword
  exact decide_eq_true (Nat.le_trans hlevel hle)

/-! ## Ways of writing an expression -/

/-- Between the words of two texts, those of an operator. -/
theorem between (hform : form ∈ lang.infixes) (hle : form.level ≤ bound)
    (hl : Shows lang bound text) (hr : Shows lang bound more) :
    Shows lang bound (text ++ " " ++ form.value ++ " " ++ more) := by
  obtain ⟨lefts, hlneat, hlcalm, first, hfirst, hsolid⟩ := hl
  obtain ⟨rights, hrneat, hrcalm, next, hnext, -⟩ := hr
  have hlne : lefts ≠ [] := by
    rintro rfl
    cases hfirst
  have hrne : rights ≠ [] := by
    rintro rfl
    cases hnext
  refine ⟨lefts ++ (form.words ++ rights), ?_, ?_, first, ?_, hsolid⟩
  · have hoperator := infix_neat hform
    have hleft := hlneat.append_of_head hoperator (by simp)
    have hall := hleft.append hrneat fun last hlast => by
      rw [← List.append_assoc, List.getLast?_concat] at hlast
      cases hlast
      exact fun _ => by decide
    have hwords : [' '].intercalate form.words = form.value.toList := List.intercalate_splitOn ' '
    rw [intercalate_append hlne (by simp [hrne]), intercalate_append (words_ne_nil hform) hrne,
      hwords]
    simpa using hall
  · intro word hword
    simp only [List.mem_append] at hword
    rcases hword with hword | hword | hword
    · exact hlcalm word hword
    · exact .of_operator hform hword hle
    · exact hrcalm word hword
  · rw [List.head?_append_of_ne_nil _ hlne]
    exact hfirst

/-- Two texts with a blank between them. -/
theorem spaced (h : Shows lang bound text) (h' : Shows lang bound more) :
    Shows lang bound (text ++ " " ++ more) := by
  obtain ⟨words, hneat, hwords, first, hfirst, hsolid⟩ := h
  obtain ⟨others, hneat', hothers, next, hnext, -⟩ := h'
  have hne : words ≠ [] := by
    rintro rfl
    cases hfirst
  have hne' : others ≠ [] := by
    rintro rfl
    cases hnext
  refine ⟨words ++ others, ?_, ?_, first, ?_, hsolid⟩
  · have hblank : Neat AroundCode [' '] [' '] := .weaken (.plain (by decide))
    have hstart := hneat.append_of_head hblank (by decide)
    have hall := hstart.append hneat' fun last hlast => by
      rw [List.getLast?_concat] at hlast
      cases hlast
      exact fun _ => by decide
    rw [intercalate_append hne hne']
    simpa using hall
  · intro word hword
    rcases List.mem_append.1 hword with hword | hword
    · exact hwords word hword
    · exact hothers word hword
  · rw [List.head?_append_of_ne_nil _ hne]
    exact hfirst

/-- A symbol directly before a text. -/
theorem prefixed {symbol : String} (hplain : symbol.toList.all isPlain = true)
    (hsymbol : symbol.toList.all isSymbol = true) (hne : symbol.toList ≠ [])
    (h : Shows lang bound text) : Shows lang bound (symbol ++ text) := by
  obtain ⟨words, hneat, hwords, first, hfirst, c, hc, hcsolid⟩ := h
  obtain ⟨rest, rfl⟩ := List.head?_eq_some_iff.1 hfirst
  obtain ⟨d, more, hd⟩ := List.exists_cons_of_ne_nil hne
  have hdsymbol : isSymbol d = true := List.all_eq_true.1 hsymbol d (by simp [hd])
  have hsymbols : ∀ c ∈ "+-*/%<>=!&|^?:~".toList,
      c.isLower = false ∧ c ≠ ' ' ∧ c ≠ ',' ∧ c ≠ 'f' := forall_mem_of_all (by decide)
  have hodd : ∀ c ∈ symbol.toList, c.isLower = false ∧ c ≠ ' ' ∧ c ≠ ',' ∧ c ≠ 'f' := by
    intro c hc
    exact hsymbols c (by simpa [isSymbol] using List.all_eq_true.1 hsymbol c hc)
  have hcalm := hwords first (by simp)
  refine ⟨(symbol.toList ++ first) :: rest, ?_, ?_, symbol.toList ++ first, rfl, c,
    List.mem_append_right _ hc, hcsolid⟩
  · rw [intercalate_append_head]
    have hstart : Neat AroundCode symbol.toList symbol.toList := .weaken (.plain hplain)
    have hall := hstart.append hneat fun last hlast _ =>
      (hodd last (List.mem_of_getLast? hlast)).2.2.2
    simpa using hall
  · intro word hword
    rcases List.mem_cons.1 hword with rfl | hword
    · refine .of_odd ?_ ?_ ⟨c, List.mem_append_right _ hc, hcsolid⟩
        ⟨d, by simp [hd], (hodd d (by simp [hd])).1⟩
      · intro hmem
        rcases List.mem_append.1 hmem with hmem | hmem
        · exact (hodd _ hmem).2.1 rfl
        · exact hcalm.blank hmem
      · intro hmem
        rcases List.mem_append.1 hmem with hmem | hmem
        · exact (hodd _ hmem).2.2.1 rfl
        · exact hcalm.comma hmem
    · exact hwords word (List.mem_cons_of_mem _ hword)

/-- The last word goes on. -/
theorem extended {ending : String} (hneat : Neat AroundCode ending.toList face)
    (hhead : ending.toList.head? ≠ some '"')
    (hcalm : ∀ word, Calm lang bound word → Calm lang bound (word ++ face))
    (h : Shows lang bound text) : Shows lang bound (text ++ ending) := by
  obtain ⟨words, hwneat, hwords, first, hfirst, hsolid⟩ := h
  have hne : words ≠ [] := by
    rintro rfl
    cases hfirst
  obtain ⟨rest, last, rfl⟩ : ∃ rest last, words = rest ++ [last] :=
    ⟨words.dropLast, words.getLast hne, (List.dropLast_append_getLast hne).symm⟩
  refine ⟨rest ++ [last ++ face], ?_, ?_, ?_⟩
  · rw [intercalate_append_last]
    simpa using hwneat.append_of_head hneat hhead
  · intro word hword
    simp only [List.mem_append, List.mem_singleton] at hword
    rcases hword with hword | rfl
    · exact hwords word (by simp [hword])
    · exact hcalm last (hwords last (by simp))
  · cases rest with
    | nil =>
      cases hfirst
      obtain ⟨c, hc, hcsolid⟩ := hsolid
      exact ⟨_, rfl, c, List.mem_append_left _ hc, hcsolid⟩
    | cons next rest => exact ⟨first, hfirst, hsolid⟩

/-- The last word goes on with a character that no operator holds. -/
theorem suffixed {ending : String} (hneat : Neat AroundCode ending.toList face)
    (hhead : ending.toList.head? ≠ some '"') (hblank : ' ' ∉ face) (hcomma : ',' ∉ face)
    (hodd : ∃ c ∈ face, isSymbol c = false ∧ c.isLower = false) (h : Shows lang bound text) :
    Shows lang bound (text ++ ending) := by
  obtain ⟨c, hc, hcsymbol, hclower⟩ := hodd
  refine h.extended hneat hhead fun word hword => ?_
  refine .of_odd ?_ ?_ ⟨c, List.mem_append_right _ hc, hcsymbol⟩
    ⟨c, List.mem_append_right _ hc, hclower⟩
  · intro hmem
    rcases List.mem_append.1 hmem with hmem | hmem
    · exact hword.blank hmem
    · exact hblank hmem
  · intro hmem
    rcases List.mem_append.1 hmem with hmem | hmem
    · exact hword.comma hmem
    · exact hcomma hmem

end Shows

end Surface

end Interlingua
