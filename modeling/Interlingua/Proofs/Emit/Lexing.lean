import Interlingua.Emit.Render
import Interlingua.Proofs.Surface.Scan
import Interlingua.Proofs.Token.NodeKinds

/-!
# Texts as tokens

A text is split into the longest words of name characters, the parentheses, and the longest
spellings of operators that the language has; blanks only separate.

* `Language.spellings` — what the operators of a language are spelled like, and the parentheses.
* `Language.lex` — a text split by longest match.
* `Language.goesOn` — a character with which a spelling goes on, so that it must not come next.
* `Language.Lexes` — a text is split into the words of some values, whatever can follow an operand.
  There is one rule for each way of writing an operator with its operands.
-/

namespace Interlingua

open Surface

/-! ## Longest matches -/

/-- The longest beginning of a text that passes a test. -/
def Text.longest? (passes : List Char → Bool) : List Char → Option (List Char)
  | [] => if passes [] then some [] else none
  | c :: rest =>
    match longest? (fun part => passes (c :: part)) rest with
    | some part => some (c :: part)
    | none => if passes [] then some [] else none

namespace Text

variable {passes : List Char → Bool} {part text rest : List Char}

theorem longest?_eq_none (h : ∀ part, part <+: text → passes part = false) :
    longest? passes text = none := by
  induction text generalizing passes with
  | nil => simp [longest?, h [] (List.nil_prefix)]
  | cons c rest ih =>
    have hrest : longest? (fun part => passes (c :: part)) rest = none :=
      ih fun part hpart => h (c :: part) ((List.prefix_cons_inj c).2 hpart)
    simp [longest?, hrest, h [] (List.nil_prefix)]

/-- A part that passes is taken if no longer one does. -/
theorem longest?_append (h : passes part = true)
    (hmore : ∀ more, more ≠ [] → more <+: rest → passes (part ++ more) = false) :
    longest? passes (part ++ rest) = some part := by
  induction part generalizing passes with
  | nil =>
    cases rest with
    | nil => simp [longest?, h]
    | cons c rest =>
      have hnone : longest? (fun part => passes (c :: part)) rest = none :=
        longest?_eq_none fun part hpart =>
          hmore (c :: part) (List.cons_ne_nil _ _) ((List.prefix_cons_inj c).2 hpart)
      simp [longest?, hnone, h]
  | cons c part ih =>
    have hrest : longest? (fun part => passes (c :: part)) (part ++ rest) = some part := ih h hmore
    simp [longest?, hrest]

/-- The words of a text between its blanks. -/
def words (text : String) : List (List Char) := text.toList.splitOn ' '

theorem words_of_not_mem {text : String} (h : ' ' ∉ text.toList) : words text = [text.toList] :=
  splitOn_of_not_mem h

end Text

namespace Language

variable {lang : Language} {name part rest : List Char} {c : Char}

/-! ## The lexer -/

/-- What the operators of a language are spelled like, and the parentheses. -/
def spellings (lang : Language) : List (List Char) :=
  ['('] :: [')'] :: (lang.leafForms ++ AssignOp.all.filterMap lang.operators.assign).map fun form =>
    form.value.toList

/-- A text split by longest match into words, parentheses and spellings of operators; nothing if it
holds something else. -/
def lex (lang : Language) : List Char → Option (List (List Char))
  | [] => some []
  | c :: rest =>
    if c = ' ' then lang.lex rest
    else if isNameChar c then
      (lang.lex (rest.dropWhile isNameChar)).map ((c :: rest.takeWhile isNameChar) :: ·)
    else
      match Text.longest? (fun part => lang.spellings.contains (c :: part)) rest with
      | none => none
      | some part => (lang.lex (rest.drop part.length)).map ((c :: part) :: ·)
termination_by text => text.length
decreasing_by
  · exact Nat.lt_succ_self _
  · exact Nat.lt_succ_of_le (List.dropWhile_suffix _).length_le
  · exact Nat.lt_succ_of_le (List.drop_suffix _ _).length_le

/-- Some spelling starts with a part and goes on with a character. -/
def goesOn (lang : Language) (part : List Char) (c : Char) : Bool :=
  lang.spellings.any ((part ++ [c]).isPrefixOf ·)

theorem lex_blank (lang : Language) (rest : List Char) : lang.lex (' ' :: rest) = lang.lex rest := by
  rw [lex, if_pos rfl]

theorem lex_name (hne : name ≠ []) (hname : name.all isNameChar = true)
    (hrest : ∀ c ∈ rest.head?, isNameChar c = false) :
    lang.lex (name ++ rest) = (lang.lex rest).map (name :: ·) := by
  obtain ⟨c, more, rfl⟩ := List.exists_cons_of_ne_nil hne
  obtain ⟨hc, hmore⟩ : isNameChar c = true ∧ ∀ d ∈ more, isNameChar d = true := by
    simpa using hname
  have hblank : c ≠ ' ' := by
    rintro rfl
    exact absurd hc (by decide)
  have htake : rest.takeWhile isNameChar = [] ∧ rest.dropWhile isNameChar = rest := by
    cases rest with
    | nil => exact ⟨rfl, rfl⟩
    | cons d rest =>
      have hd := hrest d rfl
      simp [hd]
  rw [List.cons_append, lex, if_neg hblank, if_pos hc, List.takeWhile_append_of_pos hmore,
    List.dropWhile_append_of_pos hmore, htake.1, htake.2, List.append_nil]

theorem lex_spelling (hpart : part ∈ lang.spellings) (hhead : ∀ c ∈ part.head?,
      c ≠ ' ' ∧ isNameChar c = false) (hne : part ≠ [])
    (hrest : ∀ c ∈ rest.head?, lang.goesOn part c = false) :
    lang.lex (part ++ rest) = (lang.lex rest).map (part :: ·) := by
  obtain ⟨c, more, rfl⟩ := List.exists_cons_of_ne_nil hne
  obtain ⟨hblank, hname⟩ := hhead c rfl
  have hlongest : Text.longest? (fun part => lang.spellings.contains (c :: part)) (more ++ rest) =
      some more := by
    refine Text.longest?_append (List.contains_iff_mem.2 hpart) fun longer hlonger hprefix => ?_
    obtain ⟨d, longer, rfl⟩ := List.exists_cons_of_ne_nil hlonger
    obtain ⟨tail, rfl⟩ := hprefix
    have hgoes := hrest d rfl
    rw [← Bool.not_eq_true, List.contains_iff_mem]
    intro hmem
    rw [goesOn, List.any_eq_false] at hgoes
    refine hgoes _ hmem ?_
    rw [List.isPrefixOf_iff_prefix]
    exact ⟨longer, by simp⟩
  rw [List.cons_append, lex, if_neg hblank, if_neg (by simp [hname]), hlongest]
  simp

/-! ## Spellings -/

/-- A spelling is made of the characters of operators, or does not start with one. -/
theorem all_isSymbol_of_mem (h : part ∈ lang.spellings) (hhead : part.head?.any isSymbol = true) :
    part.all isSymbol = true := by
  have hall : ∀ part ∈ lang.spellings,
      (!part.head?.any isSymbol || part.all isSymbol) = true := by
    cases lang <;> decide
  simpa [hhead] using hall part h

theorem goesOn_of_not_isSymbol (hpart : part.head?.any isSymbol = true)
    (hc : isSymbol c = false) : lang.goesOn part c = false := by
  rw [goesOn, List.any_eq_false]
  intro spelling hmem hprefix
  obtain ⟨more, rfl⟩ := List.isPrefixOf_iff_prefix.1 hprefix
  have hhead : (part ++ [c] ++ more).head?.any isSymbol = true := by
    cases part with
    | nil => cases hpart
    | cons d part => exact hpart
  have hall := all_isSymbol_of_mem hmem hhead
  simp [hc] at hall

/-- No spelling goes on after a parenthesis. -/
theorem goesOn_parenthesis (lang : Language) {parenthesis : Char}
    (h : parenthesis = '(' ∨ parenthesis = ')') (c : Char) :
    lang.goesOn [parenthesis] c = false := by
  have hall : ∀ part ∈ lang.spellings,
      part.head? = some '(' ∨ part.head? = some ')' → part.length = 1 := by
    cases lang <;> decide
  rw [goesOn, List.any_eq_false]
  intro spelling hmem hprefix
  obtain ⟨more, rfl⟩ := List.isPrefixOf_iff_prefix.1 hprefix
  have hlength := hall _ hmem (by rcases h with rfl | rfl <;> simp)
  simp at hlength

theorem mem_spellings {form : OperatorForm} (h : form ∈ lang.leafForms) :
    form.value.toList ∈ lang.spellings := by
  simp only [spellings, List.mem_cons, List.mem_map, List.mem_append]
  exact .inr (.inr ⟨form, .inl h, rfl⟩)

theorem binary_mem_leafForms {op : BinaryOp} {form : OperatorForm}
    (h : lang.operators.binary op = some form) : form ∈ lang.leafForms := by
  simp only [leafForms, List.mem_append, List.mem_filterMap]
  exact .inl (.inl (.inr ⟨op, op.mem_all, h⟩))

/-! ## Operators between blanks -/

/-- A spelling that is split into its words if a blank follows. -/
def IsSpaced (lang : Language) (value : String) : Prop :=
  ∀ rest, lang.lex (value.toList ++ ' ' :: rest) = (lang.lex rest).map (Text.words value ++ ·)

/-- Words with blanks between them. -/
theorem lex_words {words : List (List Char)} (hne : words ≠ [])
    (hwords : ∀ word ∈ words, word ≠ [] ∧ word.all isNameChar = true) (rest : List Char) :
    lang.lex ([' '].intercalate words ++ ' ' :: rest) = (lang.lex rest).map (words ++ ·) := by
  have hstop : ∀ tail : List Char, ∀ c ∈ (' ' :: tail).head?, isNameChar c = false := by
    rintro tail c ⟨⟩
    decide
  induction words with
  | nil => exact absurd rfl hne
  | cons word words ih =>
    obtain ⟨⟨hword, hchars⟩, hrest⟩ := List.forall_mem_cons.1 hwords
    cases words with
    | nil =>
      rw [List.intercalate_singleton, lex_name hword hchars (hstop rest), lex_blank]
      rfl
    | cons next words =>
      have hsplit : [' '].intercalate (word :: next :: words) ++ ' ' :: rest =
          word ++ ' ' :: ([' '].intercalate (next :: words) ++ ' ' :: rest) := by
        simp [List.intercalate, List.intersperse]
      rw [hsplit, lex_name hword hchars (hstop _), lex_blank, ih (List.cons_ne_nil _ _) hrest,
        Option.map_map]
      rfl

/-- Operators are made of symbols or of words. -/
theorem symbols_or_words {form : OperatorForm} (h : form ∈ lang.leafForms) :
    (form.value.toList ≠ [] ∧ form.value.toList.all isSymbol = true) ∨
      ∀ word ∈ Text.words form.value, word ≠ [] ∧ word.all isNameChar = true := by
  have hall : ∀ form ∈ lang.leafForms,
      (form.value.toList ≠ [] ∧ form.value.toList.all isSymbol = true) ∨
        ∀ word ∈ Text.words form.value, word ≠ [] ∧ word.all isNameChar = true := by
    cases lang <;> decide
  exact hall form h

theorem lex_symbols (hmem : part ∈ lang.spellings) (hne : part ≠ [])
    (hsymbols : part.all isSymbol = true) (hrest : ∀ c ∈ rest.head?, lang.goesOn part c = false) :
    lang.lex (part ++ rest) = (lang.lex rest).map (part :: ·) := by
  refine lex_spelling hmem (fun c hc => ?_) hne hrest
  have hsymbol : isSymbol c = true := List.all_eq_true.1 hsymbols c (List.mem_of_mem_head? hc)
  refine ⟨?_, not_isNameChar_of_isSymbol hsymbol⟩
  rintro rfl
  exact absurd hsymbol (by decide)

theorem head?_any_of_all (hne : part ≠ []) (hsymbols : part.all isSymbol = true) :
    part.head?.any isSymbol = true := by
  obtain ⟨c, more, rfl⟩ := List.exists_cons_of_ne_nil hne
  exact (Bool.and_eq_true_iff.1 hsymbols).1

theorem words_of_symbols {value : String} (hsymbols : value.toList.all isSymbol = true) :
    Text.words value = [value.toList] := by
  refine Text.words_of_not_mem fun hmem => ?_
  exact absurd (List.all_eq_true.1 hsymbols ' ' hmem) (by decide)

/-- An operator between blanks is split into its words. -/
theorem isSpaced_of_mem {form : OperatorForm} (h : form ∈ lang.leafForms) :
    lang.IsSpaced form.value := by
  intro rest
  rcases symbols_or_words h with ⟨hne, hsymbols⟩ | hwords
  · have hstop : ∀ c ∈ (' ' :: rest).head?, lang.goesOn form.value.toList c = false := by
      rintro c ⟨⟩
      exact goesOn_of_not_isSymbol (head?_any_of_all hne hsymbols) (by decide)
    rw [lex_symbols (mem_spellings h) hne hsymbols hstop, lex_blank, words_of_symbols hsymbols]
    rfl
  · have hsplit : [' '].intercalate (Text.words form.value) = form.value.toList :=
      List.intercalate_splitOn ' '
    have hne : Text.words form.value ≠ [] := List.splitOn_ne_nil _ _
    rw [← hsplit]
    exact lex_words hne hwords rest

/-! ## Texts of operands -/

/-- What can follow an operand: nothing, a blank, a closing parenthesis or a step operator. -/
def Breaks (rest : List Char) : Prop :=
  ∀ c ∈ rest.head?, c = ' ' ∨ c = ')' ∨ c = '+' ∨ c = '-'

theorem Breaks.not_isNameChar (h : Breaks rest) : ∀ c ∈ rest.head?, isNameChar c = false := by
  intro c hc
  rcases h c hc with rfl | rfl | rfl | rfl <;> decide

/-- A text is split into the words of some values, whatever can follow an operand. -/
def Lexes (lang : Language) (text : String) (values : List String) : Prop :=
  ∀ rest, Breaks rest →
    lang.lex (text.toList ++ rest) = (lang.lex rest).map (values.flatMap Text.words ++ ·)

namespace Lexes

variable {text leftText rightText value : String} {values lefts rights : List String}

theorem lex_eq (h : lang.Lexes text values) :
    lang.lex text.toList = some (values.flatMap Text.words) := by
  have hend := h [] nofun
  rw [List.append_nil] at hend
  rw [hend, lex]
  simp

theorem ident {name : String} (h : isIdentifier name = true) : lang.Lexes name [name] := by
  obtain ⟨hne, hchars⟩ : name.toList ≠ [] ∧ name.toList.all isNameChar = true := by
    unfold isIdentifier at h
    cases hname : name.toList with
    | nil => simp [hname] at h
    | cons c rest =>
      simp only [hname, Bool.and_eq_true, Bool.or_eq_true] at h
      refine ⟨List.cons_ne_nil _ _, ?_⟩
      rw [List.all_cons, Bool.and_eq_true]
      exact ⟨by rcases h.1 with h | h <;> simp [isNameChar, h], h.2⟩
  have hblank : ' ' ∉ name.toList := fun hmem =>
    absurd (List.all_eq_true.1 hchars ' ' hmem) (by decide)
  intro rest hrest
  rw [lex_name hne hchars hrest.not_isNameChar]
  simp [Text.words_of_not_mem hblank]

theorem parenthesized (h : lang.Lexes text values) :
    lang.Lexes (parenthesized text) ("(" :: values ++ [")"]) := by
  intro rest hrest
  have hclose : Breaks (')' :: rest) := by
    rintro c ⟨⟩
    simp
  have hopening : lang.lex (['('] ++ (text.toList ++ ')' :: rest)) =
      (lang.lex (text.toList ++ ')' :: rest)).map (['('] :: ·) :=
    lex_spelling (by simp [spellings]) (by rintro c ⟨⟩; decide) (by simp)
      fun c _ => goesOn_parenthesis lang (.inl rfl) c
  have hclosing : lang.lex ([')'] ++ rest) = (lang.lex rest).map ([')'] :: ·) :=
    lex_spelling (by simp [spellings]) (by rintro c ⟨⟩; decide) (by simp)
      fun c _ => goesOn_parenthesis lang (.inr rfl) c
  have htext : (Interlingua.parenthesized text).toList ++ rest =
      ['('] ++ (text.toList ++ ')' :: rest) := by
    simp [Interlingua.parenthesized]
  have hopen : Text.words "(" = [['(']] := by decide
  have hend : Text.words ")" = [[')']] := by decide
  rw [htext, hopening, h _ hclose]
  change ((lang.lex ([')'] ++ rest)).map _).map _ = _
  rw [hclosing, Option.map_map, Option.map_map]
  congr 1
  funext parts
  simp [hopen, hend]

/-- Two operands with a spaced operator between them. -/
theorem spaced (hl : lang.Lexes leftText lefts) (hvalue : lang.IsSpaced value)
    (hr : lang.Lexes rightText rights) :
    lang.Lexes (leftText ++ " " ++ value ++ " " ++ rightText) (lefts ++ value :: rights) := by
  intro rest hrest
  have hblank : ∀ tail, Breaks (' ' :: tail) := by
    rintro tail c ⟨⟩
    exact .inl rfl
  have htext : (leftText ++ " " ++ value ++ " " ++ rightText).toList ++ rest =
      leftText.toList ++ ' ' :: (value.toList ++ ' ' :: (rightText.toList ++ rest)) := by
    simp
  rw [htext, hl _ (hblank _), lex_blank, hvalue, hr rest hrest, Option.map_map, Option.map_map]
  congr 1
  funext parts
  simp

/-- A word before its operand. -/
theorem worded (h : lang.Lexes text values) (hvalue : lang.IsSpaced value) :
    lang.Lexes (value ++ " " ++ text) (value :: values) := by
  intro rest hrest
  have htext : (value ++ " " ++ text).toList ++ rest =
      value.toList ++ ' ' :: (text.toList ++ rest) := by
    simp
  rw [htext, hvalue, h rest hrest, Option.map_map]
  congr 1
  funext parts
  simp

/-- Symbols right before their operand, which does not go on with them. -/
theorem led (h : lang.Lexes text values) (hmem : value.toList ∈ lang.spellings)
    (hne : value.toList ≠ []) (hsymbols : value.toList.all isSymbol = true)
    (htext : text.toList ≠ [])
    (hstop : ∀ c ∈ text.toList.head?, lang.goesOn value.toList c = false) :
    lang.Lexes (value ++ text) (value :: values) := by
  intro rest hrest
  have hhead : ∀ c ∈ (text.toList ++ rest).head?, lang.goesOn value.toList c = false := by
    obtain ⟨c, more, hcons⟩ := List.exists_cons_of_ne_nil htext
    rw [hcons] at hstop ⊢
    exact hstop
  rw [String.toList_append, List.append_assoc, lex_symbols hmem hne hsymbols hhead, h rest hrest,
    Option.map_map]
  congr 1
  funext parts
  simp [words_of_symbols hsymbols]

/-- A step operator right behind its operand. -/
theorem stepped (h : lang.Lexes text values) (hvalue : value = "++" ∨ value = "--")
    (hmem : value.toList ∈ lang.spellings)
    (hstop : ∀ c, c = '+' ∨ c = '-' → lang.goesOn value.toList c = false) :
    lang.Lexes (text ++ value) (values ++ [value]) := by
  intro rest hrest
  have hsymbols : value.toList.all isSymbol = true := by rcases hvalue with rfl | rfl <;> decide
  have hne : value.toList ≠ [] := by rcases hvalue with rfl | rfl <;> decide
  have hbreaks : Breaks (value.toList ++ rest) := by
    rcases hvalue with rfl | rfl <;>
      · rintro c ⟨⟩
        decide
  have hhead : ∀ c ∈ rest.head?, lang.goesOn value.toList c = false := by
    intro c hc
    have hpart := head?_any_of_all hne hsymbols
    rcases hrest c hc with rfl | rfl | hstep
    · exact goesOn_of_not_isSymbol hpart (by decide)
    · exact goesOn_of_not_isSymbol hpart (by decide)
    · exact hstop c hstep
  rw [String.toList_append, List.append_assoc, h _ hbreaks,
    lex_symbols hmem hne hsymbols hhead, Option.map_map]
  congr 1
  funext parts
  simp [words_of_symbols hsymbols]

end Lexes

end Language

end Interlingua
