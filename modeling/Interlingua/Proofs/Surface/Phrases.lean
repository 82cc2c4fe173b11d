import Interlingua.Emit.Expr.Basic
import Interlingua.Proofs.Surface.Types

/-!
# Words, literals and calls on the surface

What the texts of expressions without operands of their own show, and what a text shows that goes
on with arguments, an index, a member or a step.

* `Shows.odd` — a text of one word with a character that no operator holds.
* `Shows.name`, `Shows.path`, `Shows.numeral`, `Shows.float`, `Shows.literal` — the leaves.
* `Shows.called`, `Shows.indexed`, `Shows.member`, `Shows.stepped` — what follows a text.
-/

namespace Interlingua

open Surface

namespace Surface.Shows

variable {lang : Language} {bound : Nat} {text : String} {face : List Char}

/-! ## Words -/

/-- A character that no operator holds. -/
def isOdd (c : Char) : Bool := !isSymbol c && !c.isLower

/-- A text of one word that no operator is like. -/
theorem odd (hneat : Neat AroundCode text.toList face) (hblank : ' ' ∉ face) (hcomma : ',' ∉ face)
    (hodd : face.any isOdd = true) : Shows lang bound text := by
  obtain ⟨c, hc, hcodd⟩ := List.any_eq_true.1 hodd
  simp only [isOdd, Bool.and_eq_true, Bool.not_eq_true'] at hcodd
  exact .one hneat (.of_odd hblank hcomma ⟨c, hc, hcodd.1⟩ ⟨c, hc, hcodd.2⟩) ⟨c, hc, hcodd.1⟩

/-- A word goes on with marks that hold such a character. -/
theorem marked {ending : String} (h : Shows lang bound text)
    (hneat : Neat AroundCode ending.toList face) (hhead : ending.toList.head? ≠ some '"')
    (hblank : ' ' ∉ face) (hcomma : ',' ∉ face) (hodd : face.any isOdd = true) :
    Shows lang bound (text ++ ending) := by
  obtain ⟨c, hc, hcodd⟩ := List.any_eq_true.1 hodd
  simp only [isOdd, Bool.and_eq_true, Bool.not_eq_true'] at hcodd
  exact h.suffixed hneat hhead hblank hcomma ⟨c, hc, hcodd⟩

theorem ofTypeText {ending : String} (h : TypeText text)
    (hneat : Neat AroundCode ending.toList face) (hhead : ending.toList.head? ≠ some '"')
    (hblank : ' ' ∉ face) (hcomma : ',' ∉ face) (hodd : face.any isOdd = true) :
    Shows lang bound (text ++ ending) := by
  obtain ⟨-, other, hother, hb, hc⟩ := h
  have hall : Neat AroundCode (text ++ ending).toList (other ++ face) := by
    rw [String.toList_append]
    exact hother.weaken.append_of_head hneat hhead
  exact .odd hall (by simp [hb, hblank]) (by simp [hc, hcomma]) (by simp [hodd])

theorem isSymbol_of_isNameChar {c : Char} (h : isNameChar c = true) : isSymbol c = false := by
  cases hsymbol : isSymbol c with
  | false => rfl
  | true =>
    rw [not_isNameChar_of_isSymbol hsymbol] at h
    cases h

/-- A word of name characters. -/
theorem word (hchars : text.toList.all isNameChar = true) (hne : text.toList ≠ [])
    (hlevel : ∀ form ∈ lang.infixes, text.toList ∈ form.words → form.level ≤ bound) :
    Shows lang bound text := by
  rw [List.all_eq_true] at hchars
  have hplain : text.toList.all isPlain = true :=
    List.all_eq_true.2 fun c hc => (isPlain_of_isNameChar (hchars c hc)).1
  refine .one (.weaken (.plain hplain)) ⟨fun hmem => ?_, fun hmem => ?_, hlevel⟩ ?_
  · exact (isPlain_of_isNameChar (hchars _ hmem)).2.1 rfl
  · exact (isPlain_of_isNameChar (hchars _ hmem)).2.2 rfl
  · obtain ⟨c, rest, htext⟩ := List.exists_cons_of_ne_nil hne
    exact ⟨c, by simp [htext], isSymbol_of_isNameChar (hchars c (by simp [htext]))⟩

end Surface.Shows

/-! ## Names -/

theorem Language.isIdentifier_chars {name : String} (h : isIdentifier name = true) :
    name.toList.all isNameChar = true ∧ name.toList ≠ [] := by
  unfold isIdentifier at h
  split at h
  · cases h
  · rename_i first rest hchars
    rw [hchars]
    simp only [Bool.and_eq_true, Bool.or_eq_true] at h
    refine ⟨?_, by simp⟩
    rw [List.all_cons, Bool.and_eq_true]
    refine ⟨?_, h.2⟩
    rcases h.1 with hletter | hunderscore
    · simp [isNameChar, hletter]
    · simp [isNameChar, hunderscore]

/-- A name that a program can use. -/
def Language.isName (lang : Language) (name : String) : Bool :=
  isIdentifier name && !lang.grammar.keywords.contains name

/-- Names with separators between them; alone, a keyword is none. -/
def Language.isPath (lang : Language) : List String → Bool
  | [] => false
  | [name] => lang.isName name
  | path => path.all isIdentifier

namespace Surface.Shows

variable {lang : Language} {bound : Nat} {text : String} {face : List Char}

theorem name (h : lang.isName text = true) : Shows lang bound text := by
  simp only [Language.isName, Bool.and_eq_true, Bool.not_eq_true'] at h
  obtain ⟨hchars, hne⟩ := Language.isIdentifier_chars h.1
  refine .word hchars hne fun form hform hword => ?_
  have hkeyword := infix_keyword hform hword (by simpa using h.1)
  rw [String.ofList_toList, h.2] at hkeyword
  cases hkeyword

/-- The marks between the names of a path are plain, and not made of letters. -/
theorem separator (lang : Language) :
    ∃ c ∈ lang.operators.scopeSeparator.toList, c.isLower = false ∧
      ∀ c ∈ lang.operators.scopeSeparator.toList, isPlain c = true ∧ c ≠ ' ' ∧ c ≠ ',' := by
  cases lang with
  | java => exact ⟨'.', by decide, by decide, forall_mem_of_all (by decide)⟩
  | cpp => exact ⟨':', by decide, by decide, forall_mem_of_all (by decide)⟩
  | python => exact ⟨'.', by decide, by decide, forall_mem_of_all (by decide)⟩

theorem path {names : List String} (h : lang.isPath names = true) :
    Shows lang bound (lang.operators.scopeSeparator.intercalate names) := by
  match names with
  | [] => cases h
  | [one] => simpa using name h
  | first :: second :: rest =>
    have hident : ∀ part ∈ first :: second :: rest, Language.isIdentifier part = true :=
      List.all_eq_true.1 h
    obtain ⟨mark, hmark, hlower, hmarks⟩ := separator lang
    have hchars : ∀ c ∈
        (lang.operators.scopeSeparator.intercalate (first :: second :: rest)).toList,
          isPlain c = true ∧ c ≠ ' ' ∧ c ≠ ',' := by
      intro c hc
      rw [String.toList_intercalate] at hc
      rcases mem_intercalate hc with hsep | ⟨part, hpart, hcpart⟩
      · exact hmarks c hsep
      · obtain ⟨name, hname, rfl⟩ := List.mem_map.1 hpart
        obtain ⟨hall, -⟩ := Language.isIdentifier_chars (hident name hname)
        exact isPlain_of_isNameChar (List.all_eq_true.1 hall c hcpart)
    obtain ⟨hall, hne⟩ := Language.isIdentifier_chars (hident first (by simp))
    obtain ⟨c, more, hfirst⟩ := List.exists_cons_of_ne_nil hne
    have hname : isNameChar c = true := List.all_eq_true.1 hall c (by simp [hfirst])
    have hsymbol := isSymbol_of_isNameChar hname
    have hc : c ∈ (lang.operators.scopeSeparator.intercalate (first :: second :: rest)).toList := by
      simp [String.intercalate_cons_cons, hfirst]
    have hmem : mark ∈
        (lang.operators.scopeSeparator.intercalate (first :: second :: rest)).toList := by
      simp [String.intercalate_cons_cons, hmark]
    refine .one (.weaken (.plain (List.all_eq_true.2 fun c hc => (hchars c hc).1)))
      (.of_odd ?_ ?_ ⟨c, hc, hsymbol⟩ ⟨mark, hmem, hlower⟩) ⟨c, hc, hsymbol⟩
    · exact fun hmem => (hchars _ hmem).2.1 rfl
    · exact fun hmem => (hchars _ hmem).2.2 rfl

/-! ## Numbers -/

theorem isOdd_of_isDigit {c : Char} (h : c.isDigit = true) : isOdd c = true := by
  have hsymbols : ∀ mark ∈ "+-*/%<>=!&|^?:~".toList, mark.isDigit = false :=
    forall_mem_of_all (by decide)
  have hsymbol : isSymbol c = false := by
    cases hsymbol : isSymbol c with
    | false => rfl
    | true =>
      rw [hsymbols c (by simpa [isSymbol] using hsymbol)] at h
      cases h
  have hlower : c.isLower = false := by
    simp only [Char.isDigit, Bool.and_eq_true, decide_eq_true_eq] at h
    delta Char.isLower
    simp only [Bool.and_eq_false_iff, decide_eq_false_iff_not]
    exact .inl fun hle => absurd (UInt32.le_trans hle h.2) (by decide)
  simp [isOdd, hsymbol, hlower]

theorem isPlain_of_isDigit {c : Char} (h : c.isDigit = true) :
    isPlain c = true ∧ c ≠ ' ' ∧ c ≠ ',' := by
  have hmarks : ∀ mark ∈ ' ' :: ',' :: marks, mark.isDigit = false :=
    forall_mem_of_all (by decide)
  have hmark : c ∉ ' ' :: ',' :: marks := by
    intro hmem
    rw [hmarks c hmem] at h
    cases h
  simp only [List.mem_cons, not_or] at hmark
  exact ⟨by simpa [isPlain] using hmark.2.2, hmark.1, hmark.2.1⟩

/-- Digits, perhaps with a sign and a point. -/
theorem number (hchars : ∀ c ∈ text.toList, c.isDigit = true ∨ c = '-' ∨ c = '.')
    (hodd : text.toList.any isOdd = true) : Shows lang bound text := by
  have hplain : ∀ c ∈ text.toList, isPlain c = true ∧ c ≠ ' ' ∧ c ≠ ',' := by
    intro c hc
    rcases hchars c hc with hdigit | rfl | rfl
    · exact isPlain_of_isDigit hdigit
    · decide
    · decide
  refine .odd (.weaken (.plain (List.all_eq_true.2 fun c hc => (hplain c hc).1))) ?_ ?_ hodd
  · exact fun hmem => (hplain _ hmem).2.1 rfl
  · exact fun hmem => (hplain _ hmem).2.2 rfl

theorem any_isOdd_digits (n : Nat) : (Nat.toDigits 10 n).any isOdd = true := by
  obtain ⟨c, rest, hchars⟩ := List.exists_cons_of_ne_nil (Nat.toDigits_ne_nil (n := n))
  have hc : c ∈ Nat.toDigits 10 n := by
    rw [hchars]
    exact List.mem_cons_self
  exact List.any_eq_true.2 ⟨c, hc, isOdd_of_isDigit (Text.isDigit_of_mem_digits hc)⟩

theorem numeral (value : Int) : Shows lang bound (Text.numeral value) := by
  cases value with
  | ofNat n =>
    have htext : (Text.numeral (.ofNat n)).toList = Nat.toDigits 10 n := String.toList_ofList
    refine number (fun c hc => ?_) (by rw [htext, any_isOdd_digits])
    rw [htext] at hc
    exact .inl (Text.isDigit_of_mem_digits hc)
  | negSucc n =>
    have htext : (Text.numeral (.negSucc n)).toList = '-' :: Nat.toDigits 10 (n + 1) :=
      String.toList_ofList
    refine number (fun c hc => ?_) (by rw [htext, List.any_cons, any_isOdd_digits, Bool.or_true])
    rw [htext, List.mem_cons] at hc
    rcases hc with rfl | hc
    · exact .inr (.inl rfl)
    · exact .inl (Text.isDigit_of_mem_digits hc)

/-- A number in positional notation is made of digits and a point. -/
theorem writePositional_chars {digits : List Char} (hdigits : ∀ c ∈ digits, c.isDigit = true)
    (point : Int) :
    '.' ∈ Decimal.Layout.pointed.writePositional digits point ∧
      ∀ c ∈ Decimal.Layout.pointed.writePositional digits point, c.isDigit = true ∨ c = '.' := by
  have hzeros : ∀ n, ∀ c ∈ List.replicate n '0', c.isDigit = true := by
    intro n c hc
    rw [List.eq_of_mem_replicate hc]
    decide
  unfold Decimal.Layout.writePositional
  split
  · refine ⟨by simp, fun c hc => ?_⟩
    simp only [List.mem_append, List.mem_cons, List.not_mem_nil, or_false] at hc
    rcases hc with ((rfl | rfl) | hc) | hc
    · exact .inl (by decide)
    · exact .inr rfl
    · exact .inl (hzeros _ c hc)
    · exact .inl (hdigits c hc)
  · split
    · refine ⟨by simp [Decimal.Layout.pointed], fun c hc => ?_⟩
      simp only [Decimal.Layout.pointed, if_true, List.mem_append, List.mem_cons,
        List.not_mem_nil, or_false] at hc
      rcases hc with (hc | hc) | rfl | rfl
      · exact .inl (hdigits c hc)
      · exact .inl (hzeros _ c hc)
      · exact .inr rfl
      · exact .inl (by decide)
    · refine ⟨by simp, fun c hc => ?_⟩
      simp only [List.mem_append, List.mem_singleton] at hc
      rcases hc with (hc | rfl) | hc
      · exact .inl (hdigits c (List.mem_of_mem_take hc))
      · exact .inr rfl
      · exact .inl (hdigits c (List.mem_of_mem_drop hc))

theorem writeDecimal_chars (decimal : Decimal.Scaled) :
    '.' ∈ Decimal.Layout.pointed.writeDecimal decimal ∧
      ∀ c ∈ Decimal.Layout.pointed.writeDecimal decimal, c.isDigit = true ∨ c = '.' := by
  refine writePositional_chars (fun c hc => ?_) _
  rw [List.mem_reverse] at hc
  have hall := List.mem_reverse.1 ((List.dropWhile_sublist _).subset hc)
  exact Text.isDigit_of_mem_digits hall

/-- The word for what no number reaches is no operator. -/
theorem infinite (negative : Bool) :
    Shows lang bound (Decimal.Layout.write.sign negative ++ "inf") := by
  cases negative with
  | true =>
    refine .one (.weaken (.plain (by decide))) (.of_odd (by decide) (by decide) ?_ ?_) ?_
    · exact ⟨'i', by decide, by decide⟩
    · exact ⟨'-', by decide, by decide⟩
    · exact ⟨'i', by decide, by decide⟩
  | false =>
    refine .word (by decide) (by decide) fun form hform hword => ?_
    exact absurd hword (not_mem_words (by decide) (by decide) form hform)

/-- A sign and a number with a point. -/
theorem signed (negative : Bool) (hpoint : '.' ∈ text.toList)
    (hchars : ∀ c ∈ text.toList, c.isDigit = true ∨ c = '.') :
    Shows lang bound (Decimal.Layout.write.sign negative ++ text) := by
  have hsign : ∀ c ∈ (Decimal.Layout.write.sign negative).toList, c = '-' := by
    cases negative <;> exact forall_mem_of_all (by decide)
  refine number (fun c hc => ?_) ?_
  · rw [String.toList_append, List.mem_append] at hc
    rcases hc with hc | hc
    · exact .inr (.inl (hsign c hc))
    · exact (hchars c hc).imp_right .inr
  · rw [String.toList_append, List.any_append, Bool.or_eq_true]
    exact .inr (List.any_eq_true.2 ⟨'.', hpoint, by decide⟩)

theorem float (bits : UInt64) : Shows lang bound (Decimal.Layout.pointed.writeBits bits) := by
  unfold Decimal.Layout.writeBits
  cases Decimal.Binary64.ofBits bits with
  | nan => exact .odd (.weaken (.plain (by decide))) (by decide) (by decide) (by decide)
  | infinite negative => exact infinite negative
  | zero negative => exact signed negative (by decide) (forall_mem_of_all (by decide))
  | finite negative span =>
    obtain ⟨hpoint, hchars⟩ := writeDecimal_chars span.shortest
    exact signed negative (by simpa using hpoint) (by simpa using hchars)

/-! ## Literals -/

theorem quote (value : String) : Shows lang bound (Text.quote value) :=
  .odd (.weaken (.quote value)) (by decide) (by decide) (by decide)

/-- A text that does not end a literal may be followed by another one. -/
theorem staysIn_append {mark : Char} {escaped : Bool} {first second : List Char}
    (h : staysIn mark escaped first = true) (h' : staysIn mark false second = true) :
    staysIn mark escaped (first ++ second) = true := by
  induction first generalizing escaped with
  | nil =>
    simp only [staysIn, Bool.not_eq_true'] at h
    rw [h]
    exact h'
  | cons c rest ih =>
    cases escaped with
    | true => exact ih h
    | false =>
      simp only [staysIn, List.cons_append, Bool.and_eq_true] at h ⊢
      exact ⟨h.1, ih h.2⟩

/-- A letter and the literal that it leads. -/
theorem lettered {letter : Char} {inner : List Char} (hplain : isPlain letter = true)
    (hletter : letter ≠ 'f' ∧ letter ≠ ' ' ∧ letter ≠ ',')
    (hinner : staysIn '"' false inner = true)
    (htext : text.toList = letter :: '"' :: inner ++ ['"']) : Shows lang bound text := by
  have hstart : Neat AroundCode [letter] [letter] := .weaken (.plain (by simp [hplain]))
  have hliteral : Neat AroundCode ('"' :: inner ++ ['"']) ['"', '"'] :=
    .weaken (.literal (.inl rfl) hinner)
  have hall := hstart.append hliteral fun last hlast _ => by
    cases hlast
    exact hletter.1
  rw [List.singleton_append, ← List.cons_append, ← htext] at hall
  refine .odd hall ?_ ?_ ?_
  · simp [Ne.symm hletter.2.1]
  · simp [Ne.symm hletter.2.2]
  · simp [show isOdd '"' = true by decide]

/-- A literal between three marks. -/
theorem tripled {inner : List Char} (hinner : staysIn '"' false inner = true)
    (htext : text.toList = "\"\"\"".toList ++ inner ++ "\"\"\"".toList) :
    Shows lang bound text := by
  have hempty : Neat AroundCode ('"' :: [] ++ ['"']) ['"', '"'] :=
    .weaken (.literal (.inl rfl) rfl)
  have hliteral : Neat AroundCode ('"' :: inner ++ ['"']) ['"', '"'] :=
    .weaken (.literal (.inl rfl) hinner)
  have hstart := hempty.append hliteral fun last hlast _ => by
    cases hlast
    decide
  have hall := hstart.append hempty fun last hlast _ => by
    rw [← List.append_assoc, List.getLast?_concat] at hlast
    cases hlast
    decide
  exact .odd (by rw [htext]; simpa using hall) (by decide) (by decide) (by decide)

theorem charLiteral (c : Char) : Shows lang bound (Braced.charLiteral c) := by
  have hneat : ∀ inner : String, staysIn '\'' false inner.toList = true →
      Shows lang bound ("'" ++ inner ++ "'") := by
    intro inner hinner
    have hliteral : Neat AroundCode ('\'' :: inner.toList ++ ['\'']) ['\'', '\''] :=
      .weaken (.literal (.inr rfl) hinner)
    exact .odd (by simpa using hliteral) (by decide) (by decide) (by decide)
  unfold Braced.charLiteral
  split
  case h_7 hquote hslash _ _ _ _ =>
    exact hneat _ (by simpa [staysIn] using ⟨hquote, hslash⟩)
  all_goals exact hneat _ (by decide)

/-- The words of the language for its literals and references. -/
theorem reserved {word : Word} (h : lang.operators.word word = some text) :
    Shows lang bound text := by
  have hplain : ∀ text : String, text.toList.all isNameChar = true → text.toList ≠ [] →
      text.toList.all isSymbol = false → text.toList ∉ operatorWords → Shows lang bound text := by
    intro text hchars hne hsolid hother
    exact .word hchars hne fun form hform hword =>
      absurd hword (not_mem_words hsolid hother form hform)
  cases lang <;> cases word <;> cases h
  case python.superRef =>
    have hempty : Neat AroundCode "".toList [] := .nil
    have hcall : Shows .python bound ("super" ++ parenthesized "") :=
      .ofTypeText (.path (by decide)) (.parenthesized hempty) (by decide) (by decide)
        (by decide) (by decide)
    exact hcall
  all_goals exact hplain _ (by decide) (by decide) (by decide) (by decide)

/-! ## What is in brackets -/

variable {inner : String}

theorem grouped (h : Neat AroundCode inner.toList face) : Shows lang bound (parenthesized inner) :=
  .odd (.parenthesized h) (by decide) (by decide) (by decide)

theorem braced (h : Neat AroundCode inner.toList face) : Shows lang bound (inBraces inner) :=
  .odd (.inBraces h) (by decide) (by decide) (by decide)

theorem squared (h : Neat AroundCode inner.toList face) :
    Shows lang bound ("[" ++ inner ++ "]") :=
  .odd (.inSquares h) (by decide) (by decide) (by decide)

theorem head?_parenthesized (inner : String) :
    (parenthesized inner).toList.head? ≠ some '"' := by
  simp [parenthesized]

theorem head?_inBraces (inner : String) : (inBraces inner).toList.head? ≠ some '"' := by
  simp [inBraces]

theorem called (h : Shows lang bound text) (hinner : Neat AroundCode inner.toList face) :
    Shows lang bound (text ++ parenthesized inner) :=
  h.marked (.parenthesized hinner) (head?_parenthesized inner) (by decide) (by decide) (by decide)

theorem indexed (h : Shows lang bound text) (hinner : Neat AroundCode inner.toList face) :
    Shows lang bound (text ++ "[" ++ inner ++ "]") := by
  have hall := h.marked (.inSquares hinner) (by simp) (by decide) (by decide) (by decide)
  simpa [String.append_assoc] using hall

theorem member {name : String} (h : Shows lang bound text)
    (hname : Language.isIdentifier name = true) : Shows lang bound (text ++ "." ++ name) := by
  obtain ⟨hchars, -⟩ := Language.isIdentifier_chars hname
  have hplain := fun c hc => isPlain_of_isNameChar (List.all_eq_true.1 hchars c hc)
  have hneat : Neat AroundCode ("." ++ name).toList ('.' :: name.toList) := by
    have hall : ('.' :: name.toList).all isPlain = true := by
      rw [List.all_cons, show isPlain '.' = true by decide, Bool.true_and]
      exact List.all_eq_true.2 fun c hc => (hplain c hc).1
    simpa using Neat.weaken (.plain hall)
  have hall := h.marked hneat (by simp) ?_ ?_ ?_
  · simpa [String.append_assoc] using hall
  · simpa using fun hmem => (hplain _ hmem).2.1 rfl
  · simpa using fun hmem => (hplain _ hmem).2.2 rfl
  · rw [List.any_cons, show isOdd '.' = true by decide, Bool.true_or]

/-- A step after its operand runs together with no operator. -/
theorem stepped {step : String} (hstep : step = "++" ∨ step = "--") (h : Shows lang bound text) :
    Shows lang bound (text ++ step) := by
  have hfree : ∀ form ∈ lang.infixes, ∀ word ∈ form.words,
      ¬ "++".toList <:+ word ∧ ¬ "--".toList <:+ word := by
    cases lang <;> decide
  have hplain : step.toList.all isPlain = true ∧ step.toList.head? ≠ some '"' ∧
      ' ' ∉ step.toList ∧ ',' ∉ step.toList := by
    rcases hstep with rfl | rfl <;> decide
  refine h.extended (.weaken (.plain hplain.1)) hplain.2.1 fun word hword => ⟨?_, ?_, ?_⟩
  · simp [hword.blank, hplain.2.2.1]
  · simp [hword.comma, hplain.2.2.2]
  · intro form hform hmem
    have hends := hfree form hform _ hmem
    rcases hstep with rfl | rfl
    · exact absurd (List.suffix_append _ _) hends.1
    · exact absurd (List.suffix_append _ _) hends.2

/-! ## What a type leads -/

theorem typed_call {name : String} (h : TypeText name)
    (hinner : Neat AroundCode inner.toList face) :
    Shows lang bound (name ++ parenthesized inner) :=
  .ofTypeText h (.parenthesized hinner) (head?_parenthesized inner) (by decide) (by decide)
    (by decide)

theorem typed_braces {name : String} (h : TypeText name)
    (hinner : Neat AroundCode inner.toList face) : Shows lang bound (name ++ inBraces inner) :=
  .ofTypeText h (.inBraces hinner) (head?_inBraces inner) (by decide) (by decide) (by decide)

/-- The word before what is constructed. -/
theorem constructed (h : Shows lang bound text) : Shows lang bound ("new " ++ text) := by
  have hnew : Shows lang bound "new" := .word (by decide) (by decide) fun form hform hword =>
    absurd hword (not_mem_words (by decide) (by decide) form hform)
  exact hnew.spaced h

end Surface.Shows

end Interlingua
