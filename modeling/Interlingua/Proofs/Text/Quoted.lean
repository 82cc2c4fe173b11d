import Interlingua.Text.Quoted

/-!
# Quoted strings are read back

What stands between the quotes of a literal is said apart from any reader: a backslash makes an
escape of the letter behind it, and each other character but the quote stands for itself.  So a
layout character can be spelled in two ways, by itself and by an escape.  Literals are written with
the escapes.

* `Inside` — the inside of a literal and the text that it stands for.
* `readQuoted?_eq_some_iff` — a literal is read up to the first quote that belongs to no escape.
* `eq_quoteChars_iff` — a text is written for a string exactly if it is read as the string and holds
  no layout character.
* `quote_decodable` — whatever follows a literal, its string is read and reading stops at its end.
-/

namespace Interlingua.Text

/-! ## Reading -/

/-- The inside of a literal and the text that it stands for. -/
inductive Inside : List Char → List Char → Prop
  | nil : Inside [] []
  | plain {c : Char} {body value : List Char} (hquote : c ≠ '"') (hslash : c ≠ '\\')
      (h : Inside body value) : Inside (c :: body) (c :: value)
  | escape {letter c : Char} {body value : List Char} (hletter : unescaped? letter = some c)
      (h : Inside body value) : Inside ('\\' :: letter :: body) (c :: value)

theorem readBody?_plain {c : Char} (hquote : c ≠ '"') (hslash : c ≠ '\\') (rest : List Char) :
    readBody? (c :: rest) = (readBody? rest).map fun (value, after) => (c :: value, after) := by
  rw [readBody?]
  · cases readBody? rest <;> rfl
  · exact hquote
  · intro letter tail h
    exact absurd h hslash

theorem readBody?_escape {letter c : Char} (hletter : unescaped? letter = some c)
    (rest : List Char) :
    readBody? ('\\' :: letter :: rest) =
      (readBody? rest).map fun (value, after) => (c :: value, after) := by
  have hread : readBody? ('\\' :: letter :: rest) = (unescaped? letter).bind fun c =>
      (readBody? rest).bind fun (value, after) => some (c :: value, after) := rfl
  rw [hread, hletter]
  cases readBody? rest <;> rfl

/-- The inside of a literal is read up to its closing quote. -/
theorem Inside.read {body value : List Char} (h : Inside body value) (rest : List Char) :
    readBody? (body ++ '"' :: rest) = some (value, rest) := by
  induction h with
  | nil => rfl
  | plain hquote hslash _ ih => rw [List.cons_append, readBody?_plain hquote hslash, ih]; rfl
  | escape hletter _ ih =>
    rw [List.cons_append, List.cons_append, readBody?_escape hletter, ih]
    rfl

/-- What is read is the inside of a literal. -/
theorem exists_inside {text value rest : List Char} (h : readBody? text = some (value, rest)) :
    ∃ body, Inside body value ∧ text = body ++ '"' :: rest := by
  fun_induction readBody? text generalizing value with
  | case1 => cases h
  | case2 => cases h; exact ⟨[], .nil, rfl⟩
  | case3 letter tail ih =>
    simp only [Option.bind_eq_bind, Option.bind_eq_some_iff, Option.pure_def] at h
    obtain ⟨c, hletter, ⟨inner, after⟩, hread, heq⟩ := h
    cases heq
    obtain ⟨body, hbody, rfl⟩ := ih hread
    exact ⟨'\\' :: letter :: body, .escape hletter hbody, rfl⟩
  | case4 c tail hquote hslash ih =>
    simp only [Option.bind_eq_bind, Option.bind_eq_some_iff, Option.pure_def] at h
    obtain ⟨⟨inner, after⟩, hread, heq⟩ := h
    cases heq
    obtain ⟨body, hbody, rfl⟩ := ih hread
    -- a backslash with nothing behind it leaves the literal open
    have hc : c ≠ '\\' := by
      rintro rfl
      cases body with
      | nil => exact hslash _ _ rfl rfl
      | cons letter body => exact hslash _ _ rfl rfl
    exact ⟨c :: body, .plain hquote hc hbody, rfl⟩

/-- A literal is read up to the first quote that belongs to no escape. -/
theorem readQuoted?_eq_some_iff {text value rest : List Char} :
    readQuoted? text = some (value, rest) ↔
      ∃ body, Inside body value ∧ text = '"' :: (body ++ '"' :: rest) := by
  constructor
  · intro h
    unfold readQuoted? at h
    split at h
    · obtain ⟨body, hbody, rfl⟩ := exists_inside h
      exact ⟨body, hbody, rfl⟩
    · cases h
  · rintro ⟨body, hbody, rfl⟩
    exact hbody.read rest

/-! ## Writing -/

/-- The layout characters.  A literal never holds one as it is. -/
def isLayout (c : Char) : Bool := c == '\n' || c == '\r' || c == '\t'

/-- The letters that stand for a character after a backslash, with that character. -/
theorem mem_of_unescaped? {letter c : Char} (h : unescaped? letter = some c) :
    (letter, c) ∈ [('"', '"'), ('\\', '\\'), ('n', '\n'), ('r', '\r'), ('t', '\t')] := by
  unfold unescaped? at h
  split at h <;> cases h <;> decide

theorem quotedChar_of_unescaped? {letter c : Char} (h : unescaped? letter = some c) :
    quotedChar c = ['\\', letter] := by
  have hmem := mem_of_unescaped? h
  simp only [List.mem_cons, Prod.mk.injEq, List.not_mem_nil, or_false] at hmem
  rcases hmem with ⟨rfl, rfl⟩ | ⟨rfl, rfl⟩ | ⟨rfl, rfl⟩ | ⟨rfl, rfl⟩ | ⟨rfl, rfl⟩ <;> rfl

theorem isLayout_of_unescaped? {letter c : Char} (h : unescaped? letter = some c) :
    isLayout letter = false :=
  (by decide : ∀ pair ∈ [('"', '"'), ('\\', '\\'), ('n', '\n'), ('r', '\r'), ('t', '\t')],
    isLayout pair.1 = false) _ (mem_of_unescaped? h)

/-- A character is written as an escape or as itself. -/
theorem quotedChar_cases (c : Char) :
    (∃ letter, unescaped? letter = some c ∧ quotedChar c = ['\\', letter]) ∨
      (c ≠ '"' ∧ c ≠ '\\' ∧ isLayout c = false) ∧ quotedChar c = [c] := by
  unfold quotedChar
  split
  case h_6 hquote hslash hfeed hcarriage htab =>
    have hlayout : isLayout c = false := by
      simp [isLayout, show c ≠ '\n' from hfeed, show c ≠ '\r' from hcarriage,
        show c ≠ '\t' from htab]
    exact .inr ⟨⟨hquote, hslash, hlayout⟩, rfl⟩
  all_goals exact .inl ⟨_, rfl, rfl⟩

theorem quotedChar_of_plain {c : Char} (hquote : c ≠ '"') (hslash : c ≠ '\\')
    (hlayout : isLayout c = false) : quotedChar c = [c] := by
  obtain ⟨letter, hletter, -⟩ | ⟨-, hwritten⟩ := quotedChar_cases c
  · -- what an escape stands for is a quote, a backslash or a layout character
    have hmem := mem_of_unescaped? hletter
    simp only [List.mem_cons, Prod.mk.injEq, List.not_mem_nil, or_false] at hmem
    rcases hmem with ⟨-, rfl⟩ | ⟨-, rfl⟩ | ⟨-, rfl⟩ | ⟨-, rfl⟩ | ⟨-, rfl⟩
    · exact absurd rfl hquote
    · exact absurd rfl hslash
    all_goals exact absurd hlayout (by decide)
  · exact hwritten

theorem Inside.quotedChar_append {body value : List Char} (h : Inside body value) (c : Char) :
    Inside (quotedChar c ++ body) (c :: value) := by
  obtain ⟨letter, hletter, hwritten⟩ | ⟨⟨hquote, hslash, -⟩, hwritten⟩ := quotedChar_cases c
  · rw [hwritten]
    exact .escape hletter h
  · rw [hwritten]
    exact .plain hquote hslash h

theorem inside_quotedBody (s : List Char) : Inside (quotedBody s) s := by
  induction s with
  | nil => exact .nil
  | cons c s ih => exact ih.quotedChar_append c

theorem any_isLayout_quotedChar (c : Char) : (quotedChar c).any isLayout = false := by
  obtain ⟨letter, hletter, hwritten⟩ | ⟨⟨-, -, hlayout⟩, hwritten⟩ := quotedChar_cases c
  · rw [hwritten, List.any_cons, List.any_cons, isLayout_of_unescaped? hletter]
    rfl
  · rw [hwritten, List.any_cons, hlayout]
    rfl

theorem any_isLayout_quotedBody (s : List Char) : (quotedBody s).any isLayout = false := by
  rw [quotedBody, List.any_flatMap]
  simp [any_isLayout_quotedChar]

/-- Where no layout character stands, there is one way to write a text. -/
theorem Inside.eq_quotedBody {body value : List Char} (h : Inside body value)
    (hlayout : body.any isLayout = false) : body = quotedBody value := by
  induction h with
  | nil => rfl
  | plain hquote hslash _ ih =>
    rw [List.any_cons, Bool.or_eq_false_iff] at hlayout
    rw [quotedBody, List.flatMap_cons, quotedChar_of_plain hquote hslash hlayout.1, ih hlayout.2]
    rfl
  | escape hletter _ ih =>
    simp only [List.any_cons, Bool.or_eq_false_iff] at hlayout
    rw [quotedBody, List.flatMap_cons, quotedChar_of_unescaped? hletter, ih hlayout.2.2]
    rfl

/-- A literal is read as its string, and what follows it is left. -/
theorem readQuoted?_quoteChars (s rest : List Char) :
    readQuoted? (quoteChars s ++ rest) = some (s, rest) :=
  readQuoted?_eq_some_iff.2 ⟨quotedBody s, inside_quotedBody s, by simp [quoteChars]⟩

theorem any_isLayout_quoteChars (s : List Char) : (quoteChars s).any isLayout = false := by
  simp only [quoteChars, List.any_append, List.any_cons, any_isLayout_quotedBody]
  rfl

/-- A text is written for a string exactly if it is read as the string and holds no layout
character. -/
theorem eq_quoteChars_iff {literal s rest : List Char} :
    literal = quoteChars s ↔
      readQuoted? (literal ++ rest) = some (s, rest) ∧ literal.any isLayout = false := by
  constructor
  · rintro rfl
    exact ⟨readQuoted?_quoteChars s rest, any_isLayout_quoteChars s⟩
  · rintro ⟨hread, hlayout⟩
    obtain ⟨body, hbody, htext⟩ := readQuoted?_eq_some_iff.1 hread
    have hliteral : literal ++ rest = ('"' :: body ++ ['"']) ++ rest := by simpa using htext
    cases List.append_cancel_right hliteral
    simp only [List.any_append, List.any_cons, Bool.or_eq_false_iff] at hlayout
    rw [quoteChars, hbody.eq_quotedBody hlayout.1.2]

/-! ## Strings -/

theorem toList_quote (s : String) : (quote s).toList = quoteChars s.toList := by
  rw [quote, String.toList_ofList]

theorem readQuoted?_quote (value : String) (rest : List Char) :
    readQuoted? ((quote value).toList ++ rest) = some (value.toList, rest) := by
  rw [toList_quote, readQuoted?_quoteChars]

/-- A text starts with one literal at most. -/
theorem quote_append_inj {s other rest rest' : String} :
    quote s ++ rest = quote other ++ rest' ↔ s = other ∧ rest = rest' := by
  constructor
  · intro h
    have hread := readQuoted?_quote s rest.toList
    rw [← String.toList_append, h, String.toList_append, readQuoted?_quote] at hread
    simp only [Option.some.injEq, Prod.mk.injEq, String.toList_inj] at hread
    exact ⟨hread.1.symm, hread.2.symm⟩
  · rintro ⟨rfl, rfl⟩
    rfl

theorem quote_inj {s other : String} : quote s = quote other ↔ s = other := by
  constructor
  · intro h
    have happend : quote s ++ "" = quote other ++ "" := by rw [h]
    exact (quote_append_inj.1 happend).1
  · rintro rfl
    rfl

theorem quote_prefix_iff {s other : String} :
    (quote s).toList <+: (quote other).toList ↔ s = other := by
  constructor
  · rintro ⟨rest, hrest⟩
    have happend : quote s ++ String.ofList rest = quote other ++ "" := by
      rw [← String.toList_inj]
      simpa using hrest
    exact (quote_append_inj.1 happend).1
  · rintro rfl
    exact List.prefix_refl _

theorem not_mem_quote {c : Char} (hlayout : isLayout c = true) (s : String) :
    c ∉ (quote s).toList := by
  intro hc
  rw [toList_quote] at hc
  exact List.any_eq_false.1 (any_isLayout_quoteChars s.toList) c hc hlayout

/-- **Quoted strings are decodable.**  Whatever follows the literal of a string, reading returns the
string and stops where the literal does.  So different strings have different literals, and none of
these starts another.  A literal holds no layout character, and no other text without them is read
as the same string. -/
theorem quote_decodable (s : String) :
    (∀ rest : String, readQuoted? (quote s ++ rest).toList = some (s.toList, rest.toList)) ∧
    (∀ other : String, quote s = quote other ↔ s = other) ∧
    (∀ other : String, (quote s).toList <+: (quote other).toList ↔ s = other) ∧
    ('\n' ∉ (quote s).toList ∧ '\r' ∉ (quote s).toList ∧ '\t' ∉ (quote s).toList) ∧
    ∀ literal rest : List Char, literal = (quote s).toList ↔
      readQuoted? (literal ++ rest) = some (s.toList, rest) ∧ literal.any isLayout = false := by
  refine ⟨fun rest => ?_, fun _ => quote_inj, fun _ => quote_prefix_iff,
    ⟨not_mem_quote rfl s, not_mem_quote rfl s, not_mem_quote rfl s⟩, fun literal rest => ?_⟩
  · rw [String.toList_append, readQuoted?_quote]
  · rw [toList_quote]
    exact eq_quoteChars_iff

/-- A string that looks like escapes and ends in a backslash, before a text that starts with a
quote. -/
example : readQuoted? (quote "\\n\\\"\\" ++ "\"").toList = some ("\\n\\\"\\".toList, ['"']) := by
  decide

end Interlingua.Text
