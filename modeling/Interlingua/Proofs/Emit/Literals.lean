import Interlingua.Proofs.Emit.Agreement
import Interlingua.Proofs.Surface.Scan

/-!
# Literals are read back

A string is written as one of five literals, which end in different ways and take different
characters for themselves.  Quoted literals escape their text; raw literals and literals on several
lines hold it as it is, a line break in them being the characters it is written with.

* `Language.readLiteral?` — reads the literal that a text starts with, by the rules of the language.
* `Language.Carries` — the strings that a literal of a kind carries.
* `View.literal_read_iff` — exactly these are read back; any other string ends its literal early,
  leaves it open or is read as something else.
-/

namespace Interlingua

/-- A reading that puts one character in front gives a text if the rest of it is read. -/
theorem Text.map_cons_eq_some {c : Char} {read : Option (List Char × List Char)}
    {value rest : List Char} :
    read.map (fun (value, after) => (c :: value, after)) = some (c :: value, rest) ↔
      read = some (value, rest) := by
  cases read with
  | none => simp
  | some pair => simp [Prod.ext_iff]

open Surface (staysIn)

/-! ## Literals of Python -/

namespace Python

/-- Reads a raw literal behind its opening quote.  A backslash keeps the quote after it from ending
the literal, and both stay in the text; a line break is not allowed. -/
def readRaw? : Bool → List Char → Option (List Char × List Char)
  | _, [] => none
  | escaped, c :: rest =>
    if escaped = false ∧ c = '"' then some ([], rest)
    else if c = '\n' ∨ c = '\r' then none
    else (readRaw? (!escaped && c == '\\') rest).map fun (value, after) => (c :: value, after)

/-- The number that a digit of base sixteen stands for. -/
def hexDigit? (c : Char) : Option Nat :=
  if c.isDigit then some (c.toNat - '0'.toNat)
  else if 'a' ≤ c ∧ c ≤ 'f' then some (c.toNat - 'a'.toNat + 10)
  else if 'A' ≤ c ∧ c ≤ 'F' then some (c.toNat - 'A'.toNat + 10)
  else none

/-- The character whose code point some digits write. -/
def codePoint? (base : Nat) (digits : List Char) : Option Char := do
  let values ← digits.mapM hexDigit?
  let code := values.foldl (fun n digit => base * n + digit) 0
  if code.isValidChar then some (Char.ofNat code) else none

/-- A code point of a fixed number of digits, which stand behind a letter. -/
def fixedCode? (count : Nat) (rest : List Char) : Option (List Char × Nat) := do
  let c ← codePoint? 16 (rest.take count)
  if count ≤ rest.length then some ([c], count + 1) else none

/-- What a single character stands for after a backslash. -/
def simpleEscape? : Char → Option (List Char)
  | '\n' => some []
  | '\\' => some ['\\']
  | '\'' => some ['\'']
  | '"' => some ['"']
  | 'a' => some ['\x07']
  | 'b' => some ['\x08']
  | 'f' => some ['\x0c']
  | 'n' => some ['\n']
  | 'r' => some ['\r']
  | 't' => some ['\t']
  | 'v' => some ['\x0b']
  | _ => none

def isOctal (c : Char) : Bool := '0' ≤ c && c ≤ '7'

/-- Whether a backslash before a character starts an escape. -/
def startsEscape (c : Char) : Bool :=
  (simpleEscape? c).isSome || isOctal c || ['x', 'u', 'U', 'N'].contains c

/-- What an escape stands for, and how many characters behind the backslash belong to it.  Any other
backslash stands for itself.  Names of characters are not read. -/
def escape? : List Char → Option (List Char × Nat)
  | [] => none
  | c :: rest =>
    if startsEscape c then
      match simpleEscape? c with
      | some value => some (value, 1)
      | none =>
        if isOctal c then
          let digits := ((c :: rest).takeWhile isOctal).take 3
          (codePoint? 8 digits).map fun value => ([value], digits.length)
        else if c = 'x' then fixedCode? 2 rest
        else if c = 'u' then fixedCode? 4 rest
        else if c = 'U' then fixedCode? 8 rest
        else none
    else some (['\\'], 0)

/-- What closes a literal on several lines. -/
def closing : List Char := ['"', '"', '"']

/-- What a character stands for, and how many characters behind it belong to it. -/
def readHere? (c : Char) (rest : List Char) : Option (List Char × Nat) :=
  if c = '\\' then escape? rest else some ([c], 0)

/-- Reads a literal on several lines behind its opening quotes, after skipping characters that
belong to an escape. -/
def readLines? : Nat → List Char → Option (List Char × List Char)
  | _, [] => none
  | skip + 1, _ :: rest => readLines? skip rest
  | 0, c :: rest =>
    if closing <+: c :: rest then some ([], rest.drop 2)
    else (readHere? c rest).bind fun (here, used) =>
      (readLines? used rest).map fun (value, after) => (here ++ value, after)

/-- Reads a literal.  Raw literals on several lines are never written. -/
def readLiteral? : List Char → Option (List Char × List Char)
  | 'r' :: '"' :: '"' :: '"' :: _ => none
  | 'r' :: '"' :: rest => readRaw? false rest
  | '"' :: '"' :: '"' :: rest => readLines? 0 rest
  | text => Text.readQuoted? text

/-- A text on one line that does not end a raw literal. -/
structure IsRaw (value : List Char) : Prop where
  stays : staysIn '"' false value = true
  feed : '\n' ∉ value
  carriage : '\r' ∉ value

/-- A text that a literal on several lines does not close and in which nothing is an escape, also
where its end meets the closing quotes. -/
structure IsVerbatim (value : List Char) : Prop where
  unclosed : ¬ closing <:+: value ++ ['"', '"']
  plain : ∀ c, ['\\', c] <:+: value ++ ['"'] → startsEscape c = false

/-- A raw literal is read as what it was made of exactly if that does not end it. -/
theorem readRaw?_iff (value rest : List Char) :
    readRaw? false (value ++ '"' :: rest) = some (value, rest) ↔ IsRaw value := by
  have hread : ∀ escaped, readRaw? escaped (value ++ '"' :: rest) = some (value, rest) ↔
      staysIn '"' escaped value = true ∧ '\n' ∉ value ∧ '\r' ∉ value := by
    induction value with
    | nil => intro escaped; cases escaped <;> simp [readRaw?, staysIn]
    | cons c value ih =>
      intro escaped
      rw [List.cons_append, readRaw?]
      split
      case isTrue hquote => simp [hquote.1, hquote.2, staysIn]
      case isFalse hquote =>
        split
        case isTrue hline => obtain rfl | rfl := hline <;> simp
        case isFalse hline =>
          have hstays : staysIn '"' escaped (c :: value) =
              staysIn '"' (!escaped && c == '\\') value := by
            cases escaped <;> simp_all [staysIn]
          rw [not_or] at hline
          rw [Text.map_cons_eq_some, ih, hstays]
          simp [Ne.symm hline.1, Ne.symm hline.2]
  rw [hread]
  constructor
  · rintro ⟨hstays, hfeed, hcarriage⟩
    exact ⟨hstays, hfeed, hcarriage⟩
  · intro h
    exact ⟨h.stays, h.feed, h.carriage⟩

/-! ### Escapes -/

theorem fixedCode?_length {count : Nat} {rest value : List Char} {used : Nat}
    (h : fixedCode? count rest = some (value, used)) :
    value.length ≤ used ∧ used ≤ rest.length + 1 := by
  simp only [fixedCode?, Option.bind_eq_bind, Option.bind_eq_some_iff] at h
  obtain ⟨c, -, h⟩ := h
  split at h
  case isTrue hcount =>
    cases h
    exact ⟨by simp, by omega⟩
  case isFalse => cases h

theorem simpleEscape?_length {c : Char} {value : List Char} (h : simpleEscape? c = some value) :
    value.length ≤ 1 := by
  unfold simpleEscape? at h
  split at h <;> cases h <;> decide

/-- An escape is longer than what it stands for; its length is that behind the backslash. -/
theorem escape?_length {c : Char} {rest value : List Char} {used : Nat}
    (hstart : startsEscape c = true) (h : escape? (c :: rest) = some (value, used)) :
    value.length ≤ used ∧ used ≤ rest.length + 1 := by
  rw [escape?, if_pos hstart] at h
  split at h
  case h_1 hsimple =>
    cases h
    exact ⟨simpleEscape?_length hsimple, by omega⟩
  case h_2 =>
    split at h
    case isTrue hoctal =>
      obtain ⟨c, -, hpair⟩ := Option.map_eq_some_iff.1 h
      cases hpair
      simp only [List.takeWhile_cons, hoctal, if_true, List.length_take, List.length_cons,
        List.length_nil]
      have hdigits := (List.takeWhile_prefix isOctal (l := rest)).length_le
      omega
    case isFalse =>
      split at h
      · exact fixedCode?_length h
      · split at h
        · exact fixedCode?_length h
        · split at h
          · exact fixedCode?_length h
          · cases h

/-- Before some text, a character is no backslash that starts an escape. -/
def StandsForItself (c : Char) (rest : List Char) : Prop :=
  c = '\\' → ∀ d ∈ rest.head?, startsEscape d = false

theorem readHere?_of_standsForItself {c : Char} {rest : List Char}
    (hplain : StandsForItself c rest) (hrest : rest ≠ []) :
    readHere? c rest = some ([c], 0) := by
  unfold readHere?
  split
  case isTrue hslash =>
    obtain ⟨d, rest, rfl⟩ := List.exists_cons_of_ne_nil hrest
    rw [escape?, if_neg (by simp [hplain hslash d rfl]), hslash]
  case isFalse => rfl

/-- What stands for something else is longer than that. -/
theorem readHere?_length {c : Char} {rest here : List Char} {used : Nat}
    (hescape : ¬ StandsForItself c rest) (h : readHere? c rest = some (here, used)) :
    here.length ≤ used ∧ used ≤ rest.length := by
  simp only [StandsForItself, Classical.not_imp, not_forall, Bool.not_eq_false] at hescape
  obtain ⟨hslash, d, hd, hstart⟩ := hescape
  rw [readHere?, if_pos hslash] at h
  cases rest with
  | nil => cases hd
  | cons d' rest =>
    cases hd
    exact escape?_length hstart h

theorem readHere?_length_le {c : Char} {rest here : List Char} {used : Nat}
    (h : readHere? c rest = some (here, used)) : here.length ≤ used + 1 := by
  by_cases hplain : StandsForItself c rest
  · by_cases hrest : rest = []
    · unfold readHere? at h
      subst hrest
      split at h <;> cases h
      exact Nat.le_refl 1
    · rw [readHere?_of_standsForItself hplain hrest] at h
      cases h
      exact Nat.le_refl 1
  · exact (readHere?_length hplain h).1.trans (Nat.le_succ _)

/-! ### Literals on several lines -/

/-- What is read is no longer than its text. -/
theorem readLines?_length {skip : Nat} {text value after : List Char}
    (h : readLines? skip text = some (value, after)) :
    value.length + 3 + after.length + skip ≤ text.length := by
  induction text generalizing skip value with
  | nil => cases skip <;> cases h
  | cons c text ih =>
    cases skip with
    | succ skip =>
      have hrest := ih h
      simp only [List.length_cons]
      omega
    | zero =>
      rw [readLines?] at h
      split at h
      case isTrue hclose =>
        cases h
        have hlong := hclose.length_le
        simp only [closing, List.length_cons, List.length_nil, List.length_drop] at hlong ⊢
        omega
      case isFalse =>
        obtain ⟨⟨here, used⟩, hhere, hread⟩ := Option.bind_eq_some_iff.1 h
        obtain ⟨⟨value', after'⟩, hrest, hpair⟩ := Option.map_eq_some_iff.1 hread
        cases hpair
        have hlong := ih hrest
        have hhere := readHere?_length_le hhere
        simp only [List.length_append, List.length_cons]
        omega

theorem isVerbatim_cons {c : Char} {value : List Char} :
    IsVerbatim (c :: value) ↔ ¬ closing <+: c :: (value ++ ['"', '"']) ∧
      StandsForItself c (value ++ ['"']) ∧ IsVerbatim value := by
  constructor
  · intro h
    refine ⟨fun hprefix => h.unclosed hprefix.isInfix, fun hslash d hd => h.plain d ?_, ?_, ?_⟩
    · obtain ⟨rest, hrest⟩ := List.head?_eq_some_iff.1 hd
      rw [List.cons_append, hrest, hslash]
      exact (List.prefix_append ['\\', d] rest).isInfix
    · exact fun hclose => h.unclosed (List.infix_cons hclose)
    · exact fun d hd => h.plain d (List.infix_cons hd)
  · intro ⟨hclose, hplain, h⟩
    refine ⟨fun hinfix => ?_, fun d hd => ?_⟩
    · exact (List.infix_cons_iff.1 hinfix).elim hclose h.unclosed
    · obtain hprefix | hinfix := List.infix_cons_iff.1 hd
      · obtain ⟨hslash, rest, hrest⟩ := List.cons_prefix_cons.1 hprefix
        exact hplain hslash.symm d (List.head?_eq_some_iff.2 ⟨rest, hrest.symm⟩)
      · exact h.plain d hinfix

/-- A literal on several lines is read as what it was made of exactly if nothing in it is read as
something else. -/
theorem readLines?_iff (value rest : List Char) :
    readLines? 0 (value ++ closing ++ rest) = some (value, rest) ↔ IsVerbatim value := by
  induction value with
  | nil =>
    have hempty : IsVerbatim [] := by
      refine ⟨by decide, fun c hc => ?_⟩
      have hlong := hc.length_le
      simp at hlong
    simp [closing, readLines?, hempty]
  | cons c value ih =>
    have hclose : closing <+: c :: (value ++ closing ++ rest) ↔
        closing <+: c :: (value ++ ['"', '"']) := by
      have hprefix : c :: (value ++ ['"', '"']) <+: c :: (value ++ closing ++ rest) :=
        ⟨'"' :: rest, by simp [closing]⟩
      exact ⟨fun h => List.prefix_of_prefix_length_le h hprefix (by simp [closing]),
        fun h => h.trans hprefix⟩
    have hplain : StandsForItself c (value ++ closing ++ rest) ↔
        StandsForItself c (value ++ ['"']) := by
      cases value <;> simp [StandsForItself, closing]
    rw [List.cons_append, List.cons_append, readLines?, isVerbatim_cons, ← hclose, ← hplain]
    split
    case isTrue hclosed => exact iff_of_false (by simp) fun h => h.1 hclosed
    case isFalse hopen =>
      by_cases hhere : StandsForItself c (value ++ closing ++ rest)
      · rw [readHere?_of_standsForItself hhere (by simp [closing])]
        simp only [Option.bind_some, List.singleton_append, Text.map_cons_eq_some, ih, hopen, hhere,
          not_false_eq_true, true_and]
      · refine iff_of_false (fun h => ?_) fun h => hhere h.2.1
        -- what an escape stands for leaves too little text for the rest of the value
        obtain ⟨⟨here, used⟩, hread, hrest⟩ := Option.bind_eq_some_iff.1 h
        obtain ⟨⟨value', after⟩, hvalue, hpair⟩ := Option.map_eq_some_iff.1 hrest
        simp only [Prod.mk.injEq] at hpair
        have hlong := congrArg List.length hpair.1
        have hescape := readHere?_length hhere hread
        have hlines := readLines?_length hvalue
        rw [hpair.2] at hlines
        simp only [List.length_append, List.length_cons, closing, List.length_nil] at hlong hlines
        omega

end Python

/-! ## Literals of C++ and Java -/

namespace Cpp

/-- Reads a raw literal behind its opening marks. -/
def readRaw? : List Char → Option (List Char × List Char)
  | [] => none
  | ')' :: '"' :: rest => some ([], rest)
  | c :: rest => (readRaw? rest).map fun (value, after) => (c :: value, after)

/-- Reads a literal. -/
def readLiteral? : List Char → Option (List Char × List Char)
  | 'R' :: '"' :: '(' :: rest => readRaw? rest
  | text => Text.readQuoted? text

/-- A raw literal is read as what it was made of exactly if that does not close it. -/
theorem readRaw?_iff (value rest : List Char) :
    readRaw? (value ++ ')' :: '"' :: rest) = some (value, rest) ↔ ¬ [')', '"'] <:+: value := by
  induction value with
  | nil => simp [readRaw?]
  | cons c value ih =>
    rw [List.cons_append]
    by_cases hclose : [')', '"'] <+: c :: value
    · obtain ⟨tail, htail⟩ := hclose
      refine iff_of_false ?_ fun h => h ⟨[], tail, by simpa using htail⟩
      simp only [List.cons_append, List.nil_append, List.cons.injEq] at htail
      obtain ⟨rfl, rfl⟩ := htail
      simp [readRaw?]
    · rw [readRaw?, Text.map_cons_eq_some, ih, List.infix_cons_iff]
      · simp [hclose]
      · rintro tail rfl htail
        cases value with
        | nil => simp at htail
        | cons d value =>
          obtain ⟨rfl, -⟩ := List.cons.inj htail
          exact hclose (List.prefix_append [')', '"'] value)

end Cpp

/-- Reads a literal in Java.  Text blocks are never written. -/
def Java.readLiteral? : List Char → Option (List Char × List Char)
  | '"' :: '"' :: '"' :: _ => none
  | text => Text.readQuoted? text

/-! ## Literals of all languages -/

namespace Text

theorem quotedChar_head (c : Char) : ∃ d tail, quotedChar c = d :: tail ∧ d ≠ '"' := by
  obtain ⟨letter, -, hwritten⟩ | ⟨⟨hquote, -, -⟩, hwritten⟩ := quotedChar_cases c
  · exact ⟨'\\', [letter], hwritten, by decide⟩
  · exact ⟨c, [], hwritten, hquote⟩

/-- A quoted literal does not start like one with three quotes, unless it is empty and a quote
follows it. -/
theorem not_triple_prefix_quote (value : String) {rest : List Char}
    (hrest : rest.head? ≠ some '"') :
    ¬ ['"', '"', '"'] <+: (quote value).toList ++ rest := by
  rw [toList_quote, quoteChars]
  intro hprefix
  cases hvalue : value.toList with
  | nil =>
    rw [hvalue] at hprefix
    obtain ⟨tail, htail⟩ := hprefix
    simp only [quotedBody, List.flatMap_nil, List.cons_append, List.nil_append, List.cons.injEq,
      true_and] at htail
    exact hrest (by rw [← htail, List.head?_cons])
  | cons c chars =>
    obtain ⟨d, tail, hhead, hd⟩ := quotedChar_head c
    rw [hvalue, quotedBody, List.flatMap_cons, hhead] at hprefix
    simp only [List.cons_append, List.cons_prefix_cons, true_and] at hprefix
    exact hd hprefix.1.symm

end Text

theorem Python.readLiteral?_quote (value : String) {rest : List Char}
    (hrest : rest.head? ≠ some '"') :
    readLiteral? ((Text.quote value).toList ++ rest) = some (value.toList, rest) := by
  have hquote : ∃ tail, (Text.quote value).toList = '"' :: tail :=
    ⟨_, by rw [Text.toList_quote, Text.quoteChars, List.cons_append]⟩
  rw [readLiteral?, Text.readQuoted?_quote]
  case x_3 =>
    intro tail htail
    refine Text.not_triple_prefix_quote value hrest ?_
    rw [htail]
    exact List.prefix_append ['"', '"', '"'] tail
  all_goals
    intro tail htail
    obtain ⟨inner, hinner⟩ := hquote
    rw [hinner] at htail
    cases htail

/-- Behind a raw literal no other one starts that would make it one on several lines. -/
theorem Python.readLiteral?_raw (value : String) {rest : List Char}
    (hrest : rest.head? ≠ some '"') :
    readLiteral? ((stringLiteral value .raw).toList ++ rest) = some (value.toList, rest) ↔
      IsRaw value.toList := by
  have htext : (stringLiteral value .raw).toList ++ rest =
      'r' :: '"' :: (value.toList ++ '"' :: rest) := by simp [stringLiteral]
  rw [htext]
  by_cases htriple : ['"', '"'] <+: value.toList ++ '"' :: rest
  · refine iff_of_false ?_ fun h => ?_
    · obtain ⟨tail, htail⟩ := htriple
      rw [← htail]
      intro h
      cases h
    · have hstays := h.stays
      cases hvalue : value.toList with
      | nil =>
        rw [hvalue] at htriple
        obtain ⟨tail, htail⟩ := htriple
        simp only [List.cons_append, List.nil_append, List.cons.injEq, true_and] at htail
        exact hrest (by rw [← htail, List.head?_cons])
      | cons c chars =>
        rw [hvalue] at htriple hstays
        obtain ⟨rfl, -⟩ := List.cons_prefix_cons.1 htriple
        simp [staysIn] at hstays
  · rw [readLiteral?, readRaw?_iff]
    intro tail htail
    exact htriple ⟨tail, htail.symm⟩

theorem Python.readLiteral?_multiline (value : String) (rest : List Char) :
    readLiteral? ((stringLiteral value .multiline).toList ++ rest) = some (value.toList, rest) ↔
      IsVerbatim value.toList := by
  have htext : (stringLiteral value .multiline).toList ++ rest =
      '"' :: '"' :: '"' :: (value.toList ++ closing ++ rest) := by simp [stringLiteral, closing]
  rw [htext]
  exact readLines?_iff value.toList rest

theorem Cpp.readLiteral?_quote (value : String) (rest : List Char) :
    readLiteral? ((Text.quote value).toList ++ rest) = some (value.toList, rest) := by
  rw [readLiteral?, Text.readQuoted?_quote]
  intro tail htail
  rw [Text.toList_quote, Text.quoteChars] at htail
  cases htail

theorem Cpp.readLiteral?_raw (value : String) (rest : List Char) :
    readLiteral? ((stringLiteral value .raw).toList ++ rest) = some (value.toList, rest) ↔
      ¬ [')', '"'] <:+: value.toList := by
  have htext : (stringLiteral value .raw).toList ++ rest =
      'R' :: '"' :: '(' :: (value.toList ++ ')' :: '"' :: rest) := by simp [stringLiteral]
  rw [htext]
  exact readRaw?_iff value.toList rest

theorem Java.readLiteral?_quote (value : String) {rest : List Char}
    (hrest : rest.head? ≠ some '"') :
    readLiteral? ((Text.quote value).toList ++ rest) = some (value.toList, rest) := by
  rw [readLiteral?, Text.readQuoted?_quote]
  intro tail htail
  refine Text.not_triple_prefix_quote value hrest ?_
  rw [htail]
  exact List.prefix_append ['"', '"', '"'] tail

namespace Language

/-- Reads the literal that a text starts with. -/
def readLiteral? : Language → List Char → Option (List Char × List Char)
  | .java => Java.readLiteral?
  | .python => Python.readLiteral?
  | .cpp => Cpp.readLiteral?

/-- Whether a string can be written as a literal of a kind: it has to be, where the literal holds it
as it is, a text that neither closes the literal nor is read as something else in it. -/
def Carries : Language → StringKind → List Char → Prop
  | .python, .raw, value => Python.IsRaw value
  | .python, .multiline, value => Python.IsVerbatim value
  | .cpp, .raw, value => ¬ [')', '"'] <:+: value
  | _, _, _ => True

theorem readLiteral?_iff (lang : Language) (value : String) (kind : StringKind) {rest : List Char}
    (hrest : rest.head? ≠ some '"') :
    lang.readLiteral? ((lang.dialect.stringLiteral value kind).toList ++ rest) =
      some (value.toList, rest) ↔ lang.Carries kind value.toList := by
  have hjava := Java.readLiteral?_quote value hrest
  have hpython := Python.readLiteral?_quote value hrest
  have hcpp := Cpp.readLiteral?_quote value rest
  cases lang with
  | java => exact iff_of_true hjava trivial
  | python =>
    cases kind with
    | plain => exact iff_of_true hpython trivial
    | raw => exact Python.readLiteral?_raw value hrest
    | multiline => exact Python.readLiteral?_multiline value rest
  | cpp =>
    cases kind with
    | raw => exact Cpp.readLiteral?_raw value rest
    | plain | multiline => exact iff_of_true hcpp trivial

end Language

/-- **Literals are read back.**  A string is always written.  What follows its literal is left, and
the literal is read as the string, exactly if the string is one that the literal carries. -/
theorem View.literal_read_iff {view : View} {id : NodeId} {value : String} {kind : StringKind}
    (hid : view.arena.expr id = .ok (.str value kind)) (scope : Scope) :
    ∃ text, view.expr id scope = .ok text scope ∧ ∀ rest : List Char, rest.head? ≠ some '"' →
      (view.lang.readLiteral? (text.toList ++ rest) = some (value.toList, rest) ↔
        view.lang.Carries kind value.toList) := by
  refine ⟨view.lang.dialect.stringLiteral value kind, ?_, fun rest hrest =>
    view.lang.readLiteral?_iff value kind hrest⟩
  rw [View.expr, Arena.depthBound, exprTo_succ hid]
  rfl

/-- A raw literal in Python that holds a backslash and an apostrophe. -/
theorem View.literal_read_iff_backslash :
    let arena : Arena := ⟨#[.expr (.str "\\d'" .raw)]⟩
    let view : View := ⟨⟨arena, ⟨0⟩⟩, .python, {}⟩
    view.arena.expr ⟨0⟩ = .ok (.str "\\d'" .raw) ∧ view.lang.Carries .raw "\\d'".toList ∧
      ∃ text, view.expr ⟨0⟩ {} = .ok text {} ∧ ∀ rest : List Char, rest.head? ≠ some '"' →
        view.lang.readLiteral? (text.toList ++ rest) = some ("\\d'".toList, rest) := by
  intro arena view
  have hid : view.arena.expr ⟨0⟩ = .ok (.str "\\d'" .raw) := rfl
  have hcarries : view.lang.Carries .raw "\\d'".toList :=
    ⟨by decide, by decide, by decide⟩
  obtain ⟨text, htext, hread⟩ := View.literal_read_iff hid {}
  exact ⟨hid, hcarries, text, htext, fun rest hrest => (hread rest hrest).2 hcarries⟩

/-- A raw literal in Python whose text has a quote ends there, and the rest of the text is left. -/
theorem View.literal_cut_short :
    let arena : Arena := ⟨#[.expr (.str "a\"b" .raw)]⟩
    let view : View := ⟨⟨arena, ⟨0⟩⟩, .python, {}⟩
    view.expr ⟨0⟩ {} = .ok "r\"a\"b\"" {} ∧
      view.lang.readLiteral? "r\"a\"b\"".toList = some (['a'], ['b', '"']) ∧
      ¬ view.lang.Carries .raw "a\"b".toList := by
  refine ⟨rfl, by decide, fun h => absurd h.stays (by decide)⟩

end Interlingua
