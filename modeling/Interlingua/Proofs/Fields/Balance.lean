import Interlingua.Proofs.Emit.Literals

/-!
# Code that closes what it opens

Between the braces of a format string of Python stands code, which may hold brackets, literals and
format strings of its own; these may be between the same quotes.  Where it ends is read off the
whole of it.

* `Mode` — where a reader of code is: in code, with the brackets that are open around it, or in a
  literal; `Mode.step?` reads one character, and has no result where a bracket closes another one
  than was opened.  Other than the modes of a surface, these know no angle brackets, and they tell
  literals on several lines apart.
* `Balanced` — a text leaves what is open around it as it is.  There is one rule for each way of
  putting texts together, and one for each sort of literal.
* `IsInert` — a text without quotes and brackets.
-/

namespace Interlingua.Fields

/-! ## Reading code -/

/-- What is open around a place in code. -/
inductive Bracket where
  | round
  | square
  | curly
  /-- The braces around code in a format string. -/
  | field
  deriving DecidableEq, Repr

def Bracket.opening : Bracket → Char
  | .round => '('
  | .square => '['
  | .curly | .field => '\x7b'

def Bracket.closing : Bracket → Char
  | .round => ')'
  | .square => ']'
  | .curly | .field => '\x7d'

/-- What stands right before a place in code, as far as it matters to a quote there. -/
inductive Before where
  | other
  /-- An `f`, behind which a quote opens a format string. -/
  | letter
  /-- An empty literal, which one more mark turns into the start of one on several lines. -/
  | empty (mark : Char)
  deriving DecidableEq, Repr

/-- Where a reader is. -/
inductive Mode where
  | code (stack : List Bracket) (before : Before)
  /-- In a literal on one line, which is fresh where it starts. -/
  | literal (mark : Char) (fresh escaped : Bool) (stack : List Bracket)
  /-- In a literal on several lines, after a number of marks in a row. -/
  | lines (mark : Char) (marks : Nat) (escaped : Bool) (stack : List Bracket)
  | format (escaped : Bool) (stack : List Bracket)
  /-- In a format string, after an opening brace. -/
  | brace (stack : List Bracket)
  /-- In a format string, after a closing brace. -/
  | unbrace (stack : List Bracket)
  deriving DecidableEq, Repr

def isQuote (c : Char) : Bool := c == '"' || c == '\''

def isClosing (c : Char) : Bool := c == ')' || c == ']' || c == '\x7d'

def isBreak (c : Char) : Bool := c == '\n' || c == '\r'

/-- The bracket that a character opens in code. -/
def opened? : Char → Option Bracket
  | '(' => some .round
  | '[' => some .square
  | '\x7b' => some .curly
  | _ => none

/-- Reads a closing bracket. -/
def close? (stack : List Bracket) (c : Char) : Option Mode :=
  match stack with
  | [] => none
  | top :: rest =>
    if c = top.closing then some (if top = .field then .format false rest else .code rest .other)
    else none

/-- Reads a quote in code.  Format strings are between double quotes. -/
def quoteStep? (stack : List Bracket) (before : Before) (mark : Char) : Option Mode :=
  match before with
  | .other => some (.literal mark true false stack)
  | .letter => if mark = '"' then some (.format false stack) else none
  | .empty last =>
    some (if last = mark then .lines mark 0 false stack else .literal mark true false stack)

/-- Reads a character in code. -/
def codeStep? (stack : List Bracket) (before : Before) (c : Char) : Option Mode :=
  if isQuote c then quoteStep? stack before c
  else if isClosing c then close? stack c
  else
    match opened? c with
    | some bracket => some (.code (bracket :: stack) .other)
    | none => some (.code stack (if c = 'f' then .letter else .other))

namespace Mode

/-- Reads a character. -/
def step? : Mode → Char → Option Mode
  | .code stack before, c => codeStep? stack before c
  | .literal mark _ true stack, _ => some (.literal mark false false stack)
  | .literal mark fresh false stack, c =>
    if c = mark then some (.code stack (if fresh then .empty mark else .other))
    else if isBreak c then none
    else some (.literal mark false (c == '\\') stack)
  | .lines mark _ true stack, _ => some (.lines mark 0 false stack)
  | .lines mark marks false stack, c =>
    if c = mark then
      some (if marks = 2 then .code stack .other else .lines mark (marks + 1) false stack)
    else some (.lines mark 0 (c == '\\') stack)
  | .format true stack, _ => some (.format false stack)
  | .format false stack, c =>
    if c = '"' then some (.code stack .other)
    else if c = '\x7b' then some (.brace stack)
    else if c = '\x7d' then some (.unbrace stack)
    else if isBreak c then none
    else some (.format (c == '\\') stack)
  | .brace stack, c =>
    if c = '\x7b' then some (.format false stack) else codeStep? (.field :: stack) .other c
  | .unbrace stack, c => if c = '\x7d' then some (.format false stack) else none

/-- Reads a text. -/
def run? (mode : Mode) (text : List Char) : Option Mode := text.foldlM step? mode

@[simp] theorem run?_nil (mode : Mode) : mode.run? [] = some mode := rfl

@[simp] theorem run?_cons (mode : Mode) (c : Char) (text : List Char) :
    mode.run? (c :: text) = (mode.step? c).bind fun next => next.run? text := rfl

@[simp] theorem run?_append (mode : Mode) (text more : List Char) :
    mode.run? (text ++ more) = (mode.run? text).bind fun next => next.run? more :=
  List.foldlM_append

end Mode

/-! ## Texts that close what they open -/

/-- A text starts with a quote. -/
def StartsQuoted (text : String) : Prop := ∃ c ∈ text.toList.head?, isQuote c = true

instance (text : String) : Decidable (StartsQuoted text) :=
  decidable_of_iff (text.toList.head?.any isQuote = true) (Option.any_eq_true _ _)

/-- Among any brackets, a text closes what it opens and nothing else.  One that starts with a quote
is to stand where that opens a literal. -/
def Balanced (text : String) : Prop :=
  ∀ stack before, (StartsQuoted text → before = .other) →
    ∃ after, Mode.run? (.code stack before) text.toList = some (.code stack after)

/-- A character that opens and closes nothing. -/
def isPlain (c : Char) : Bool := !(isQuote c || isClosing c || (opened? c).isSome)

/-- A text without quotes and brackets. -/
def IsInert (text : String) : Prop := ∀ c ∈ text.toList, isPlain c = true

instance (text : String) : Decidable (IsInert text) :=
  decidable_of_iff (text.toList.all isPlain = true) List.all_eq_true

/-- What may stand between any two texts. -/
structure IsSeparator (text : String) : Prop where
  inert : IsInert text
  last : ∃ c ∈ text.toList.getLast?, c ≠ 'f'

instance (text : String) : Decidable (IsSeparator text) :=
  decidable_of_iff (IsInert text ∧ text.toList.getLast?.any (· != 'f') = true)
    ⟨fun ⟨h, h'⟩ => ⟨h, by simpa [Option.any_eq_true] using h'⟩,
      fun ⟨h, h'⟩ => ⟨h, by simpa [Option.any_eq_true] using h'⟩⟩

/-! ## Texts without marks -/

/-- A plain character leaves what is open as it is. -/
theorem step?_plain {c : Char} (h : isPlain c = true) (stack : List Bracket) (before : Before) :
    Mode.step? (.code stack before) c =
      some (.code stack (if c = 'f' then .letter else .other)) := by
  simp only [isPlain, Bool.not_eq_true', Bool.or_eq_false_iff] at h
  obtain ⟨⟨hquote, hclosing⟩, hopen⟩ := h
  rw [Option.isSome_eq_false_iff, Option.isNone_iff_eq_none] at hopen
  simp [Mode.step?, codeStep?, hquote, hclosing, hopen]

/-- Plain characters are read to their last one. -/
theorem run?_plain {text : List Char} (h : ∀ c ∈ text, isPlain c = true) (stack : List Bracket)
    (before : Before) :
    Mode.run? (.code stack before) text = some (.code stack
      (match text.getLast? with
        | none => before
        | some last => if last = 'f' then .letter else .other)) := by
  induction text generalizing before with
  | nil => rfl
  | cons c text ih =>
    rw [Mode.run?_cons, step?_plain (h c List.mem_cons_self), Option.bind_some,
      ih fun d hd => h d (List.mem_cons_of_mem _ hd), List.getLast?_cons]
    cases text.getLast? <;> rfl

theorem IsSeparator.run? {text : String} (h : IsSeparator text) (stack : List Bracket)
    (before : Before) :
    Mode.run? (.code stack before) text.toList = some (.code stack .other) := by
  obtain ⟨last, hlast, hne⟩ := h.last
  rw [run?_plain h.inert, Option.mem_def.1 hlast]
  simp [hne]

namespace Balanced

variable {text more separator : String}

theorem of_isInert (h : IsInert text) : Balanced text :=
  fun stack before _ => ⟨_, run?_plain h stack before⟩

theorem append (h : Balanced text) (h' : Balanced more) (hquoted : ¬ StartsQuoted more) :
    Balanced (text ++ more) := by
  intro stack before hbefore
  have hstart : StartsQuoted text → before = .other := by
    rintro ⟨c, hc, hquote⟩
    refine hbefore ⟨c, ?_, hquote⟩
    rw [String.toList_append, List.head?_append, Option.mem_def.1 hc]
    rfl
  obtain ⟨between, hrun⟩ := h stack before hstart
  obtain ⟨after, hrun'⟩ := h' stack between fun hquote => absurd hquote hquoted
  exact ⟨after, by rw [String.toList_append, Mode.run?_append, hrun, Option.bind_some, hrun']⟩

/-- A text behind a separator. -/
theorem after (hseparator : IsSeparator separator) (h : Balanced text) :
    Balanced (separator ++ text) := by
  intro stack before _
  obtain ⟨after, hrun⟩ := h stack .other fun _ => rfl
  exact ⟨after, by
    rw [String.toList_append, Mode.run?_append, hseparator.run?, Option.bind_some, hrun]⟩

theorem not_startsQuoted_append (h : IsSeparator separator) (text : String) :
    ¬ StartsQuoted (separator ++ text) := by
  obtain ⟨last, hlast, -⟩ := h.last
  obtain ⟨c, rest, hchars⟩ := List.exists_cons_of_ne_nil
    (List.ne_nil_of_mem (List.mem_of_getLast? (Option.mem_def.1 hlast)))
  rintro ⟨d, hd, hquote⟩
  rw [String.toList_append, hchars, List.cons_append, List.head?_cons] at hd
  cases hd
  have hplain := h.inert c (by rw [hchars]; exact List.mem_cons_self)
  simp [isPlain, hquote] at hplain

/-- Two texts with a separator between them. -/
theorem join (h : Balanced text) (hseparator : IsSeparator separator) (h' : Balanced more) :
    Balanced (text ++ separator ++ more) := by
  rw [String.append_assoc]
  exact h.append (h'.after hseparator) (not_startsQuoted_append hseparator more)

theorem nil : Balanced "" := .of_isInert (by decide)

/-- Texts with a separator between any two. -/
theorem intercalate (hseparator : IsSeparator separator) {texts : List String}
    (h : ∀ text ∈ texts, Balanced text) : Balanced (separator.intercalate texts) := by
  induction texts with
  | nil => exact .nil
  | cons text rest ih =>
    have hrest := ih fun other hother => h other (List.mem_cons_of_mem _ hother)
    cases rest with
    | nil => simpa using h text List.mem_cons_self
    | cons next rest =>
      rw [String.intercalate_cons_cons]
      exact (h text List.mem_cons_self).join hseparator hrest

theorem commas {texts : List String} (h : ∀ text ∈ texts, Balanced text) :
    Balanced (Interlingua.commas texts) :=
  intercalate (by decide) h

/-! ## Brackets -/

/-- A text between brackets. -/
theorem enclosed {bracket : Bracket} (hfield : bracket ≠ .field) (h : Balanced text)
    (htext : more.toList = bracket.opening :: text.toList ++ [bracket.closing]) :
    Balanced more := by
  intro stack before _
  have hopen : Mode.step? (.code stack before) bracket.opening =
      some (.code (bracket :: stack) .other) := by
    cases bracket <;> first | rfl | contradiction
  have hclose : ∀ last, Mode.step? (.code (bracket :: stack) last) bracket.closing =
      some (.code stack .other) := by
    intro last
    cases bracket <;> first | rfl | contradiction
  obtain ⟨last, hrun⟩ := h (bracket :: stack) .other fun _ => rfl
  refine ⟨.other, ?_⟩
  rw [htext, List.cons_append, Mode.run?_cons, hopen, Option.bind_some, Mode.run?_append, hrun,
    Option.bind_some, Mode.run?_cons, hclose]
  rfl

theorem parenthesized (h : Balanced text) : Balanced (Interlingua.parenthesized text) :=
  h.enclosed (by decide : Bracket.round ≠ .field)
    (by simp [Interlingua.parenthesized, Bracket.opening, Bracket.closing])

theorem inBraces (h : Balanced text) : Balanced (Interlingua.inBraces text) :=
  h.enclosed (by decide : Bracket.curly ≠ .field)
    (by simp [Interlingua.inBraces, Bracket.opening, Bracket.closing])

theorem inSquares (h : Balanced text) : Balanced ("[" ++ text ++ "]") :=
  h.enclosed (by decide : Bracket.square ≠ .field)
    (by simp [Bracket.opening, Bracket.closing])

/-- A text before another one between brackets. -/
theorem called (h : Balanced text) (h' : Balanced more) :
    Balanced (text ++ Interlingua.parenthesized more) :=
  h.append h'.parenthesized (by simp [StartsQuoted, Interlingua.parenthesized, isQuote])

theorem indexed (h : Balanced text) (h' : Balanced more) :
    Balanced (text ++ "[" ++ more ++ "]") := by
  have hall := h.append h'.inSquares (by simp [StartsQuoted, isQuote])
  simpa [String.append_assoc] using hall

end Balanced

/-! ## Literals -/

/-- A quote where nothing else stands opens a literal. -/
theorem step?_quote {mark : Char} (hmark : isQuote mark = true) (stack : List Bracket) :
    Mode.step? (.code stack .other) mark = some (.literal mark true false stack) := by
  simp [Mode.step?, codeStep?, hmark, quoteStep?]

/-- A text on one line that does not end its literal. -/
theorem run?_literal {mark : Char} {text : List Char} {escaped : Bool}
    (hstays : Surface.staysIn mark escaped text = true) (hline : ∀ c ∈ text, isBreak c = false)
    (fresh : Bool) (stack : List Bracket) :
    Mode.run? (.literal mark fresh escaped stack) text =
      some (.literal mark (fresh && text.isEmpty) false stack) := by
  induction text generalizing escaped fresh with
  | nil =>
    cases escaped with
    | true => cases hstays
    | false => simp
  | cons c text ih =>
    have hrest : ∀ d ∈ text, isBreak d = false := fun d hd => hline d (List.mem_cons_of_mem _ hd)
    cases escaped with
    | true => simp [Mode.step?, ih hstays hrest]
    | false =>
      simp only [Surface.staysIn, Bool.and_eq_true, bne_iff_ne] at hstays
      simp [Mode.step?, hstays.1, hline c List.mem_cons_self, ih hstays.2 hrest]

/-- A literal between its marks, behind letters other than an `f`. -/
theorem Balanced.literal {mark : Char} (hmark : isQuote mark = true) {letters text : String}
    {inner : List Char} (hletters : letters = "" ∨ IsSeparator letters)
    (hstays : Surface.staysIn mark false inner = true) (hline : ∀ c ∈ inner, isBreak c = false)
    (htext : text.toList = letters.toList ++ mark :: (inner ++ [mark])) : Balanced text := by
  intro stack before hbefore
  have hstart : Mode.run? (.code stack before) letters.toList = some (.code stack .other) := by
    obtain rfl | hseparator := hletters
    · have hquoted : StartsQuoted text := ⟨mark, by simp [htext], hmark⟩
      rw [hbefore hquoted]
      rfl
    · exact hseparator.run? stack before
  refine ⟨if inner.isEmpty then .empty mark else .other, ?_⟩
  rw [htext, Mode.run?_append, hstart, Option.bind_some, Mode.run?_cons, step?_quote hmark,
    Option.bind_some, Mode.run?_append, run?_literal hstays hline]
  simp [Mode.step?]

/-- A line break is a layout character. -/
theorem isBreak_of_isLayout {c : Char} (h : Text.isLayout c = false) : isBreak c = false := by
  simp only [Text.isLayout, Bool.or_eq_false_iff] at h
  rw [isBreak, h.1.1, h.1.2]
  rfl

/-- Quoted text is on one line. -/
theorem isBreak_quotedBody (s : List Char) : ∀ c ∈ Text.quotedBody s, isBreak c = false := by
  intro c hc
  have hlayout := List.any_eq_false.1 (Text.any_isLayout_quotedBody s) c hc
  exact isBreak_of_isLayout (by simpa using hlayout)

theorem Balanced.quote (value : String) : Balanced (Text.quote value) :=
  .literal (by decide : isQuote '"' = true) (.inl rfl) (Surface.staysIn_quotedBody value.toList)
    (isBreak_quotedBody value.toList) (by simp [Text.toList_quote, Text.quoteChars])

theorem Balanced.raw {value : String} (h : Python.IsRaw value.toList) :
    Balanced ("r\"" ++ value ++ "\"") := by
  refine .literal (by decide : isQuote '"' = true) (.inr (by decide : IsSeparator "r")) h.stays
    (fun c hc => ?_) (by simp)
  have hfeed : c ≠ '\n' := fun heq => h.feed (heq ▸ hc)
  have hcarriage : c ≠ '\r' := fun heq => h.carriage (heq ▸ hc)
  simp [isBreak, hfeed, hcarriage]

/-- A text that does not close its literal is read to the end, and the literal closes behind it. -/
theorem run?_lines {text : List Char} (h : Python.IsVerbatim text) {marks : Nat} {escaped : Bool}
    (hmarks : ¬ Python.closing <+: List.replicate marks '"' ++ (text ++ ['"', '"']))
    (hescaped : escaped = true → ∀ c ∈ (text ++ ['"']).head?, Python.startsEscape c = false)
    (stack : List Bracket) :
    Mode.run? (.lines '"' marks escaped stack) (text ++ Python.closing) =
      some (.code stack .other) := by
  induction text generalizing marks escaped with
  | nil =>
    have hplain : escaped = false := by
      cases escaped with
      | false => rfl
      | true => exact absurd (hescaped rfl '"' rfl) (by decide)
    have hnone : marks = 0 := by
      cases marks with
      | zero => rfl
      | succ marks =>
        have hall : List.replicate (marks + 1) '"' ++ ([] ++ ['"', '"']) =
            Python.closing ++ List.replicate marks '"' := by
          have hends : ['"', '"'] = List.replicate 2 '"' ∧ Python.closing = List.replicate 3 '"' :=
            ⟨rfl, rfl⟩
          rw [List.nil_append, hends.1, hends.2, List.replicate_append_replicate,
            List.replicate_append_replicate, Nat.add_comm 3]
        exact absurd ⟨_, hall.symm⟩ hmarks
    rw [hplain, hnone]
    rfl
  | cons c text ih =>
    obtain ⟨hclose, hplain, htext⟩ := Python.isVerbatim_cons.1 h
    have hnone : ¬ Python.closing <+: List.replicate 0 '"' ++ (text ++ ['"', '"']) :=
      fun hprefix => htext.unclosed hprefix.isInfix
    cases escaped with
    | true => exact ih htext hnone nofun
    | false =>
      rw [List.cons_append, Mode.run?_cons, Mode.step?]
      split
      case isTrue hmark =>
        have hmore : List.replicate marks '"' ++ (c :: text ++ ['"', '"']) =
            List.replicate (marks + 1) '"' ++ (text ++ ['"', '"']) := by
          rw [hmark, List.replicate_succ', List.append_assoc]
          rfl
        rw [hmore] at hmarks
        split
        case isTrue hthird =>
          subst hthird
          exact absurd (List.prefix_append Python.closing _) hmarks
        case isFalse => exact ih htext hmarks nofun
      case isFalse hmark =>
        exact ih htext hnone fun hslash => hplain (by simpa using hslash)

theorem Balanced.lines {value : String} (h : Python.IsVerbatim value.toList) :
    Balanced ("\"\"\"" ++ value ++ "\"\"\"") := by
  intro stack before hbefore
  have hquoted : StartsQuoted ("\"\"\"" ++ value ++ "\"\"\"") := ⟨'"', by simp, by decide⟩
  have htext : ("\"\"\"" ++ value ++ "\"\"\"").toList =
      '"' :: '"' :: '"' :: (value.toList ++ Python.closing) := by simp [Python.closing]
  refine ⟨.other, ?_⟩
  rw [hbefore hquoted, htext]
  have hmarks : ¬ Python.closing <+: List.replicate 0 '"' ++ (value.toList ++ ['"', '"']) :=
    fun hprefix => h.unclosed hprefix.isInfix
  exact run?_lines h hmarks (fun hescaped => absurd hescaped Bool.false_ne_true) stack

/-- **A string that a literal carries leaves what is open around that as it is.** -/
theorem Balanced.stringLiteral {value : String} {kind : StringKind}
    (h : Language.python.Carries kind value.toList) :
    Balanced (Python.stringLiteral value kind) := by
  cases kind with
  | plain => exact .quote value
  | raw => exact .raw h
  | multiline => exact .lines h

/-! ## Format strings -/

/-- A text that leaves a format string as it is. -/
def InFormat (text : String) : Prop :=
  ∀ stack, Mode.run? (.format false stack) text.toList = some (.format false stack)

namespace InFormat

variable {text more : String}

theorem nil : InFormat "" := fun _ => rfl

theorem append (h : InFormat text) (h' : InFormat more) : InFormat (text ++ more) := by
  intro stack
  rw [String.toList_append, Mode.run?_append, h, Option.bind_some, h']

theorem join {texts : List String} (h : ∀ text ∈ texts, InFormat text) :
    InFormat (String.join texts) := by
  induction texts with
  | nil => exact .nil
  | cons text rest ih =>
    rw [String.join_cons]
    exact (h text List.mem_cons_self).append
      (ih fun other hother => h other (List.mem_cons_of_mem _ hother))

/-- Code between braces, unless it starts with a brace itself. -/
theorem field (h : Balanced text) (hbrace : text.toList.head? ≠ some '\x7b') :
    InFormat (inBraces text) := by
  intro stack
  have hfield : (inBraces text).toList = '\x7b' :: (text.toList ++ ['\x7d']) := by simp [inBraces]
  have hcode : Mode.run? (.brace stack) (text.toList ++ ['\x7d']) =
      Mode.run? (.code (.field :: stack) .other) (text.toList ++ ['\x7d']) := by
    obtain ⟨c, rest, hchars⟩ :=
      List.exists_cons_of_ne_nil (List.append_ne_nil_of_right_ne_nil text.toList
        (List.cons_ne_nil '\x7d' []))
    have hc : c ≠ '\x7b' := by
      rintro rfl
      cases htext : text.toList with
      | nil => simp [htext] at hchars
      | cons d more =>
        rw [htext] at hchars hbrace
        obtain ⟨rfl, -⟩ := List.cons.inj hchars
        exact hbrace rfl
    rw [hchars]
    simp [Mode.step?, hc]
  obtain ⟨after, hrun⟩ := h (.field :: stack) .other fun _ => rfl
  have hopen : Mode.step? (.format false stack) '\x7b' = some (.brace stack) := rfl
  rw [hfield, Mode.run?_cons, hopen, Option.bind_some, hcode, Mode.run?_append, hrun,
    Option.bind_some]
  rfl

/-- A character of a string as it stands in a format string. -/
theorem run?_formatChar (c : Char) (stack : List Bracket) :
    Mode.run? (.format false stack) (Surface.InFormat.char c) = some (.format false stack) := by
  obtain ⟨letter, -, hwritten⟩ | ⟨rfl | rfl, -⟩ | ⟨⟨hquote, hslash, hlayout⟩, hbrace, hwritten⟩ :=
    Surface.InFormat.char_cases c
  · rw [hwritten]
    rfl
  · rfl
  · rfl
  · have hslash : (c == '\\') = false := beq_false_of_ne hslash
    simp [hwritten, Mode.step?, isBreak_of_isLayout hlayout, hquote, hbrace, hslash]

/-- The text of a string, every brace written twice. -/
theorem formatText (value : String) : InFormat (Python.formatText value) := by
  intro stack
  rw [Surface.InFormat.toList_formatText]
  induction value.toList with
  | nil => rfl
  | cons c chars ih =>
    rw [List.flatMap_cons, Mode.run?_append, run?_formatChar, Option.bind_some, ih]

end InFormat

/-- A format string. -/
theorem Balanced.format {text : String} (h : InFormat text) :
    Balanced ("f\"" ++ text ++ "\"") := by
  intro stack before _
  have htext : ("f\"" ++ text ++ "\"").toList = 'f' :: '"' :: (text.toList ++ ['"']) := by simp
  refine ⟨.other, ?_⟩
  have hletter : Mode.step? (.code stack before) 'f' = some (.code stack .letter) :=
    step?_plain (by decide) stack before
  have hopen : Mode.step? (.code stack .letter) '"' = some (.format false stack) := rfl
  rw [htext, Mode.run?_cons, hletter, Option.bind_some, Mode.run?_cons, hopen, Option.bind_some,
    Mode.run?_append, h, Option.bind_some]
  rfl

end Interlingua.Fields
