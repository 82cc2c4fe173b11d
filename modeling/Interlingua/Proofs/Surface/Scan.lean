import Interlingua.Emit.Expr.Python
import Interlingua.Proofs.Text.Quoted
import Interlingua.Text.Letter

/-!
# The surface of a text

What of a program text stands outside of all brackets and literals.

* `Mode` — where a reader of the text is: in code, with the brackets that are open around it, or in
  a literal; `Mode.step` reads one character.  A format string holds code in braces, and angle
  brackets open directly after a name only.
* `surface` — the characters of a text that are read outside of all brackets and literals, with the
  marks that open and close these.
* `Neat` — a text closes what it opens and nothing else, so that whatever is open around it stays
  open, and its surface is the given one.  There is one rule for each way of putting texts together.
-/

namespace Interlingua.Surface

/-! ## Reading a text -/

/-- What is open around a place in a text. -/
inductive Bracket where
  | round
  | square
  | curly
  | angle
  /-- The braces around code in a format string. -/
  | field
  deriving DecidableEq, Repr

def Bracket.closing : Bracket → Char
  | .round => ')'
  | .square => ']'
  | .curly | .field => '\x7d'
  | .angle => '>'

/-- Where a reader is. -/
inductive Mode where
  /-- In code, after the given character. -/
  | code (stack : List Bracket) (last : Char)
  /-- In a literal that the mark ends; a backslash takes the mark its meaning. -/
  | literal (mark : Char) (escaped : Bool) (stack : List Bracket)
  | format (escaped : Bool) (stack : List Bracket)
  /-- In a format string, after an opening brace. -/
  | brace (stack : List Bracket)
  deriving DecidableEq, Repr

/-- A word that holds no blank is not split. -/
theorem splitOn_of_not_mem {word : List Char} (h : ' ' ∉ word) : word.splitOn ' ' = [word] := by
  have hone : ([' '].intercalate [word]).splitOn ' ' = [word] :=
    List.splitOn_intercalate ' ' (by simpa using h) (by simp)
  simpa using hone

def isNameChar (c : Char) : Bool := Text.isLetter c || Text.isNumeral c || c == '_'

/-- The bracket that a character opens. -/
def opened? (last c : Char) : Option Bracket :=
  match c with
  | '(' => some .round
  | '[' => some .square
  | '\x7b' => some .curly
  | '<' => if isNameChar last then some .angle else none
  | _ => none

/-- What a character does that opens nothing. -/
def close (stack : List Bracket) (c : Char) : Mode :=
  match stack with
  | [] => .code [] c
  | top :: rest =>
    if c = top.closing then
      if top = .field then .format false rest else .code rest c
    else .code stack c

/-- Reads a character in code. -/
def codeStep (stack : List Bracket) (last c : Char) : Mode :=
  if c = '"' then
    if last = 'f' then .format false stack else .literal '"' false stack
  else if c = '\'' then .literal '\'' false stack
  else
    match opened? last c with
    | some bracket => .code (bracket :: stack) c
    | none => close stack c

namespace Mode

/-- Reads a character. -/
def step : Mode → Char → Mode
  | .code stack last, c => codeStep stack last c
  | .literal mark true stack, _ => .literal mark false stack
  | .literal mark false stack, c =>
    if c = mark then .code stack c else .literal mark (c == '\\') stack
  | .format true stack, _ => .format false stack
  | .format false stack, c =>
    if c = '"' then .code stack c
    else if c = '\x7b' then .brace stack
    else .format (c == '\\') stack
  | .brace stack, c =>
    if c = '\x7b' then .format false stack else codeStep (.field :: stack) '\x7b' c

/-- Outside of all brackets and literals. -/
def isOutside : Mode → Bool
  | .code [] _ => true
  | _ => false

@[simp] theorem isOutside_nil (last : Char) : isOutside (.code [] last) = true := rfl

@[simp] theorem isOutside_cons (top : Bracket) (rest : List Bracket) (last : Char) :
    isOutside (.code (top :: rest) last) = false := rfl

@[simp] theorem isOutside_literal (mark : Char) (escaped : Bool) (stack : List Bracket) :
    isOutside (.literal mark escaped stack) = false := rfl

@[simp] theorem isOutside_format (escaped : Bool) (stack : List Bracket) :
    isOutside (.format escaped stack) = false := rfl

@[simp] theorem isOutside_brace (stack : List Bracket) : isOutside (.brace stack) = false := rfl

/-- Reads a text. -/
def run (mode : Mode) (text : List Char) : Mode := text.foldl step mode

@[simp] theorem run_nil (mode : Mode) : mode.run [] = mode := rfl

@[simp] theorem run_cons (mode : Mode) (c : Char) (text : List Char) :
    mode.run (c :: text) = (mode.step c).run text := rfl

@[simp] theorem run_append (mode : Mode) (text more : List Char) :
    mode.run (text ++ more) = (mode.run text).run more := by
  simp [run]

/-- The characters read outside of brackets and literals, with the marks around what is skipped. -/
def surface (mode : Mode) : List Char → List Char
  | [] => []
  | c :: rest =>
    if mode.isOutside || (mode.step c).isOutside then c :: (mode.step c).surface rest
    else (mode.step c).surface rest

theorem surface_append (mode : Mode) (text more : List Char) :
    mode.surface (text ++ more) = mode.surface text ++ (mode.run text).surface more := by
  induction text generalizing mode with
  | nil => rfl
  | cons c text ih =>
    simp only [List.cons_append, surface, run_cons, ih]
    split <;> rfl

end Mode

/-- The surface of a text. -/
def surface (text : String) : List Char := Mode.surface (.code [] ' ') text.toList

/-! ## Texts that close what they open -/

/-- A quote directly after an `f` would open a format string. -/
def Joins (last : Char) (text : List Char) : Prop := text.head? = some '"' → last ≠ 'f'

/-- What stands around an expression: no angle bracket directly, since these hold types only. -/
def AroundCode (stack : List Bracket) : Prop := stack.head? ≠ some .angle

/-- What stands around a type. -/
def Anywhere (_ : List Bracket) : Prop := True

/-- Among brackets of the given sort, a text closes what it opens and shows its face. -/
def Neat (around : List Bracket → Prop) (text face : List Char) : Prop :=
  ∀ stack last, around stack → Joins last text →
    Mode.run (.code stack last) text = .code stack (text.getLast?.getD last) ∧
      Mode.surface (.code stack last) text = if stack = [] then face else []

namespace Neat

variable {around : List Bracket → Prop} {text more face other : List Char}

theorem nil : Neat around [] [] := by
  intro stack last _ _
  simp [Mode.surface]

theorem weaken (h : Neat Anywhere text face) : Neat around text face :=
  fun stack last _ hjoin => h stack last trivial hjoin

theorem append (h : Neat around text face) (h' : Neat around more other)
    (hjoin : ∀ last ∈ text.getLast?, Joins last more) :
    Neat around (text ++ more) (face ++ other) := by
  intro stack last hstack hfirst
  have hleft : Joins last text := by
    intro hhead
    exact hfirst (by rw [List.head?_append, hhead]; rfl)
  have hright : Joins (text.getLast?.getD last) more := by
    cases hlast : text.getLast? with
    | none =>
      rw [List.getLast?_eq_none_iff] at hlast
      subst hlast
      exact hfirst
    | some c => exact hjoin c hlast
  obtain ⟨hrun, hface⟩ := h stack last hstack hleft
  obtain ⟨hrun', hface'⟩ := h' stack _ hstack hright
  refine ⟨?_, ?_⟩
  · rw [Mode.run_append, hrun, hrun', List.getLast?_append]
    cases more.getLast? <;> rfl
  · rw [Mode.surface_append, hrun, hface, hface']
    split <;> rfl

/-- Text after which no format string can begin. -/
theorem append_of_head (h : Neat around text face) (h' : Neat around more other)
    (hhead : more.head? ≠ some '"') : Neat around (text ++ more) (face ++ other) :=
  h.append h' fun _ _ hquote => absurd hquote hhead

end Neat

/-! ## Plain characters -/

/-- Characters that can open or close something. -/
def marks : List Char := ['"', '\'', '(', ')', '[', ']', '<', '>', '\x7b', '\x7d']

/-- A character that neither opens nor closes anything. -/
def isPlain (c : Char) : Bool := !marks.contains c

theorem ne_of_isPlain {c mark : Char} (h : isPlain c = true) (hmark : mark ∈ marks) : c ≠ mark := by
  rintro rfl
  simp [isPlain, hmark] at h

theorem closing_mem (bracket : Bracket) : bracket.closing ∈ marks := by cases bracket <;> decide

theorem opened?_of_isPlain {c : Char} (h : isPlain c = true) (last : Char) :
    opened? last c = none := by
  unfold opened?
  split
  case h_5 => rfl
  all_goals exact absurd h (by decide)

theorem close_of_ne {stack : List Bracket} {c : Char}
    (h : ∀ top ∈ stack.head?, c ≠ top.closing) : close stack c = .code stack c := by
  cases stack with
  | nil => rfl
  | cons top rest => simp [close, h top rfl]

theorem step_plain {c : Char} (h : isPlain c = true) (stack : List Bracket) (last : Char) :
    Mode.step (.code stack last) c = .code stack c := by
  have hquote : c ≠ '"' := ne_of_isPlain h (by decide)
  have hmark : c ≠ '\'' := ne_of_isPlain h (by decide)
  have hclose : close stack c = .code stack c :=
    close_of_ne fun top _ => ne_of_isPlain h (closing_mem top)
  simp [Mode.step, codeStep, hquote, hmark, opened?_of_isPlain h, hclose]

/-- A character that leaves what is open as it is shows itself. -/
theorem Neat.cons {around : List Bracket → Prop} {c : Char} {text face : List Char}
    (hstep : ∀ stack last, around stack → Joins last [c] →
      Mode.step (.code stack last) c = .code stack c)
    (h : Neat around text face) (hjoin : Joins c text) : Neat around (c :: text) (c :: face) := by
  have hone : Neat around [c] [c] := by
    intro stack last hstack hfirst
    have hc := hstep stack last hstack hfirst
    cases stack with
    | nil => simp [hc, Mode.surface]
    | cons top rest => simp [hc, Mode.surface]
  exact hone.append h fun last hlast => by
    cases hlast
    exact hjoin

theorem Neat.plain {text : List Char} (h : text.all isPlain = true) : Neat Anywhere text text := by
  induction text with
  | nil => exact .nil
  | cons c text ih =>
    rw [List.all_cons, Bool.and_eq_true] at h
    refine .cons (fun stack last _ _ => step_plain h.1 stack last) (ih h.2) fun hquote => ?_
    cases text with
    | nil => cases hquote
    | cons next rest =>
      cases hquote
      rw [List.all_cons, Bool.and_eq_true] at h
      exact absurd h.2.1 (by decide)

/-- What holds of each character of a list is checked on the list, not on all characters. -/
theorem forall_mem_of_all {P : Char → Prop} [DecidablePred P] {chars : List Char}
    (h : (chars.all fun c => P c) = true) : ∀ c ∈ chars, P c :=
  fun c hc => of_decide_eq_true (List.all_eq_true.1 h c hc)

/-- A character of which operators are made. -/
def isSymbol (c : Char) : Bool := "+-*/%<>=!&|^?:~".toList.contains c

theorem not_isNameChar_of_isSymbol {c : Char} (h : isSymbol c = true) : isNameChar c = false := by
  have hall : ∀ c ∈ "+-*/%<>=!&|^?:~".toList, isNameChar c = false :=
    forall_mem_of_all (by decide)
  exact hall c (by simpa [isSymbol] using h)

/-- An operator does not open a bracket, and around code there is none that it closes. -/
theorem step_symbol {c last : Char} {stack : List Bracket} (h : isSymbol c = true)
    (hlast : isNameChar last = false) (hstack : AroundCode stack) :
    Mode.step (.code stack last) c = .code stack c := by
  have hall : ∀ c ∈ "+-*/%<>=!&|^?:~".toList, isPlain c = true ∨ c = '<' ∨ c = '>' :=
    forall_mem_of_all (by decide)
  rcases hall c (by simpa [isSymbol] using h) with hplain | rfl | rfl
  · exact step_plain hplain stack last
  · have hclose : close stack '<' = .code stack '<' :=
      close_of_ne fun top _ => by cases top <;> decide
    simp [Mode.step, codeStep, opened?, hlast, hclose]
  · have hclose : close stack '>' = .code stack '>' := by
      refine close_of_ne fun top htop => ?_
      cases top with
      | angle => exact absurd htop hstack
      | _ => decide
    simp [Mode.step, codeStep, opened?, hclose]

theorem run_symbols {value : List Char} (h : value.all isSymbol = true) {stack : List Bracket}
    (hstack : AroundCode stack) {last : Char} (hlast : isNameChar last = false) :
    Mode.run (.code stack last) value = .code stack (value.getLast?.getD last) ∧
      Mode.surface (.code stack last) value = if stack = [] then value else [] := by
  induction value generalizing last with
  | nil => simp [Mode.surface]
  | cons c value ih =>
    rw [List.all_cons, Bool.and_eq_true] at h
    have hstep := step_symbol h.1 hlast hstack
    obtain ⟨hrun, hface⟩ := ih h.2 (not_isNameChar_of_isSymbol h.1)
    refine ⟨?_, ?_⟩
    · rw [Mode.run_cons, hstep, hrun, List.getLast?_cons]
      rfl
    · rw [Mode.surface, hstep, hface]
      cases stack with
      | nil => simp
      | cons top rest => simp

/-- A symbol between blanks shows itself. -/
theorem Neat.symbol {value : List Char} (h : value.all isSymbol = true) :
    Neat AroundCode (' ' :: value ++ [' ']) (' ' :: value ++ [' ']) := by
  intro stack last hstack _
  have hblank : ∀ last, Mode.step (.code stack last) ' ' = .code stack ' ' :=
    step_plain (by decide) stack
  have hname : isNameChar ' ' = false := by decide
  obtain ⟨hrun, hface⟩ := run_symbols h hstack hname
  refine ⟨?_, ?_⟩
  · rw [List.getLast?_concat]
    simp [hblank, hrun]
  · rw [List.cons_append, Mode.surface, hblank, Mode.surface_append, hface, hrun, Mode.surface,
      hblank]
    cases stack with
    | nil => simp [Mode.surface]
    | cons top rest => simp [Mode.surface]

/-! ## Brackets -/

/-- What a bracket is opened with. -/
def Bracket.opening : Bracket → Char
  | .round => '('
  | .square => '['
  | .curly | .field => '\x7b'
  | .angle => '<'

/-- What is read between an opening and a closing mark does not show. -/
theorem run_hidden {stack : List Bracket} {last a b : Char} {text : List Char} {inner inner' : Mode}
    (hopen : Mode.step (.code stack last) a = inner) (hinner : inner.isOutside = false)
    (hrun : inner.run text = inner') (hface : inner.surface text = [])
    (hinner' : inner'.isOutside = false) (hclose : inner'.step b = .code stack b) :
    Mode.run (.code stack last) (a :: text ++ [b]) = .code stack b ∧
      Mode.surface (.code stack last) (a :: text ++ [b]) = if stack = [] then [a, b] else [] := by
  refine ⟨?_, ?_⟩
  · rw [List.cons_append, Mode.run_cons, hopen, Mode.run_append, hrun, Mode.run_cons, hclose,
      Mode.run_nil]
  · rw [List.cons_append, Mode.surface, hopen, Mode.surface_append, hface, hrun, Mode.surface,
      hclose]
    cases stack with
    | nil => simp [Mode.surface]
    | cons top rest =>
      simp [hinner, hinner', Mode.surface]

/-- A text between brackets. -/
theorem Neat.enclosed {bracket : Bracket} (hangle : bracket ≠ .angle) (hfield : bracket ≠ .field)
    {around : List Bracket → Prop} {text face : List Char} (h : Neat AroundCode text face) :
    Neat around (bracket.opening :: text ++ [bracket.closing])
      [bracket.opening, bracket.closing] := by
  intro stack last _ _
  have hopen : Mode.step (.code stack last) bracket.opening =
      .code (bracket :: stack) bracket.opening := by
    cases bracket <;> first | rfl | contradiction
  have hclose : ∀ last, Mode.step (.code (bracket :: stack) last) bracket.closing =
      .code stack bracket.closing := by
    intro last
    cases bracket <;> first | rfl | contradiction
  have hjoin : Joins bracket.opening text := by
    intro _
    cases bracket <;> decide
  have haround : AroundCode (bracket :: stack) := by simpa [AroundCode] using hangle
  obtain ⟨hrun, hface⟩ := h (bracket :: stack) bracket.opening haround hjoin
  rw [List.getLast?_concat]
  exact run_hidden hopen rfl hrun (by simpa using hface) rfl (hclose _)

/-- Types between angle brackets after a name. -/
theorem Neat.angle {name nameFace text face : List Char} (hname : Neat Anywhere name nameFace)
    (hlast : ∃ last, name.getLast? = some last ∧ isNameChar last = true)
    (h : Neat Anywhere text face) (hhead : text.head? ≠ some '"') :
    Neat Anywhere (name ++ ('<' :: text ++ ['>'])) (nameFace ++ ['<', '>']) := by
  intro stack last _ hjoin
  have hjoin' : Joins last name := by
    intro hquote
    exact hjoin (by rw [List.head?_append, hquote]; rfl)
  obtain ⟨c, hc, hnameChar⟩ := hlast
  obtain ⟨hrun, hface⟩ := hname stack last trivial hjoin'
  rw [hc, Option.getD_some] at hrun
  have hopen : Mode.step (.code stack c) '<' = .code (.angle :: stack) '<' := by
    simp [Mode.step, codeStep, opened?, hnameChar]
  obtain ⟨hinner, hinnerFace⟩ := h (.angle :: stack) '<' trivial fun hquote => absurd hquote hhead
  have hclose : ∀ last, Mode.step (.code (.angle :: stack) last) '>' = .code stack '>' :=
    fun last => rfl
  obtain ⟨hrun', hface'⟩ :=
    run_hidden hopen rfl hinner (by simpa using hinnerFace) rfl (hclose _)
  refine ⟨?_, ?_⟩
  · rw [Mode.run_append, hrun, hrun', List.getLast?_append, List.getLast?_concat]
    rfl
  · rw [Mode.surface_append, hrun, hface, hface']
    split <;> rfl

/-! ## Literals -/

/-- A text that does not end the literal it stands in. -/
def staysIn (mark : Char) : Bool → List Char → Bool
  | escaped, [] => !escaped
  | true, _ :: rest => staysIn mark false rest
  | false, c :: rest => c != mark && staysIn mark (c == '\\') rest

theorem run_staysIn {mark : Char} {escaped : Bool} {text : List Char}
    (h : staysIn mark escaped text = true) (stack : List Bracket) :
    Mode.run (.literal mark escaped stack) text = .literal mark false stack ∧
      Mode.surface (.literal mark escaped stack) text = [] := by
  induction text generalizing escaped with
  | nil =>
    simp only [staysIn, Bool.not_eq_true'] at h
    simp [h, Mode.surface]
  | cons c rest ih =>
    cases escaped with
    | true =>
      obtain ⟨hrun, hface⟩ := ih h
      simp [Mode.step, Mode.surface, hrun, hface]
    | false =>
      simp only [staysIn, Bool.and_eq_true, bne_iff_ne] at h
      obtain ⟨hrun, hface⟩ := ih h.2
      simp [Mode.step, Mode.surface, h.1, hrun, hface]

/-- A literal between its marks. -/
theorem Neat.literal {mark : Char} (hmark : mark = '"' ∨ mark = '\'') {text : List Char}
    (h : staysIn mark false text = true) :
    Neat Anywhere (mark :: text ++ [mark]) [mark, mark] := by
  intro stack last _ hjoin
  have hopen : Mode.step (.code stack last) mark = .literal mark false stack := by
    rcases hmark with rfl | rfl
    · have hlast : last ≠ 'f' := hjoin rfl
      simp [Mode.step, codeStep, hlast]
    · simp [Mode.step, codeStep]
  obtain ⟨hrun, hface⟩ := run_staysIn h stack
  rw [List.getLast?_concat]
  exact run_hidden hopen rfl hrun hface rfl (by simp [Mode.step])

theorem staysIn_of_inside {body value : List Char} (h : Text.Inside body value) :
    staysIn '"' false body = true := by
  induction h with
  | nil => rfl
  | @plain c _ _ hquote hslash _ ih =>
    have hslash : (c == '\\') = false := beq_false_of_ne hslash
    simp [staysIn, hslash, hquote, ih]
  | escape _ _ ih => simpa [staysIn] using ih

theorem staysIn_quotedBody (s : List Char) : staysIn '"' false (Text.quotedBody s) = true :=
  staysIn_of_inside (Text.inside_quotedBody s)

theorem Neat.quote (s : String) : Neat Anywhere (Text.quote s).toList ['"', '"'] := by
  rw [Text.toList_quote]
  exact .literal (.inl rfl) (staysIn_quotedBody _)

/-! ## Format strings -/

/-- A text that leaves a format string as it is. -/
def InFormat (text : List Char) : Prop :=
  ∀ stack, Mode.run (.format false stack) text = .format false stack ∧
    Mode.surface (.format false stack) text = []

namespace InFormat

variable {text more face : List Char}

theorem nil : InFormat [] := fun _ => ⟨rfl, rfl⟩

theorem append (h : InFormat text) (h' : InFormat more) : InFormat (text ++ more) := by
  intro stack
  obtain ⟨hrun, hface⟩ := h stack
  obtain ⟨hrun', hface'⟩ := h' stack
  simp [hrun, hrun', Mode.surface_append, hface, hface']

/-- After an opening brace, all but another brace is read as code. -/
theorem run_brace (stack : List Bracket) (hne : text ≠ []) (hbrace : text.head? ≠ some '\x7b') :
    Mode.run (.brace stack) text = Mode.run (.code (.field :: stack) '\x7b') text ∧
      Mode.surface (.brace stack) text = Mode.surface (.code (.field :: stack) '\x7b') text := by
  obtain ⟨c, rest, rfl⟩ := List.exists_cons_of_ne_nil hne
  have hc : c ≠ '\x7b' := by simpa using hbrace
  have hstep : Mode.step (.brace stack) c = Mode.step (.code (.field :: stack) '\x7b') c := by
    simp [Mode.step, hc]
  simp [hstep, Mode.surface]

/-- Code between braces, unless it starts with a brace itself. -/
theorem field (h : Neat AroundCode text face) (hne : text ≠ [])
    (hbrace : text.head? ≠ some '\x7b') : InFormat ('\x7b' :: text ++ ['\x7d']) := by
  intro stack
  have hopen : Mode.step (.format false stack) '\x7b' = .brace stack := by simp [Mode.step]
  have hclose : ∀ last, Mode.step (.code (.field :: stack) last) '\x7d' = .format false stack :=
    fun last => rfl
  obtain ⟨hrun, hface⟩ := h (.field :: stack) '\x7b' (by simp [AroundCode]) fun _ => by decide
  obtain ⟨hbraceRun, hbraceFace⟩ := run_brace stack hne hbrace
  refine ⟨?_, ?_⟩
  · rw [List.cons_append, Mode.run_cons, hopen, Mode.run_append, hbraceRun, hrun, Mode.run_cons,
      hclose, Mode.run_nil]
  · rw [List.cons_append, Mode.surface, hopen, Mode.surface_append, hbraceFace, hbraceRun, hface,
      hrun]
    simp [Mode.surface, hclose]

/-- A character as it stands in a format string. -/
def char (c : Char) : List Char :=
  (Text.quotedChar c).flatMap fun c => if c = '\x7b' || c = '\x7d' then [c, c] else [c]

/-- A character is written as an escape, or, if it is a brace, twice, or else as itself. -/
theorem char_cases (c : Char) :
    (∃ letter, Text.unescaped? letter = some c ∧ char c = ['\\', letter]) ∨
      (c = '\x7b' ∨ c = '\x7d') ∧ char c = [c, c] ∨
      (c ≠ '"' ∧ c ≠ '\\' ∧ Text.isLayout c = false) ∧ (c ≠ '\x7b' ∧ c ≠ '\x7d') ∧
        char c = [c] := by
  obtain ⟨letter, hletter, hwritten⟩ | ⟨hplain, hwritten⟩ := Text.quotedChar_cases c
  · -- no brace stands behind a backslash
    have hopen : letter ≠ '\x7b' := by rintro rfl; cases hletter
    have hclose : letter ≠ '\x7d' := by rintro rfl; cases hletter
    exact .inl ⟨letter, hletter, by simp [char, hwritten, hopen, hclose]⟩
  · by_cases hbrace : c = '\x7b' ∨ c = '\x7d'
    · exact .inr (.inl ⟨hbrace, by simp [char, hwritten, hbrace]⟩)
    · have hbraces := not_or.1 hbrace
      exact .inr (.inr ⟨hplain, hbraces, by simp [char, hwritten, hbraces]⟩)

theorem text_char (c : Char) : InFormat (char c) := by
  intro stack
  obtain ⟨letter, -, hwritten⟩ | ⟨rfl | rfl, hwritten⟩ | ⟨⟨hquote, hslash, -⟩, hbrace, hwritten⟩ :=
    char_cases c
  · simp [hwritten, Mode.step, Mode.surface]
  · simp [hwritten, Mode.step, Mode.surface]
  · simp [hwritten, Mode.step, Mode.surface]
  · have hslash : (c == '\\') = false := beq_false_of_ne hslash
    have hstep : Mode.step (.format false stack) c = .format false stack := by
      simp [Mode.step, hquote, hbrace, hslash]
    simp [hwritten, hstep, Mode.surface]

theorem toList_formatText (value : String) :
    (Python.formatText value).toList = value.toList.flatMap char := by
  rw [Python.formatText, String.toList_ofList, Text.quotedBody, List.flatMap_assoc]
  rfl

end InFormat

/-- A format string. -/
theorem Neat.format {text : List Char} (h : InFormat text) :
    Neat Anywhere ('f' :: '"' :: text ++ ['"']) ['f', '"', '"'] := by
  intro stack last _ _
  have hletter : Mode.step (.code stack last) 'f' = .code stack 'f' :=
    step_plain (by decide) stack last
  have hopen : Mode.step (.code stack 'f') '"' = .format false stack := by
    simp [Mode.step, codeStep]
  obtain ⟨hrun, hface⟩ := h stack
  have hclose : Mode.step (.format false stack) '"' = .code stack '"' := rfl
  obtain ⟨hrun', hface'⟩ := run_hidden hopen rfl hrun hface rfl hclose
  refine ⟨?_, ?_⟩
  · rw [List.getLast?_concat, List.cons_append, Mode.run_cons, hletter, hrun']
    rfl
  · rw [List.cons_append, Mode.surface, hletter, hface']
    cases stack with
    | nil => simp
    | cons top rest => simp

end Interlingua.Surface
