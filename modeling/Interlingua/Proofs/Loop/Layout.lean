import Interlingua.Proofs.Loop.Script
import Interlingua.Proofs.Reading
import Interlingua.Proofs.Text.Lines

/-!
# Reading scripts

A script is written line by line, each suite deeper than its header, and read by indentation.

* `Head` — what stands on a line; `Head.text` and `Head.read?` write it and read it back.
* `Step.linesAll` — the lines of a script, each with its column.
* `Script.steps`, `Script.suite`, `Script.rest` — the reader.  A suite is what is deeper than its
  header; its first line decides on its column.  `Script.steps_eq` and its kin say what each of
  them does.
* `Script.read?_written` — what is written is read back.
-/

namespace Interlingua

/-! ## Lines -/

/-- What stands on a line. -/
inductive Head where
  | call (call : Call)
  | choose (guard : Guard)
  | alternative (guard : Guard)
  | otherwise
  | loop (guard : Guard)
  | pass
  | leave
  | next
  | ret (value : Option Call)
  deriving DecidableEq

def Guard.text : Guard → String
  | .always => "True"
  | .holds call => call.text
  | .fails call => "not " ++ call.text

def Head.text : Head → String
  | .call made => made.text
  | .choose guard => "if " ++ guard.text ++ ":"
  | .alternative guard => "elif " ++ guard.text ++ ":"
  | .otherwise => "else:"
  | .loop guard => "while " ++ guard.text ++ ":"
  | .pass => "pass"
  | .leave => "break"
  | .next => "continue"
  | .ret none => "return"
  | .ret (some made) => "return " ++ made.text

/-- The call that a text is. -/
def Call.read? (text : List Char) : Option Call :=
  if h : Script.isCall text = true then
    some ⟨String.ofList text, by rwa [String.toList_ofList]⟩
  else none

/-- The guard that a text is. -/
def Guard.read? (text : List Char) : Option Guard :=
  if text = "True".toList then some .always
  else
    match Script.word text, Script.afterWord text with
    | "not", ' ' :: rest => (Call.read? rest).map .fails
    | _, _ => (Call.read? text).map .holds

/-- The guard that a text is before the colon at its end. -/
def Guard.readHeader? (text : List Char) : Option Guard :=
  if text.getLast? = some ':' then Guard.read? text.dropLast else none

/-- What a line is that starts with a reserved word. -/
def Head.readReserved? : String → List Char → Option Head
  | "if", ' ' :: rest => (Guard.readHeader? rest).map .choose
  | "elif", ' ' :: rest => (Guard.readHeader? rest).map .alternative
  | "else", [':'] => some .otherwise
  | "while", ' ' :: rest => (Guard.readHeader? rest).map .loop
  | "pass", [] => some .pass
  | "break", [] => some .leave
  | "continue", [] => some .next
  | "return", [] => some (.ret none)
  | "return", ' ' :: rest => (Call.read? rest).map fun made => .ret (some made)
  | _, _ => none

/-- What a text is on a line of its own. -/
def Head.read? (text : List Char) : Option Head :=
  if Script.reserved.contains (Script.word text) then
    Head.readReserved? (Script.word text) (Script.afterWord text)
  else (Call.read? text).map .call

/-- A line: the column where it starts, and what stands there. -/
abbrev Line := Nat × Head

def Line.text (line : Line) : List Char := List.replicate line.1 ' ' ++ line.2.text.toList

def Line.read? (text : List Char) : Option Line :=
  (Head.read? (text.dropWhile (· == ' '))).map fun head =>
    ((text.takeWhile (· == ' ')).length, head)

mutual
/-- The lines of a statement at a column, with suites deeper by a width. -/
def Step.lines (width column : Nat) : Step → List Line
  | .call made => [(column, .call made)]
  | .choose guard body rest =>
    (column, .choose guard) :: (Step.linesAll width (column + width) body ++
      rest.lines width column)
  | .loop guard body => (column, .loop guard) :: Step.linesAll width (column + width) body
  | .pass => [(column, .pass)]
  | .leave => [(column, .leave)]
  | .next => [(column, .next)]
  | .ret value => [(column, .ret value)]

/-- The lines of what follows the first suite of a choice. -/
def Rest.lines (width column : Nat) : Rest → List Line
  | .nothing => []
  | .otherwise body => (column, .otherwise) :: Step.linesAll width (column + width) body
  | .choose guard body rest =>
    (column, .alternative guard) :: (Step.linesAll width (column + width) body ++
      rest.lines width column)

/-- The lines of a script. -/
def Step.linesAll (width column : Nat) : List Step → List Line
  | [] => []
  | step :: steps => step.lines width column ++ Step.linesAll width column steps
end

/-! ## The reader -/

namespace Script

mutual
/-- Reads statements that start at a column, up to a line that starts before it. -/
def readSteps (column : Nat) (lines : List Line) :
    Option (List Step × Reading.NoMore lines) :=
  match lines with
  | [] => some ([], ⟨[], Nat.le_refl _⟩)
  | (found, head) :: below =>
    if found < column then some ([], ⟨(found, head) :: below, Nat.le_refl _⟩)
    else if found = column then do
      let (first, ⟨rest, hrest⟩) ← readStep column head below
      let (others, ⟨later, hlater⟩) ← readSteps column rest
      some (first :: others, ⟨later, by rw [List.length_cons]; omega⟩)
    else none
termination_by 3 * lines.length

/-- Reads a statement, given its first line and those after it. -/
def readStep (column : Nat) (head : Head) (lines : List Line) :
    Option (Step × Reading.NoMore lines) :=
  match head with
  | .call made => some (.call made, ⟨lines, Nat.le_refl _⟩)
  | .choose guard => do
    let (body, ⟨rest, hrest⟩) ← readSuite column lines
    let (others, ⟨later, hlater⟩) ← readRest column rest
    some (.choose guard body others, ⟨later, by omega⟩)
  | .loop guard => do
    let (body, rest) ← readSuite column lines
    some (.loop guard body, rest)
  | .pass => some (.pass, ⟨lines, Nat.le_refl _⟩)
  | .leave => some (.leave, ⟨lines, Nat.le_refl _⟩)
  | .next => some (.next, ⟨lines, Nat.le_refl _⟩)
  | .ret value => some (.ret value, ⟨lines, Nat.le_refl _⟩)
  | .alternative _ | .otherwise => none
termination_by 3 * lines.length + 2

/-- Reads the suite of a header at a column: what is deeper. -/
def readSuite (column : Nat) (lines : List Line) : Option (List Step × Reading.NoMore lines) :=
  match lines with
  | [] => none
  | (found, head) :: below =>
    if column < found then readSteps found ((found, head) :: below) else none
termination_by 3 * lines.length + 1

/-- Reads what follows the first suite of a choice. -/
def readRest (column : Nat) (lines : List Line) : Option (Rest × Reading.NoMore lines) :=
  match lines with
  | (found, .alternative guard) :: below =>
    if found = column then do
      let (body, ⟨rest, hrest⟩) ← readSuite column below
      let (others, ⟨later, hlater⟩) ← readRest column rest
      some (.choose guard body others, ⟨later, by rw [List.length_cons]; omega⟩)
    else some (.nothing, ⟨(found, .alternative guard) :: below, Nat.le_refl _⟩)
  | (found, .otherwise) :: below =>
    if found = column then do
      let (body, ⟨rest, hrest⟩) ← readSuite column below
      some (.otherwise body, ⟨rest, by rw [List.length_cons]; omega⟩)
    else some (.nothing, ⟨(found, .otherwise) :: below, Nat.le_refl _⟩)
  | other => some (.nothing, ⟨other, Nat.le_refl _⟩)
termination_by 3 * lines.length + 1
end

/-! The results without their bounds, and the equations that define the reader in terms of them. -/

def steps (column : Nat) (lines : List Line) : Option (List Step × List Line) :=
  Reading.plain (readSteps column lines)

def step (column : Nat) (head : Head) (lines : List Line) : Option (Step × List Line) :=
  Reading.plain (readStep column head lines)

def suite (column : Nat) (lines : List Line) : Option (List Step × List Line) :=
  Reading.plain (readSuite column lines)

def rest (column : Nat) (lines : List Line) : Option (Rest × List Line) :=
  Reading.plain (readRest column lines)

theorem steps_eq (column : Nat) (lines : List Line) :
    steps column lines =
      match lines with
      | [] => some ([], [])
      | (found, head) :: below =>
        if found < column then some ([], lines)
        else if found = column then
          (step column head below).bind fun (first, lines) =>
            (steps column lines).bind fun (others, lines) => some (first :: others, lines)
        else none := by
  rw [steps, readSteps.eq_def]
  split
  · rfl
  · split
    · rfl
    · split
      · refine Reading.plain_bind fun first lines => ?_
        exact Reading.plain_bind fun others lines => rfl
      · rfl

theorem step_eq (column : Nat) (head : Head) (lines : List Line) :
    step column head lines =
      match head with
      | .call made => some (.call made, lines)
      | .choose guard => (suite column lines).bind fun (body, lines) =>
        (rest column lines).bind fun (others, lines) => some (.choose guard body others, lines)
      | .loop guard => (suite column lines).bind fun (body, lines) =>
        some (.loop guard body, lines)
      | .pass => some (.pass, lines)
      | .leave => some (.leave, lines)
      | .next => some (.next, lines)
      | .ret value => some (.ret value, lines)
      | .alternative _ | .otherwise => none := by
  rw [step, readStep.eq_def]
  cases head with
  | choose guard =>
    refine Reading.plain_bind fun body lines => ?_
    exact Reading.plain_bind fun others lines => rfl
  | loop guard => exact Reading.plain_bind fun body lines => rfl
  | _ => rfl

theorem suite_eq (column : Nat) (lines : List Line) :
    suite column lines =
      match lines with
      | [] => none
      | (found, _) :: _ => if column < found then steps found lines else none := by
  rw [suite, readSuite.eq_def]
  split
  · rfl
  · split <;> rfl

theorem rest_eq (column : Nat) (lines : List Line) :
    rest column lines =
      match lines with
      | (found, .alternative guard) :: below =>
        if found = column then
          (suite column below).bind fun (body, lines) =>
            (rest column lines).bind fun (others, lines) => some (.choose guard body others, lines)
        else some (.nothing, lines)
      | (found, .otherwise) :: below =>
        if found = column then
          (suite column below).bind fun (body, lines) => some (.otherwise body, lines)
        else some (.nothing, lines)
      | _ => some (.nothing, lines) := by
  rw [rest, readRest.eq_def]
  split
  · split
    · refine Reading.plain_bind fun body lines => ?_
      exact Reading.plain_bind fun others lines => rfl
    · rfl
  · split
    · exact Reading.plain_bind fun body lines => rfl
    · rfl
  · rfl

/-- Reads a whole script. -/
def read? (text : String) : Option (List Step) := do
  let lines ← (Text.lines text.toList).mapM Line.read?
  let (script, later) ← steps 0 lines
  if later.isEmpty then some script else none

end Script

/-! ## Lines are read back -/

namespace Script

/-- A word ends where a character ends it, or with the text. -/
theorem word_append (name : String) (rest : List Char)
    (hname : name.toList.all (fun c => !endsWord c) = true)
    (hrest : ∀ c ∈ rest.head?, endsWord c = true) :
    word (name.toList ++ rest) = name ∧ afterWord (name.toList ++ rest) = rest := by
  have hall : ∀ c ∈ name.toList, (!endsWord c) = true := by simpa using hname
  unfold word afterWord
  rw [List.takeWhile_append_of_pos hall, List.dropWhile_append_of_pos hall]
  cases rest with
  | nil => simp
  | cons c rest =>
    have hc := hrest c rfl
    simp [hc]

end Script

namespace Call

theorem isReserved_word (call : Call) :
    Script.reserved.contains (Script.word call.text.toList) = false := by
  have h := call.isCall
  simp only [Script.isCall, Bool.and_eq_true] at h
  simpa using h.1.1.1.2

theorem word_ne (call : Call) {name : String} (h : name ∈ Script.reserved) :
    Script.word call.text.toList ≠ name := by
  intro heq
  have := call.isReserved_word
  rw [heq] at this
  simp [h] at this

theorem read?_text (call : Call) : read? call.text.toList = some call := by
  rw [read?, dif_pos call.isCall]
  cases call
  simp

end Call

theorem Guard.read?_text (guard : Guard) : Guard.read? guard.text.toList = some guard := by
  cases guard with
  | always => rfl
  | holds made =>
    have hne : made.text.toList ≠ "True".toList := by
      intro heq
      exact made.word_ne (show "True" ∈ Script.reserved by decide) (by rw [heq]; rfl)
    rw [text, read?, if_neg hne]
    split
    · rename_i heq _
      exact absurd heq (made.word_ne (by decide))
    · rw [made.read?_text]
      rfl
  | fails made =>
    have htext : (text (.fails made)).toList = "not".toList ++ ' ' :: made.text.toList := by
      simp [text]
    obtain ⟨hword, hafter⟩ := Script.word_append "not" (' ' :: made.text.toList) (by decide)
      (by simp [Script.endsWord])
    rw [htext, read?, if_neg (by simp), hword, hafter]
    simp [made.read?_text]

/-- Where a header ends. -/
theorem Guard.readHeader?_text (guard : Guard) :
    Guard.readHeader? (guard.text.toList ++ [':']) = some guard := by
  rw [readHeader?, if_pos (by simp), List.dropLast_concat, read?_text]

theorem Head.read?_reserved {name : String} (rest : List Char) (hmem : name ∈ Script.reserved)
    (hrest : ∀ c ∈ rest.head?, Script.endsWord c = true) :
    Head.read? (name.toList ++ rest) = Head.readReserved? name rest := by
  have hname : name.toList.all (fun c => !Script.endsWord c) = true :=
    List.all_eq_true.1 (show Script.reserved.all
      (fun name => name.toList.all fun c => !Script.endsWord c) = true from rfl) name hmem
  obtain ⟨hword, hafter⟩ := Script.word_append name rest hname hrest
  rw [read?, hword, hafter, if_pos (by simpa using hmem)]

theorem Head.read?_text (head : Head) : Head.read? head.text.toList = some head := by
  -- a line of a reserved word, a blank and something else
  have hblank : ∀ {name : String} {rest : List Char}, name ∈ Script.reserved →
      Head.read? (name.toList ++ ' ' :: rest) = Head.readReserved? name (' ' :: rest) :=
    fun hmem => read?_reserved _ hmem (by simp [Script.endsWord])
  -- a line of nothing but a reserved word
  have halone : ∀ {name : String}, name ∈ Script.reserved →
      Head.read? name.toList = Head.readReserved? name [] := by
    intro name hmem
    have h := read?_reserved [] hmem (by simp)
    rwa [List.append_nil] at h
  cases head with
  | call made =>
    rw [text, read?, if_neg (by rw [made.isReserved_word]; simp), made.read?_text]
    rfl
  | choose guard =>
    rw [show (text (.choose guard)).toList = "if".toList ++ ' ' :: (guard.text.toList ++ [':']) by
      simp [text], hblank (by decide)]
    simp [readReserved?, guard.readHeader?_text]
  | alternative guard =>
    rw [show (text (.alternative guard)).toList =
      "elif".toList ++ ' ' :: (guard.text.toList ++ [':']) by simp [text], hblank (by decide)]
    simp [readReserved?, guard.readHeader?_text]
  | loop guard =>
    rw [show (text (.loop guard)).toList = "while".toList ++ ' ' :: (guard.text.toList ++ [':']) by
      simp [text], hblank (by decide)]
    simp [readReserved?, guard.readHeader?_text]
  | otherwise =>
    rw [show (text .otherwise).toList = "else".toList ++ [':'] by decide,
      read?_reserved _ (by decide) (by simp [Script.endsWord])]
    rfl
  | pass | leave | next => exact halone (by decide)
  | ret value =>
    cases value with
    | none => exact halone (by decide)
    | some made =>
      rw [show (text (.ret (some made))).toList = "return".toList ++ ' ' :: made.text.toList by
        simp [text], hblank (by decide)]
      simp [readReserved?, made.read?_text]

/-- A text that may stand on a line: it has no line end in it and starts with no blank. -/
structure Script.Single (text : List Char) : Prop where
  nonempty : text ≠ []
  newline : '\n' ∉ text
  last : text.getLast? ≠ some '\r'
  first : text.head? ≠ some ' '

theorem Script.Single.append {first rest : List Char} (h : Single first) (hrest : '\n' ∉ rest)
    (hlast : rest.getLast? ≠ some '\r') : Single (first ++ rest) := by
  refine ⟨by simp [h.nonempty], by simp [h.newline, hrest], ?_, ?_⟩
  · rw [List.getLast?_append]
    cases hr : rest.getLast? with
    | none => simpa using h.last
    | some c => simpa [hr] using hlast
  · rw [List.head?_append]
    obtain ⟨c, more, hfirst⟩ := List.exists_cons_of_ne_nil h.nonempty
    simpa [hfirst] using h.first

theorem Call.single (call : Call) : Script.Single call.text.toList := by
  have h := call.isCall
  simp only [Script.isCall, Bool.and_eq_true] at h
  -- a text without a name at its start is no call
  have hstart : ∀ rest, call.text.toList ≠ ' ' :: rest ∧ call.text.toList ≠ [] := by
    refine fun rest => ⟨fun htext => ?_, fun htext => ?_⟩
    · rw [htext] at h
      have hempty : Script.word (' ' :: rest) = "" := by simp [Script.word, Script.endsWord]
      rw [hempty] at h
      exact absurd h.1.1.1.1 (by decide)
    · rw [htext] at h
      exact absurd h.1.1.1.1 (by decide)
  refine ⟨(hstart []).2, by simpa using h.2, by simp_all, fun hfirst => ?_⟩
  obtain ⟨rest, htext⟩ := List.head?_eq_some_iff.1 hfirst
  exact (hstart rest).1 htext

theorem Guard.newline_not_mem (guard : Guard) : '\n' ∉ guard.text.toList := by
  cases guard with
  | always => decide
  | holds made => exact made.single.newline
  | fails made => simp [text, made.single.newline]

/-- A header that starts with a word, a blank and a guard. -/
theorem Script.Single.header {name : String} (h : Single name.toList) (guard : Guard) :
    Single (name ++ guard.text ++ ":").toList := by
  rw [String.toList_append, String.toList_append, List.append_assoc]
  exact h.append (by simp [guard.newline_not_mem]) (by simp)

theorem Head.single (head : Head) : Script.Single head.text.toList := by
  cases head with
  | call made => exact made.single
  | choose guard | alternative guard | loop guard =>
    exact Script.Single.header ⟨by decide, by decide, by decide, by decide⟩ guard
  | otherwise | pass | leave | next => exact ⟨by decide, by decide, by decide, by decide⟩
  | ret value =>
    cases value with
    | none => exact ⟨by decide, by decide, by decide, by decide⟩
    | some made =>
      have hword : Script.Single "return ".toList := ⟨by decide, by decide, by decide, by decide⟩
      rw [text, String.toList_append]
      exact hword.append made.single.newline made.single.last

theorem Line.read?_text (line : Line) : Line.read? line.text = some line := by
  have hall : ∀ c ∈ List.replicate line.1 ' ', (c == ' ') = true := by simp
  obtain ⟨c, rest, htext⟩ := List.exists_cons_of_ne_nil line.2.single.nonempty
  have hc : (c == ' ') = false := by
    have h := line.2.single.first
    rw [htext] at h
    simpa using h
  unfold Line.read? Line.text
  rw [List.dropWhile_append_of_pos hall, List.takeWhile_append_of_pos hall, htext,
    List.dropWhile_cons, List.takeWhile_cons, hc, ← htext]
  simp [line.2.read?_text]

/-- The text of lines. -/
def Line.textAll (lines : List Line) : List Char := lines.flatMap fun line => line.text ++ ['\n']

theorem Line.lines_textAll (lines : List Line) : Text.lines (textAll lines) = lines.map text := by
  induction lines with
  | nil => rfl
  | cons line lines ih =>
    have hsingle : '\n' ∉ line.text ∧ line.text.getLast? ≠ some '\r' := by
      have h := line.2.single
      refine ⟨by simp [Line.text, h.newline], ?_⟩
      rw [Line.text, List.getLast?_append]
      obtain ⟨c, hlast⟩ := List.getLast?_isSome.2 h.nonempty |> Option.isSome_iff_exists.1
      simpa [hlast] using h.last
    rw [textAll, List.flatMap_cons, List.append_assoc, List.singleton_append,
      Text.lines_append hsingle.1 hsingle.2, ← textAll, ih, List.map_cons]

/-! ## Scripts are read back -/

mutual
/-- Whether no suite is empty. -/
def Step.isFull : Step → Bool
  | .choose _ body rest => !body.isEmpty && Step.allFull body && rest.isFull
  | .loop _ body => !body.isEmpty && Step.allFull body
  | .call _ | .pass | .leave | .next | .ret _ => true

/-- The same of what follows the first suite of a choice. -/
def Rest.isFull : Rest → Bool
  | .nothing => true
  | .otherwise body => !body.isEmpty && Step.allFull body
  | .choose _ body rest => !body.isEmpty && Step.allFull body && rest.isFull

/-- The same of a script. -/
def Step.allFull : List Step → Bool
  | [] => true
  | step :: steps => step.isFull && Step.allFull steps
end

/-- Whether a line goes on with the choice before it. -/
def Head.goesOn : Head → Bool
  | .alternative _ | .otherwise => true
  | _ => false

namespace Script

variable {width column : Nat} {later : List Line}

/-- What comes next is no part of a statement at a column. -/
def Ended (column : Nat) (later : List Line) : Prop :=
  ∀ line ∈ later.head?, line.1 < column ∨ line.1 = column ∧ line.2.goesOn = false

theorem Ended.le (h : Ended column later) : ∀ line ∈ later.head?, line.1 ≤ column := by
  intro line hline
  rcases h line hline with hlt | ⟨heq, -⟩ <;> omega

theorem ended_of_lt (h : ∀ line ∈ later.head?, line.1 < column) : Ended column later :=
  fun line hline => .inl (h line hline)

/-- The first line of a statement. -/
theorem exists_lines_cons (width column : Nat) (step : Step) :
    ∃ head below, step.lines width column = (column, head) :: below ∧ head.goesOn = false := by
  cases step <;> rw [Step.lines] <;> exact ⟨_, _, rfl, rfl⟩

theorem exists_linesAll_cons (width column : Nat) {script : List Step} (hne : script ≠ []) :
    ∃ head below, Step.linesAll width column script = (column, head) :: below ∧
      head.goesOn = false := by
  obtain ⟨step, steps, rfl⟩ := List.exists_cons_of_ne_nil hne
  obtain ⟨head, below, hlines, hhead⟩ := exists_lines_cons width column step
  exact ⟨head, below ++ Step.linesAll width column steps, by simp [Step.linesAll, hlines], hhead⟩

/-- The lines after a statement are those of another one, or start before it. -/
theorem ended_linesAll (script : List Step) (h : ∀ line ∈ later.head?, line.1 < column) :
    Ended column (Step.linesAll width column script ++ later) := by
  by_cases hne : script = []
  · subst hne
    exact ended_of_lt h
  · obtain ⟨head, below, hlines, hhead⟩ := exists_linesAll_cons width column hne
    intro line hline
    rw [hlines] at hline
    cases hline
    exact .inr ⟨rfl, hhead⟩

theorem steps_nil (h : ∀ line ∈ later.head?, line.1 < column) :
    steps column later = some ([], later) := by
  rw [steps_eq]
  cases later with
  | nil => rfl
  | cons line below => simp [h line rfl]

/-- A suite is read by its own column. -/
theorem suite_lines {body : List Step} (hwidth : 0 < width) (hne : body ≠ [])
    (h : steps (column + width) (Step.linesAll width (column + width) body ++ later) =
      some (body, later)) :
    suite column (Step.linesAll width (column + width) body ++ later) = some (body, later) := by
  obtain ⟨head, below, hlines, -⟩ := exists_linesAll_cons width (column + width) hne
  rw [hlines, List.cons_append] at h ⊢
  rw [suite_eq]
  simp only
  rw [if_pos (by omega), h]

theorem rest_ended (h : Ended column later) : rest column later = some (.nothing, later) := by
  rw [rest_eq]
  split
  · rename_i found guard below
    rcases h _ rfl with hlt | ⟨-, hhead⟩
    · rw [if_neg (by simp only at hlt; omega)]
    · cases hhead
  · rename_i found below
    rcases h _ rfl with hlt | ⟨-, hhead⟩
    · rw [if_neg (by simp only at hlt; omega)]
    · cases hhead
  · rfl

mutual
/-- A statement is read from its lines, whatever comes after it that is no part of it. -/
theorem step_lines (hwidth : 0 < width) : ∀ (first : Step) (column : Nat) (later : List Line),
    first.isFull = true → Ended column later →
    ∃ head below, first.lines width column ++ later = (column, head) :: below ∧
      step column head below = some (first, later)
  | .call _, column, later, _, _ | .pass, column, later, _, _ | .leave, column, later, _, _
  | .next, column, later, _, _ | .ret _, column, later, _, _ => by
    rw [Step.lines]
    refine ⟨_, later, rfl, ?_⟩
    rw [step_eq]
  | .loop guard body, column, later, hfull, hended => by
    simp only [Step.isFull, Bool.and_eq_true] at hfull
    have hbody := steps_lines hwidth body (column + width) later hfull.2 fun line hline => by
      have := hended.le line hline
      omega
    have hsuite := suite_lines hwidth (by simpa using hfull.1) hbody
    refine ⟨_, _, by rw [Step.lines, List.cons_append], ?_⟩
    rw [step_eq]
    simp [hsuite]
  | .choose guard body others, column, later, hfull, hended => by
    simp only [Step.isFull, Bool.and_eq_true] at hfull
    obtain ⟨hle, hothers⟩ := rest_lines hwidth others column later hfull.2 hended
    have hbody := steps_lines hwidth body (column + width) (others.lines width column ++ later)
      hfull.1.2 fun line hline => by
        have := hle line hline
        omega
    have hsuite := suite_lines hwidth (by simpa using hfull.1.1) hbody
    refine ⟨_, _, by rw [Step.lines, List.cons_append, List.append_assoc], ?_⟩
    rw [step_eq]
    simp [hsuite, hothers]

/-- What follows the first suite of a choice starts at the column of the choice or before it, and
is read from its lines. -/
theorem rest_lines (hwidth : 0 < width) : ∀ (others : Rest) (column : Nat) (later : List Line),
    others.isFull = true → Ended column later →
    (∀ line ∈ (others.lines width column ++ later).head?, line.1 ≤ column) ∧
      rest column (others.lines width column ++ later) = some (others, later)
  | .nothing, column, later, _, hended => by
    rw [Rest.lines, List.nil_append]
    exact ⟨hended.le, rest_ended hended⟩
  | .otherwise body, column, later, hfull, hended => by
    simp only [Rest.isFull, Bool.and_eq_true] at hfull
    have hbody := steps_lines hwidth body (column + width) later hfull.2 fun line hline => by
      have := hended.le line hline
      omega
    have hsuite := suite_lines hwidth (by simpa using hfull.1) hbody
    rw [Rest.lines, List.cons_append]
    refine ⟨by simp, ?_⟩
    rw [rest_eq]
    simp [hsuite]
  | .choose guard body others, column, later, hfull, hended => by
    simp only [Rest.isFull, Bool.and_eq_true] at hfull
    obtain ⟨hle, hothers⟩ := rest_lines hwidth others column later hfull.2 hended
    have hbody := steps_lines hwidth body (column + width) (others.lines width column ++ later)
      hfull.1.2 fun line hline => by
        have := hle line hline
        omega
    have hsuite := suite_lines hwidth (by simpa using hfull.1.1) hbody
    rw [Rest.lines, List.cons_append, List.append_assoc]
    refine ⟨by simp, ?_⟩
    rw [rest_eq]
    simp [hsuite, hothers]

/-- A script is read from its lines, up to a line that starts before it. -/
theorem steps_lines (hwidth : 0 < width) : ∀ (script : List Step) (column : Nat) (later : List Line),
    Step.allFull script = true → (∀ line ∈ later.head?, line.1 < column) →
    steps column (Step.linesAll width column script ++ later) = some (script, later)
  | [], column, later, _, hover => by
    rw [Step.linesAll, List.nil_append]
    exact steps_nil hover
  | first :: others, column, later, hfull, hover => by
    simp only [Step.allFull, Bool.and_eq_true] at hfull
    obtain ⟨head, below, hlines, hstep⟩ := step_lines hwidth first column
      (Step.linesAll width column others ++ later) hfull.1 (ended_linesAll others hover)
    have hothers := steps_lines hwidth others column later hfull.2 hover
    rw [Step.linesAll, List.append_assoc, hlines, steps_eq]
    simp [hstep, hothers]
end

/-- A text is read by its lines, whether or not its last line is ended. -/
theorem read?_of_lines {script : List Step} {text : String} (hwidth : 0 < width)
    (hfull : Step.allFull script = true)
    (htext : Text.lines text.toList = (Step.linesAll width 0 script).map Line.text) :
    read? text = some script := by
  have hlines : ((Step.linesAll width 0 script).map Line.text).mapM Line.read? =
      some (Step.linesAll width 0 script) := by
    generalize Step.linesAll width 0 script = lines
    induction lines with
    | nil => rfl
    | cons line lines ih =>
      rw [List.map_cons, List.mapM_cons, Line.read?_text, ih]
      rfl
  have hsteps := steps_lines hwidth script 0 [] hfull (by simp)
  rw [List.append_nil] at hsteps
  unfold read?
  rw [htext, hlines]
  simp [hsteps]

/-- **What is written is read back.** -/
theorem read?_written {script : List Step} (hwidth : 0 < width) (hfull : Step.allFull script = true) :
    read? (String.ofList (Line.textAll (Step.linesAll width 0 script))) = some script := by
  refine read?_of_lines hwidth hfull ?_
  rw [String.toList_ofList, Line.lines_textAll]

/-- A call is read back without an end of its line, too. -/
theorem read?_call (made : Call) : read? made.text = some [.call made] := by
  refine read?_of_lines Nat.one_pos rfl ?_
  rw [Text.lines_of_not_mem made.single.nonempty made.single.newline]
  simp [Step.linesAll, Step.lines, Line.text, Head.text]

end Script

end Interlingua
