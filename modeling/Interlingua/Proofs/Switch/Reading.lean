import Interlingua.Proofs.Switch.Code
import Interlingua.Text.Numeral

/-!
# Reading printed switches

* `Mark.Spelled`, `Written` — the texts that a mark can be on a line, and the text of a switch.
* `read?` — reads a switch off its text, given how its subject is written.
* `read?_of_written` — what is written is read back, if every call stands on one line.
* `execute?` — what the text of a switch does for a value of its subject.
-/

namespace Interlingua.Switch

/-! ## Texts -/

/-- How a label is written. -/
def labelText (lang : Language) : Option (List Int) → String
  | none => if lang = .python then "case _:" else "default:"
  | some values => "case " ++ " | ".intercalate (values.map Text.numeral) ++ ":"

/-- How a call on a line of its own is written. -/
def callText (lang : Language) (text : String) : String :=
  if lang = .python then text else text ++ ";"

/-- What a switch starts with. -/
def leadText (lang : Language) (subject : String) : String :=
  if lang = .python then "match " ++ subject ++ ":" else "switch (" ++ subject ++ ")"

/-- A text on a line is a mark. -/
inductive Mark.Spelled (lang : Language) : Mark → String → Prop
  | label {values : Option (List Int)} (hvalues : values ≠ some []) :
      Spelled lang (.label values) (labelText lang values)
  | openLabel {values : Option (List Int)} (hvalues : values ≠ some []) (hlang : lang ≠ .python) :
      Spelled lang (.label values) (labelText lang values ++ " \x7b")
  | call (text : String) : Spelled lang (.call text) (callText lang text)
  | leave (hlang : lang ≠ .python) : Spelled lang .leave "break;"
  | nothing : Spelled lang .idle ""
  | pass (hlang : lang = .python) : Spelled lang .idle "pass"
  | opening (hlang : lang ≠ .python) : Spelled lang .idle "\x7b"
  | closing (hlang : lang ≠ .python) : Spelled lang .idle "\x7d"

/-- Blanks. -/
def blanks (count : Nat) : String := String.ofList (List.replicate count ' ')

/-- A line is a mark after some blanks. -/
def Mark.StandsOn (lang : Language) (mark : Mark) (line : String) : Prop :=
  ∃ count text, line = blanks count ++ text ∧ mark.Spelled lang text

/-- A text is a switch: what follows its lead, up to the end of the line, is its first mark. -/
def Written (lang : Language) (subject : String) (marks : List Mark) (text : String) : Prop :=
  ∃ margin lines, text = blanks margin ++ leadText lang subject ++
      String.join (lines.map (· ++ "\n")) ∧
    List.Forall₂ (Mark.StandsOn lang) marks lines

/-! ## Reading -/

def readNumeral? : List Char → Option Int
  | '-' :: digits => (Text.readDigits? digits).map fun n => -(n : Int)
  | digits => (Text.readDigits? digits).map fun n => (n : Int)

/-- Numbers with bars between them. -/
def readValues? (text : List Char) : Option (List Int) :=
  ((text.filter (· != ' ')).splitOn '|').mapM readNumeral?

def readLabel? (lang : Language) (text : List Char) : Option Mark :=
  if text = (labelText lang none).toList then some (.label none)
  else if "case ".toList.isPrefixOf text then
    (readValues? (text.drop 5).dropLast).map fun values => .label (some values)
  else none

/-- What stands on a line; the last character tells. -/
def Mark.read? (lang : Language) (text : List Char) : Option Mark :=
  if text = [] then some .idle
  else if text.getLast? = some ':' then readLabel? lang text
  else if lang = .python then
    if text.getLast? = some ')' then some (.call (String.ofList text))
    else if text = "pass".toList then some .idle
    else none
  else if text.getLast? = some ';' then
    if text = "break;".toList then some .leave else some (.call (String.ofList text.dropLast))
  else if text = ['\x7b'] || text = ['\x7d'] then some .idle
  else if text.getLast? = some '\x7b' then readLabel? lang (text.take (text.length - 2))
  else none

/-- Reads a switch, given how its subject is written. -/
def read? (lang : Language) (subject text : String) : Option (List Mark) :=
  let start := text.toList.dropWhile (· == ' ')
  let lead := (leadText lang subject).toList
  if lead.isPrefixOf start then
    (Text.lines (start.drop lead.length)).mapM fun line =>
      Mark.read? lang (line.dropWhile (· == ' '))
  else none

/-- What a switch does: Python matches, the other languages jump. -/
def run (lang : Language) (marks : List Mark) (subject : Int) : List String :=
  if lang = .python then Mark.matched marks subject else Mark.jumped marks subject

/-- What the text of a switch does for a value of its subject. -/
def execute? (lang : Language) (subject text : String) (value : Int) : Option (List String) :=
  (read? lang subject text).map (run lang · value)

/-- A text stands on one line, and no blank leads it. -/
structure OneLine (text : String) : Prop where
  newline : '\n' ∉ text.toList
  first : text.toList.head? ≠ some ' '

/-! ## Numbers are read back -/

theorem readNumeral?_numeralChars (n : Int) : readNumeral? (Text.numeralChars n) = some n := by
  cases n with
  | ofNat n =>
    have hdigits := Text.readDigits?_toDigits n
    rw [Text.numeralChars]
    unfold readNumeral?
    split
    · rename_i digits heq
      have hmem : '-' ∈ Nat.toDigits 10 n := by simp [heq]
      exact absurd (Text.isDigit_of_mem_digits hmem) (by decide)
    · rw [hdigits]
      rfl
  | negSucc n =>
    rw [Text.numeralChars, readNumeral?, Text.readDigits?_toDigits]
    rfl

theorem not_mem_numeralChars {c : Char} (hdigit : c.isDigit = false) (hminus : c ≠ '-') (n : Int) :
    c ∉ Text.numeralChars n := by
  intro hmem
  cases n with
  | ofNat n => simp [Text.isDigit_of_mem_digits hmem] at hdigit
  | negSucc n =>
    rcases List.mem_cons.1 hmem with rfl | hmem
    · exact hminus rfl
    · simp [Text.isDigit_of_mem_digits hmem] at hdigit

theorem not_mem_intercalate {c : Char} {between : List Char} {words : List (List Char)}
    (hbetween : c ∉ between) (h : ∀ word ∈ words, c ∉ word) : c ∉ between.intercalate words := by
  induction words with
  | nil => simp [List.intercalate]
  | cons word rest ih =>
    have hrest := ih fun word hmem => h word (by simp [hmem])
    cases rest with
    | nil => simpa [List.intercalate_singleton] using h word (by simp)
    | cons next rest =>
      rw [List.intercalate_cons_cons]
      simp [hbetween, hrest, h word (by simp)]

/-- Without the blanks, only one mark is left between words. -/
theorem filter_intercalate {between : List Char} {mark : Char}
    (hbetween : between.filter (· != ' ') = [mark]) {words : List (List Char)}
    (h : ∀ word ∈ words, ' ' ∉ word) :
    (between.intercalate words).filter (· != ' ') = [mark].intercalate words := by
  have hword : ∀ word ∈ words, word.filter (· != ' ') = word := by
    intro word hmem
    refine List.filter_eq_self.2 fun c hc => ?_
    simp only [bne_iff_ne, ne_eq]
    rintro rfl
    exact h word hmem hc
  induction words with
  | nil => rfl
  | cons word rest ih =>
    have hrest := ih (fun word hmem => h word (by simp [hmem])) fun word hmem =>
      hword word (by simp [hmem])
    cases rest with
    | nil => simpa [List.intercalate_singleton] using hword word (by simp)
    | cons next rest =>
      rw [List.intercalate_cons_cons, List.intercalate_cons_cons, List.filter_append,
        List.filter_append, hrest, hword word (by simp), hbetween]

/-- Numbers with a mark between them, and blanks around it, are read back. -/
theorem mapM_readNumeral?_splitOn {between : String} {mark : Char}
    (hbetween : between.toList.filter (· != ' ') = [mark]) (hdigit : mark.isDigit = false)
    (hminus : mark ≠ '-') {values : List Int} (h : values ≠ []) :
    (((between.intercalate (values.map Text.numeral)).toList.filter (· != ' ')).splitOn mark).mapM
      readNumeral? = some values := by
  have hwords : (values.map Text.numeral).map String.toList = values.map Text.numeralChars := by
    simp [Text.numeral, Function.comp_def]
  have hblank : ∀ word ∈ values.map Text.numeralChars, ' ' ∉ word := by
    intro word hword
    obtain ⟨n, -, rfl⟩ := List.mem_map.1 hword
    exact not_mem_numeralChars (by decide) (by decide) n
  have hmark : ∀ word ∈ values.map Text.numeralChars, mark ∉ word := by
    intro word hword
    obtain ⟨n, -, rfl⟩ := List.mem_map.1 hword
    exact not_mem_numeralChars hdigit hminus n
  rw [String.toList_intercalate, hwords, filter_intercalate hbetween hblank,
    List.splitOn_intercalate _ hmark (by simpa using h)]
  clear h hwords hblank hmark
  induction values with
  | nil => rfl
  | cons value values ih =>
    rw [List.map_cons, List.mapM_cons, readNumeral?_numeralChars, ih]
    rfl

theorem readValues?_text {values : List Int} (h : values ≠ []) :
    readValues? (" | ".intercalate (values.map Text.numeral)).toList = some values :=
  mapM_readNumeral?_splitOn (by decide) (by decide) (by decide) h

/-! ## Marks are read back -/

variable {lang : Language}

theorem toList_labelText (values : List Int) :
    (labelText lang (some values)).toList =
      "case ".toList ++ ((" | ".intercalate (values.map Text.numeral)).toList ++ [':']) := by
  rw [labelText, String.toList_append, String.toList_append, List.append_assoc]
  rfl

theorem readLabel?_labelText (lang : Language) {values : Option (List Int)} (h : values ≠ some []) :
    readLabel? lang (labelText lang values).toList = some (.label values) := by
  cases values with
  | none => simp [readLabel?]
  | some values =>
    have hvalues : values ≠ [] := fun hnil => h (by rw [hnil])
    have hread := readValues?_text hvalues
    unfold readLabel?
    rw [toList_labelText]
    generalize (" | ".intercalate (values.map Text.numeral)).toList = written at hread
    -- the wildcard is no number
    have hne : "case ".toList ++ (written ++ [':']) ≠ (labelText lang none).toList := by
      intro heq
      by_cases hpython : lang = .python
      · rw [labelText, if_pos hpython] at heq
        obtain rfl : written = ['_'] := by
          have hdrop := congrArg (fun text => (text.drop 5).dropLast) heq
          simpa using hdrop
        cases hread
      · rw [labelText, if_neg hpython] at heq
        simp at heq
    rw [if_neg hne, if_pos (by simp)]
    simp [hread]

/-- A label stands on one line. -/
theorem single_labelText (lang : Language) (values : Option (List Int)) :
    Script.Single (labelText lang values).toList ∧
      (labelText lang values).toList.getLast? = some ':' := by
  cases values with
  | none =>
    unfold labelText
    simp only
    split
    · exact ⟨⟨by decide, by decide, by decide, by decide⟩, by decide⟩
    · exact ⟨⟨by decide, by decide, by decide, by decide⟩, by decide⟩
  | some values =>
    rw [toList_labelText]
    have hnewline : '\n' ∉ (" | ".intercalate (values.map Text.numeral)).toList := by
      rw [String.toList_intercalate]
      refine not_mem_intercalate (by decide) fun word hword => ?_
      simp only [List.map_map, List.mem_map, Function.comp_apply, Text.numeral,
        String.toList_ofList] at hword
      obtain ⟨n, -, rfl⟩ := hword
      exact not_mem_numeralChars (by decide) (by decide) n
    generalize (" | ".intercalate (values.map Text.numeral)).toList = written at hnewline
    have hlast : ("case ".toList ++ (written ++ [':'])).getLast? = some ':' := by
      rw [← List.append_assoc, List.getLast?_concat]
    refine ⟨⟨by simp, ?_, by rw [hlast]; decide, by simp⟩, hlast⟩
    simp [hnewline]

/-- What a mark is written as is read as that mark. -/
theorem Mark.read?_spelled {mark : Mark} {text : String} (h : mark.Spelled lang text)
    (hcall : ∀ call, mark = .call call → call.toList.getLast? = some ')') :
    Mark.read? lang text.toList = some mark := by
  cases h with
  | @label values hvalues =>
    obtain ⟨hsingle, hlast⟩ := single_labelText lang values
    rw [read?, if_neg hsingle.nonempty, if_pos hlast, readLabel?_labelText lang hvalues]
  | @openLabel values hvalues hlang =>
    have hread := readLabel?_labelText lang hvalues
    obtain ⟨hsingle, -⟩ := single_labelText lang values
    rw [String.toList_append]
    have hne := hsingle.nonempty
    generalize (labelText lang values).toList = written at hread hne
    have hlast : (written ++ " \x7b".toList).getLast? = some '\x7b' := by simp
    have hlong : ∀ c, written ++ " \x7b".toList ≠ [c] := by
      intro c heq
      have hlength := congrArg List.length heq
      simp at hlength
    rw [read?, hlast, if_neg (by simp), if_neg (by decide), if_neg hlang, if_neg (by decide),
      if_neg (by simp only [hlong]; decide), if_pos rfl]
    simpa using hread
  | call call =>
    have hlast := hcall call rfl
    have hne : call.toList ≠ [] := by
      intro hnil
      rw [hnil] at hlast
      cases hlast
    unfold callText
    split
    · rename_i hpython
      rw [read?, if_neg hne, hlast, if_neg (by decide), if_pos hpython, if_pos rfl,
        String.ofList_toList]
    · rename_i hbraced
      have hend : (call ++ ";").toList.getLast? = some ';' := by simp [String.toList_append]
      have hbreak : (call ++ ";").toList ≠ "break;".toList := by
        intro heq
        have hdrop := congrArg List.dropLast heq
        have hcalled : call.toList = "break".toList := by simpa [String.toList_append] using hdrop
        rw [hcalled] at hlast
        cases hlast
      rw [read?, hend, if_neg (by simp), if_neg (by decide), if_neg hbraced, if_pos rfl,
        if_neg hbreak]
      simp [String.toList_append]
  | leave hlang | opening hlang | closing hlang =>
    rw [read?, if_neg (by decide), if_neg (by decide), if_neg hlang]
    rfl
  | nothing => rfl
  | pass hlang =>
    rw [read?, if_neg (by decide), if_neg (by decide), if_pos hlang]
    rfl

theorem Mark.Spelled.single {mark : Mark} {text : String} (h : mark.Spelled lang text)
    (hcall : ∀ call, mark = .call call → OneLine call ∧ call.toList.getLast? = some ')') :
    text = "" ∨ Script.Single text.toList := by
  cases h with
  | label => exact .inr (single_labelText lang _).1
  | openLabel =>
    rw [String.toList_append]
    exact .inr ((single_labelText lang _).1.append (by decide) (by decide))
  | call call =>
    obtain ⟨hline, hlast⟩ := hcall call rfl
    have hsingle : Script.Single call.toList := by
      refine ⟨fun hnil => ?_, hline.newline, by rw [hlast]; decide, hline.first⟩
      rw [hnil] at hlast
      cases hlast
    unfold callText
    split
    · exact .inr hsingle
    · rw [String.toList_append]
      exact .inr (hsingle.append (by decide) (by decide))
  | nothing => exact .inl rfl
  | leave | pass | opening | closing =>
    exact .inr ⟨by decide, by decide, by decide, by decide⟩

/-- A line that a mark stands on is one line of the text. -/
theorem Mark.StandsOn.read? {mark : Mark} {line : String} (h : mark.StandsOn lang line)
    (hcall : ∀ call, mark = .call call → OneLine call ∧ call.toList.getLast? = some ')') :
    '\n' ∉ line.toList ∧ line.toList.getLast? ≠ some '\r' ∧
      Mark.read? lang (line.toList.dropWhile (· == ' ')) = some mark := by
  obtain ⟨count, text, rfl, hspelled⟩ := h
  have hread := Mark.read?_spelled hspelled fun call hmark => (hcall call hmark).2
  have hblank : ∀ c ∈ List.replicate count ' ', (c == ' ') = true := by simp
  rw [String.toList_append, blanks, String.toList_ofList, List.dropWhile_append_of_pos hblank]
  rcases hspelled.single hcall with rfl | hsingle
  · refine ⟨by simp, ?_, hread⟩
    cases count <;> simp [List.replicate_succ']
  · obtain ⟨c, rest, htext⟩ := List.exists_cons_of_ne_nil hsingle.nonempty
    have hfirst : c ≠ ' ' := by
      have hhead := hsingle.first
      simpa [htext] using hhead
    have hdrop : text.toList.dropWhile (· == ' ') = text.toList := by
      rw [htext, List.dropWhile_cons_of_neg (by simpa using hfirst)]
    refine ⟨by simp [hsingle.newline], ?_, by rw [hdrop, hread]⟩
    rw [List.getLast?_append]
    have hlast := hsingle.last
    cases hend : text.toList.getLast? with
    | none => exact absurd (List.getLast?_eq_none_iff.1 hend) hsingle.nonempty
    | some last => simpa [hend] using hlast

/-- **What is written is read back**, if every call stands on one line. -/
theorem read?_of_written {subject text : String} {marks : List Mark}
    (h : Written lang subject marks text)
    (hcall : ∀ call, .call call ∈ marks → OneLine call ∧ call.toList.getLast? = some ')') :
    read? lang subject text = some marks := by
  obtain ⟨margin, lines, rfl, hmarks⟩ := h
  have hlines : ∀ rest, (Text.lines ((String.join (lines.map (· ++ "\n"))).toList ++ rest)).mapM
      (fun line => Mark.read? lang (line.dropWhile (· == ' '))) =
        ((Text.lines rest).mapM fun line => Mark.read? lang (line.dropWhile (· == ' '))).map
          (marks ++ ·) := by
    intro rest
    induction hmarks with
    | nil => simp
    | @cons mark line marks lines hmark _ ih =>
      obtain ⟨hnewline, hreturn, hread⟩ := hmark.read? fun call heq => hcall call (by simp [heq])
      have hrest := ih fun call hmem => hcall call (by simp [hmem])
      have hsplit : (String.join ((line :: lines).map (· ++ "\n"))).toList ++ rest =
          line.toList ++ '\n' :: ((String.join (lines.map (· ++ "\n"))).toList ++ rest) := by
        simp [String.join_cons, String.toList_append]
      rw [hsplit, Text.lines_append hnewline hreturn, List.mapM_cons, hread, hrest]
      cases (Text.lines rest).mapM fun line => Mark.read? lang (line.dropWhile (· == ' ')) <;> rfl
  have hlead : ∀ rest : List Char, ((leadText lang subject).toList ++ rest).dropWhile (· == ' ') =
      (leadText lang subject).toList ++ rest := by
    intro rest
    unfold leadText
    split <;> simp [String.toList_append]
  have hblank : ∀ c ∈ List.replicate margin ' ', (c == ' ') = true := by simp
  have hall := hlines []
  simp only [List.append_nil] at hall
  simp only [read?, String.toList_append, List.append_assoc, blanks, String.toList_ofList]
  rw [List.dropWhile_append_of_pos hblank, hlead, if_pos (by simp), List.drop_left, hall]
  simp [Text.lines, Text.stretches, Text.endLines]

end Interlingua.Switch
