import Interlingua.Emit.Basic
import Interlingua.Proofs.Counting.Ranges
import Interlingua.Proofs.Emit.Agreement
import Interlingua.Proofs.Switch.Reading
import Interlingua.Text.Canonical

/-!
# Headers of loops over a range

Python puts a call of `range` over the body, the languages with braces a header of three clauses.
Both are read off their texts, and both run through the same numbers.

* `Header` — a start, a test and a stride.  `Header.Counts` says which numbers it runs through.
* `Header.read?`, `Python.readCall?` — read the two off the line that is printed.
* `Header.counts_progression` — a header that tests for the end of a range runs through that range.
* `View.range_headers_agree` — **the two lines count alike.**
-/

namespace Interlingua

/-! ## Three clauses -/

/-- The header of a loop: the counter starts at a number, and as long as the test against another
number holds, a stride is added to it after each round. -/
structure Header where
  start : Int
  test : BinaryOp
  stop : Int
  stride : Int
  deriving DecidableEq, Repr

namespace Header

/-- The test holds of a counter. -/
def Holds (header : Header) (i : Int) : Prop :=
  match header.test with
  | .lt => i < header.stop
  | .ltEq => i ≤ header.stop
  | .gt => header.stop < i
  | .gtEq => header.stop ≤ i
  | _ => False

/-- The numbers that the counter runs through from one of them on. -/
inductive Counts (header : Header) : Int → List Int → Prop
  | ended {i : Int} (h : ¬ header.Holds i) : Counts header i []
  | round {i : Int} {rest : List Int} (h : header.Holds i)
      (hrest : Counts header (i + header.stride) rest) : Counts header i (i :: rest)

/-- A header runs through one list of numbers at most. -/
theorem Counts.unique {header : Header} {i : Int} {numbers others : List Int}
    (h : header.Counts i numbers) (h' : header.Counts i others) : numbers = others := by
  induction h generalizing others with
  | ended hended =>
    cases h' with
    | ended => rfl
    | round hround => exact absurd hround hended
  | round hround _ ih =>
    cases h' with
    | ended hended => exact absurd hround hended
    | round _ hrest => rw [ih hrest]

/-- A header whose test fails where a range ends runs through the numbers of the range. -/
theorem counts_progression {header : Header} {stop : Int} (hstride : header.stride ≠ 0)
    (htest : ∀ i, header.Holds i ↔ Short stop header.stride i) (start : Int) :
    header.Counts start (progression start stop header.stride) := by
  -- by the number of rounds that are left
  generalize hcount : (progression start stop header.stride).length = count
  induction count generalizing start with
  | zero =>
    by_cases hshort : Short stop header.stride start
    · rw [progression_of_short hstride hshort] at hcount
      cases hcount
    · rw [progression_of_not_short hstride hshort]
      exact .ended fun hholds => hshort ((htest start).1 hholds)
  | succ count ih =>
    by_cases hshort : Short stop header.stride start
    · rw [progression_of_short hstride hshort] at hcount ⊢
      refine .round ((htest start).2 hshort) (ih _ ?_)
      simpa using hcount
    · rw [progression_of_not_short hstride hshort] at hcount
      cases hcount

/-- The header for a range, given the values of its bounds and of its step. -/
def ofRange (range : Range) (start stop step : Int) : Header :=
  ⟨start, Braced.rangeTest range, stop, range.stride step⟩

theorem holds_ofRange (range : Range) (start stop : Int) {step : Int} (hstep : 0 < step) (i : Int) :
    (ofRange range start stop step).Holds i ↔
      Short (range.target stop) (ofRange range start stop step).stride i := by
  unfold Short
  cases hdescending : range.descending <;> cases hinclusive : range.inclusive <;>
    simp only [ofRange, Holds, Braced.rangeTest, Range.stride, Range.target, hdescending,
      hinclusive, if_true, Bool.false_eq_true, if_false]
  · rw [if_pos hstep]
  · rw [if_pos hstep]
    omega
  · rw [if_neg (by omega)]
  · rw [if_neg (by omega)]
    omega

/-- **The header for a range runs through the numbers of the range.** -/
theorem counts_ofRange (range : Range) (start stop : Int) {step : Int} (hstep : 0 < step) :
    (ofRange range start stop step).Counts start
      (progression start (range.target stop) (range.stride step)) := by
  have hstride : (ofRange range start stop step).stride ≠ 0 := by
    show range.stride step ≠ 0
    unfold Range.stride
    split <;> omega
  exact counts_progression hstride (holds_ofRange range start stop hstep) start

end Header

/-! ## Reading -/

/-- What follows a word that a text starts with. -/
def after? (word : String) (text : List Char) : Option (List Char) :=
  Text.dropWord? word.toList text

/-- The number up to a mark, and what follows the mark. -/
def numeralTo? (mark : Char) (text : List Char) : Option (Int × List Char) :=
  (Switch.readNumeral? (text.takeWhile (· != mark))).map fun n =>
    (n, (text.dropWhile (· != mark)).drop 1)

namespace Header

/-- A comparison between blanks, and what follows it. -/
def test? (text : List Char) : Option (BinaryOp × List Char) :=
  [BinaryOp.lt, .ltEq, .gt, .gtEq].findSome? fun op =>
    (after? (" " ++ op.symbol ++ " ") text).map fun rest => (op, rest)

/-- What the third clause adds to the counter. -/
def stride? (text : List Char) : Option Int :=
  if text = "++)".toList then some 1
  else if text = "--)".toList then some (-1)
  else
    match after? " += " text, after? " -= " text with
    | some rest, _ => (numeralTo? ')' rest).map Prod.fst
    | none, some rest => (numeralTo? ')' rest).map fun result => -result.1
    | none, none => none

/-- Reads the header of a loop that declares the given counter. -/
def read? (var : String) (line : String) : Option Header := do
  let text ← after? ("for (int " ++ var ++ " = ") line.toList
  let (start, text) ← numeralTo? ';' text
  let text ← after? (" " ++ var) text
  let (test, text) ← test? text
  let (stop, text) ← numeralTo? ';' text
  let text ← after? (" " ++ var) text
  let stride ← stride? text
  return ⟨start, test, stop, stride⟩

end Header

/-- Reads the arguments of the call of `range` that the given variable runs through. -/
def Python.readCall? (var : String) (line : String) : Option (List Int) := do
  let text ← after? ("for " ++ var ++ " in range(") line.toList
  if text.getLast? = some ')' then
    ((text.dropLast.filter (· != ' ')).splitOn ',').mapM Switch.readNumeral?
  else none

/-! ## What is written is read back -/

theorem dropWord?_append (word rest : List Char) : Text.dropWord? word (word ++ rest) = some rest := by
  induction word with
  | nil => cases rest <;> rfl
  | cons c word ih => rw [List.cons_append, Text.dropWord?, if_pos rfl, ih]

theorem after?_append (word : String) (rest : List Char) :
    after? word (word.toList ++ rest) = some rest :=
  dropWord?_append word.toList rest

theorem numeralTo?_append {mark : Char} (hdigit : mark.isDigit = false) (hminus : mark ≠ '-')
    (n : Int) (rest : List Char) :
    numeralTo? mark (Text.numeralChars n ++ mark :: rest) = some (n, rest) := by
  have hall : ∀ c ∈ Text.numeralChars n, (c != mark) = true := by
    intro c hc
    rw [bne_iff_ne]
    rintro rfl
    exact Switch.not_mem_numeralChars hdigit hminus n hc
  rw [numeralTo?, List.takeWhile_append_of_pos hall, List.dropWhile_append_of_pos hall]
  simp [Switch.readNumeral?_numeralChars]

/-- How the third clause goes on after the counter. -/
def updateText (range : Range) : Option Int → String
  | none => if range.descending then "--" else "++"
  | some step => (if range.descending then " -= " else " += ") ++ Text.numeral step

theorem stride?_updateText (range : Range) (step : Option Int) :
    Header.stride? ((updateText range step).toList ++ [')']) =
      some (range.stride (step.getD 1)) := by
  unfold updateText Range.stride
  cases step with
  | none => cases range.descending <;> decide
  | some step =>
    have hread : numeralTo? ')' (Text.numeralChars step ++ [')']) = some (step, []) :=
      numeralTo?_append (by decide) (by decide) step []
    cases range.descending <;>
      simp [Header.stride?, after?, Text.dropWord?, Text.numeral, hread]

/-- How the header for a range is written. -/
def headerText (var : String) (range : Range) (start stop : Int) (step : Option Int) : String :=
  "for (int " ++ var ++ " = " ++ Text.numeral start ++ "; " ++ var ++ " " ++
    (Braced.rangeTest range).symbol ++ " " ++ Text.numeral stop ++ "; " ++
    (var ++ updateText range step) ++ ")"

theorem test?_append (range : Range) (n : Int) (rest : List Char) :
    Header.test? ((" " ++ (Braced.rangeTest range).symbol ++ " ").toList ++
        (Text.numeralChars n ++ rest)) =
      some (Braced.rangeTest range, Text.numeralChars n ++ rest) := by
  cases hdescending : range.descending <;> cases hinclusive : range.inclusive <;>
    simp [Braced.rangeTest, hdescending, hinclusive, Header.test?, after?, Text.dropWord?,
      BinaryOp.symbol]

theorem Header.read?_headerText (var : String) (range : Range) (start stop : Int)
    (step : Option Int) :
    Header.read? var (headerText var range start stop step) =
      some (Header.ofRange range start stop (step.getD 1)) := by
  have htext : (headerText var range start stop step).toList =
      ("for (int " ++ var ++ " = ").toList ++ (Text.numeralChars start ++ ';' ::
        ((" " ++ var).toList ++ ((" " ++ (Braced.rangeTest range).symbol ++ " ").toList ++
          (Text.numeralChars stop ++ ';' ::
            ((" " ++ var).toList ++ ((updateText range step).toList ++ [')'])))))) := by
    have hmark : "; ".toList = [';', ' '] := by simp
    have hblank : " ".toList = [' '] := by simp
    have hend : ")".toList = [')'] := by simp
    unfold headerText
    simp only [Text.numeral, String.toList_append, String.toList_ofList, List.append_assoc, hmark,
      hblank, hend, List.cons_append, List.nil_append]
  rw [Header.read?, htext, after?_append]
  simp only [Option.bind_eq_bind, Option.bind_some]
  rw [numeralTo?_append (by decide) (by decide)]
  simp only [Option.bind_some]
  rw [after?_append]
  simp only [Option.bind_some]
  rw [test?_append]
  simp only [Option.bind_some]
  rw [numeralTo?_append (by decide) (by decide)]
  simp only [Option.bind_some]
  rw [after?_append]
  simp only [Option.bind_some]
  rw [stride?_updateText]
  rfl

theorem Python.readCall?_text (var : String) {values : List Int} (h : values ≠ []) :
    Python.readCall? var ("for " ++ var ++ " in " ++
      ("range" ++ parenthesized (commas (values.map Text.numeral)))) = some values := by
  have htext : ("for " ++ var ++ " in " ++
      ("range" ++ parenthesized (commas (values.map Text.numeral)))).toList =
        ("for " ++ var ++ " in range(").toList ++
          ((commas (values.map Text.numeral)).toList ++ [')']) := by
    simp [parenthesized]
  rw [Python.readCall?, htext, after?_append]
  simp only [Option.bind_eq_bind, Option.bind_some, List.getLast?_concat, if_true,
    List.dropLast_concat]
  exact Switch.mapM_readNumeral?_splitOn (by decide) (by decide) (by decide) h

/-! ## What is printed -/

/-- Prints with a counter of whole numbers in a frame of its own. -/
def Emit.withCounter (var : String) (inside : Emit Unit) : Emit Unit := do
  Emit.enter
  Emit.setVariable var .int
  inside
  Emit.leave

/-- The bounds and the step of a range are whole numbers. -/
structure Range.Literal (range : Range) (arena : Arena) (start stop : Int) (step : Option Int) :
    Prop where
  start : arena.expr range.start = .ok (.int start)
  stop : arena.expr range.stop = .ok (.int stop)
  step : Option.Rel (fun id k => arena.expr id = .ok (.int k)) range.step step

theorem Range.Literal.step_cases {range : Range} {arena : Arena} {start stop : Int}
    {step : Option Int} (h : range.Literal arena start stop step) :
    (range.step = none ∧ step = none) ∨
      ∃ id k, range.step = some id ∧ step = some k ∧ arena.expr id = .ok (.int k) := by
  have hrel := h.step
  cases hid : range.step with
  | none =>
    rw [hid] at hrel
    cases hrel
    exact .inl ⟨rfl, rfl⟩
  | some id =>
    rw [hid] at hrel
    cases hrel with
    | some hk => exact .inr ⟨id, _, rfl, rfl, hk⟩

/-- The step in the call for a range, if it has to be written. -/
def Range.callStep? (range : Range) : Option Int → Option Int
  | none => if range.descending then some (-1) else none
  | some step => some (range.stride step)

/-- The arguments of the call for a range, given the values of its bounds and of its step. -/
def Range.callValues (range : Range) (start stop : Int) (step : Option Int) : List Int :=
  match range.callStep? step with
  | none => if start = 0 then [range.target stop] else [start, range.target stop]
  | some stride => [start, range.target stop, stride]

theorem Range.length_callValues (range : Range) (start stop : Int) (step : Option Int) :
    1 ≤ (range.callValues start stop step).length ∧
      (range.callValues start stop step).length ≤ 3 := by
  unfold callValues
  split
  · split <;> exact ⟨by simp, by simp⟩
  · exact ⟨by simp, by simp⟩

/-- The step is left out only if it is one. -/
theorem Range.getD_callStep? (range : Range) (step : Option Int) :
    (range.callStep? step).getD 1 = range.stride (step.getD 1) := by
  unfold callStep? stride
  cases step with
  | none => cases range.descending <;> rfl
  | some step => rfl

/-- **The call gives the numbers of the range.** -/
theorem Range.rangeOf_callValues (range : Range) (start stop : Int) (step : Option Int) :
    rangeOf (range.callValues start stop step) =
      progression start (range.target stop) (range.stride (step.getD 1)) := by
  rw [← range.getD_callStep? step]
  unfold callValues
  cases range.callStep? step with
  | none =>
    by_cases hzero : start = 0
    · subst hzero
      rfl
    · simp only [if_neg hzero]
      rfl
  | some stride => rfl

section Literals

variable {view : View} {range : Range} {start stop : Int} {step : Option Int}

theorem View.expr_int {id : NodeId} {n : Int} (h : view.arena.expr id = .ok (.int n)) :
    view.expr id = pure (Text.numeral n) := by
  rw [View.expr, Arena.depthBound, View.exprTo_succ h]
  rfl

theorem View.inferred_int {id : NodeId} {n : Int} (h : view.arena.expr id = .ok (.int n)) :
    view.inferred id = pure .int := by
  rw [View.inferred, Infer.expr, Arena.depthBound, Infer.exprTo, h]
  rfl

/-- What is known is found. -/
theorem Render.follow_ok {α : Type} (a : α) : (liftM (.ok a : Except Fault α) : Render α) = pure a :=
  rfl

theorem Python.rangeText_literal (h : range.Literal view.arena start stop step) :
    rangeText view range = pure ("range" ++
      parenthesized (commas ((range.callValues start stop step).map Text.numeral))) := by
  have hstart := View.expr_int h.start
  have hstop : rangeStop view range = pure (Text.numeral (range.target stop)) := by
    unfold rangeStop Range.target offset
    rw [h.stop]
    cases range.inclusive with
    | false => exact View.expr_int h.stop
    | true => cases range.descending <;> rfl
  have hstep : rangeStep view range = pure ((range.callStep? step).map Text.numeral) := by
    unfold rangeStep negated Range.callStep? Range.stride
    obtain ⟨hid, rfl⟩ | ⟨id, k, hid, rfl, hk⟩ := h.step_cases
    · rw [hid]
      cases range.descending <;> rfl
    · rw [hid]
      cases range.descending with
      | false => simp only [View.expr_int hk, pure_bind]; rfl
      | true =>
        simp only [hk]
        rfl
  unfold rangeText Range.callValues
  simp only [hstop, hstep, pure_bind]
  rw [h.start]
  cases range.callStep? step with
  | some stride =>
    simp only [Render.follow_ok, pure_bind, Option.map_some, hstart]
    rfl
  | none =>
    by_cases hzero : start = 0
    · subst hzero
      rfl
    · simp only [Render.follow_ok, pure_bind, Option.map_none, if_neg hzero]
      split
      · rename_i heq
        cases heq
        exact absurd rfl hzero
      · rw [hstart]
        rfl

/-- A number needs no parentheses under a comparison. -/
theorem Site.operand_int {id : NodeId} {n : Int} (h : view.arena.expr id = .ok (.int n))
    {form : OperatorForm}
    (hform : view.lang.operators.binary (Braced.rangeTest range) = some form) (side : Side) :
    view.site.operand form id side = pure (Text.numeral n) := by
  have hneg : ∀ neg, view.lang.operators.unary .neg = some neg → neg.level < form.level := by
    intro neg hneg
    revert hform hneg
    unfold Braced.rangeTest
    cases view.lang <;> cases range.descending <;> cases range.inclusive <;>
      intro hform hneg <;> cases hform <;> cases hneg <;> decide
  have hwraps : view.lang.wraps view.arena form id side = .ok false := by
    rw [Language.wraps, Language.exprForm?, h]
    simp only [Language.formOf?, bind, Except.bind, pure, Except.pure]
    by_cases hn : n < 0
    · rw [if_pos hn]
      cases hfound : view.lang.operators.unary .neg with
      | none => rfl
      | some neg =>
        have hlevel := hneg neg hfound
        simp [OperatorForm.mustGroup, Nat.ne_of_lt hlevel, Nat.le_of_lt hlevel]
    · rw [if_neg hn]
  have htext : view.site.below id = pure (Text.numeral n) := View.expr_int h
  have hfound : (liftM (view.lang.wraps view.arena form id side) : Render Bool) = pure false := by
    rw [hwraps]
    rfl
  change (view.site.below id >>= fun text =>
    (liftM (view.lang.wraps view.arena form id side) : Render Bool) >>= fun wrapped =>
      if wrapped then pure (parenthesized text) else pure text) = _
  rw [htext, hfound]
  rfl

theorem Braced.rangeUpdate_literal (var : String)
    (h : range.Literal view.arena start stop step) :
    rangeUpdate view var range = pure (var ++ updateText range step) := by
  unfold rangeUpdate updateText
  obtain ⟨hid, rfl⟩ | ⟨id, k, hid, rfl, hk⟩ := h.step_cases
  · rw [hid]
  · rw [hid]
    simp only [View.expr_int hk, pure_bind, String.append_assoc]

theorem Braced.rangeHeader_literal (var : String) (h : range.Literal view.arena start stop step) :
    rangeHeader view var range = pure (headerText var range start stop step, .int) := by
  obtain ⟨form, hform, hvalue⟩ : ∃ form,
      view.lang.operators.binary (rangeTest range) = some form ∧
        form.value = (rangeTest range).symbol := by
    unfold rangeTest
    cases view.lang <;> cases range.descending <;> cases range.inclusive <;>
      exact ⟨_, rfl, by decide⟩
  have htype : view.typeName .int = .ok "int" := by
    unfold View.typeName
    cases view.lang <;> rfl
  have hwider : (Ty.int.wider? .int).getD .int = .int := rfl
  have hallowed : (liftM (.ok "int" : Except EmitError String) : Render String) = pure "int" := rfl
  have hlead : "for (" ++ "int" ++ " " = "for (int " := by decide
  unfold rangeHeader headerText
  simp only [View.inferred_int h.start, View.inferred_int h.stop, pure_bind, hwider, htype,
    hallowed, View.expr_int h.start, hform, Site.operand_int h.stop hform,
    rangeUpdate_literal var h, hvalue, hlead]

/-- A loop over a range is printed as a header over its body. -/
theorem Python.node_rangeFor (hlang : view.lang = .python) {id body : NodeId} {var : String}
    (found : view.arena.stmt id = .ok (.rangeFor var range body))
    (h : range.Literal view.arena start stop step) :
    view.node id = Emit.inLoop ⟨id, none⟩ (Emit.withCounter var
      (suite ("for " ++ var ++ " in " ++ ("range" ++ parenthesized
          (commas ((range.callValues start stop step).map Text.numeral))))
        (statements view (nodeTo view view.arena.size) body))) := by
  have hnode : view.node id = stmt view (nodeTo view view.arena.size) id (.rangeFor var range body) := by
    unfold View.node
    rw [hlang]
    show nodeTo view view.arena.depthBound id = _
    rw [Arena.depthBound, nodeTo, Arena.node_of_stmt found]
    rfl
  rw [hnode, stmt, rangeFor, rangeText_literal h]
  rfl

/-- In the languages with braces, too. -/
theorem Braced.node_rangeFor (hlang : view.lang ≠ .python) {id body : NodeId} {var : String}
    (found : view.arena.stmt id = .ok (.rangeFor var range body))
    (h : range.Literal view.arena start stop step) :
    ∃ below, view.node id = Emit.withCounter var
      (bodyUnder view below (headerText var range start stop step) body) := by
  have hstmt : ∀ idiom, nodeTo idiom view view.arena.depthBound id =
      stmt idiom view (nodeTo idiom view view.arena.size) id (.rangeFor var range body) := by
    intro idiom
    rw [Arena.depthBound, nodeTo, Arena.node_of_stmt found]
    rfl
  have hprint : ∀ idiom, stmt idiom view (nodeTo idiom view view.arena.size) id
      (.rangeFor var range body) = Emit.withCounter var (bodyUnder view
        (nodeTo idiom view view.arena.size) (headerText var range start stop step) body) := by
    intro idiom
    rw [stmt, rangeHeader_literal var h]
    rfl
  unfold View.node
  cases hl : view.lang with
  | python => exact absurd hl hlang
  | java => exact ⟨_, (hstmt Java.idiom).trans (hprint Java.idiom)⟩
  | cpp => exact ⟨_, (hstmt Cpp.idiom).trans (hprint Cpp.idiom)⟩

end Literals

/-- **Loops over a range count alike in every language.**  Take a loop over a range whose bounds are
whole numbers and whose step, if it has one, is at least one.  Python prints a call of `range` with
one, two or three numbers over the body, and the languages with braces a header of three clauses;
read off their lines, the call gives exactly the numbers that the header runs through. -/
theorem View.range_headers_agree {python braced : View} (hpython : python.lang = .python)
    (hbraced : braced.lang ≠ .python) (harena : braced.arena = python.arena) {id body : NodeId}
    {var : String} {range : Range} (found : python.arena.stmt id = .ok (.rangeFor var range body))
    {start stop : Int} {step : Option Int} (h : range.Literal python.arena start stop step)
    (hstep : ∀ k ∈ step, 1 ≤ k) :
    ∃ call values line header,
      (∃ below, python.node id = Emit.inLoop ⟨id, none⟩
        (Emit.withCounter var (Python.suite call (Python.statements python below body)))) ∧
      Python.readCall? var call = some values ∧ 1 ≤ values.length ∧ values.length ≤ 3 ∧
      (∃ below, braced.node id =
        Emit.withCounter var (Braced.bodyUnder braced below line body)) ∧
      Header.read? var line = some header ∧ header.Counts header.start (rangeOf values) := by
  have hlength := range.length_callValues start stop step
  have hne : range.callValues start stop step ≠ [] := by
    intro hnil
    rw [hnil] at hlength
    exact absurd hlength.1 (by simp)
  have hpos : 0 < step.getD 1 := by
    cases step with
    | none => decide
    | some k =>
      have hk := hstep k rfl
      show 0 < k
      omega
  refine ⟨_, _, _, _, ⟨_, Python.node_rangeFor hpython found h⟩, Python.readCall?_text var hne,
    hlength.1, hlength.2, Braced.node_rangeFor hbraced (harena ▸ found) (harena ▸ h),
    Header.read?_headerText var range start stop step, ?_⟩
  rw [range.rangeOf_callValues]
  exact Header.counts_ofRange range start stop hpos

/-- Down to and including zero, by a step that does not divide the way. -/
theorem View.range_headers_agree_down :
    let arena : Arena := ⟨#[.expr (.int 10), .expr (.int 0), .expr (.int 3), .stmt (.block []),
      .stmt (.rangeFor "i" ⟨⟨0⟩, ⟨1⟩, some ⟨2⟩, true, true⟩ ⟨3⟩)]⟩
    let python : View := View.make ⟨arena, ⟨4⟩⟩ .python {}
    let java : View := View.make ⟨arena, ⟨4⟩⟩ .java { unitMode := some false }
    let call := "for i in range(10, -1, -3)"
    let line := "for (int i = 10; i >= 0; i -= 3)"
    (python.emit = .ok (call ++ ":\n    pass\n") ∧ Python.readCall? "i" call = some [10, -1, -3] ∧
      java.emit = .ok (line ++ " \x7b\n\x7d\n") ∧
      Header.read? "i" line = some ⟨10, .gtEq, 0, -3⟩ ∧ rangeOf [10, -1, -3] = [10, 7, 4, 1]) ∧
    ∃ call values line header,
      (∃ below, python.node ⟨4⟩ = Emit.inLoop ⟨⟨4⟩, none⟩
        (Emit.withCounter "i" (Python.suite call (Python.statements python below ⟨3⟩)))) ∧
      Python.readCall? "i" call = some values ∧ 1 ≤ values.length ∧ values.length ≤ 3 ∧
      (∃ below, java.node ⟨4⟩ =
        Emit.withCounter "i" (Braced.bodyUnder java below line ⟨3⟩)) ∧
      Header.read? "i" line = some header ∧ header.Counts header.start (rangeOf values) := by
  intro arena python java call line
  have hliteral : Range.Literal ⟨⟨0⟩, ⟨1⟩, some ⟨2⟩, true, true⟩ arena 10 0 (some 3) :=
    ⟨rfl, rfl, .some rfl⟩
  constructor
  · clear hliteral
    decide +revert
  · have hpython : python.lang = .python := rfl
    have hjava : java.lang ≠ .python := by decide
    exact View.range_headers_agree hpython hjava rfl rfl hliteral (by simp)

end Interlingua
