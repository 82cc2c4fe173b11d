import Interlingua.Proofs.Emit.Format
import Interlingua.Proofs.Fields.Expressions

/-!
# Format strings are read back

An interpolated string is written in Python as a format string: the texts of its strings, quoted and
with every brace written twice, and the other parts between braces.

* `Fields.readFormat?` — reads a format string from left to right: characters, and code that ends at
  the brace that matches its opening one.
* `Python.itemsOf` — what is to be read where a part stands.
* `Python.readText?_join` — exactly if no code starts with a brace itself, all parts are read back.
* `View.fields_read` — what this says about an interpolated string.
-/

namespace Interlingua

namespace Fields

/-! ## Reading a format string -/

/-- What a format string says: a character, or code. -/
inductive Item
  | char (c : Char)
  | code (text : String)
deriving DecidableEq, Repr

/-- Outside of all brackets and literals. -/
def Mode.isOutside : Mode → Bool
  | .code [] _ => true
  | _ => false

mutual
/-- Reads the text of a format string; its closing quote is the last character. -/
def readText? : List Char → Option (List Item)
  | [] => none
  | ['"'] => some []
  | '\x7b' :: '\x7b' :: rest => (readText? rest).map (.char '\x7b' :: ·)
  | '\x7d' :: '\x7d' :: rest => (readText? rest).map (.char '\x7d' :: ·)
  | '\x7b' :: rest => readCode? (.code [] .other) [] rest
  | '\\' :: c :: rest => do
    let c ← Text.unescaped? c
    let items ← readText? rest
    return .char c :: items
  | c :: rest =>
    if c == '"' || c == '\\' || c == '\x7d' || isBreak c then none
    else (readText? rest).map (.char c :: ·)

/-- Reads code up to the brace that closes it, behind what has been read of it. -/
def readCode? : Mode → List Char → List Char → Option (List Item)
  | _, _, [] => none
  | mode, read, c :: rest =>
    match mode.step? c with
    | some next => readCode? next (c :: read) rest
    | none =>
      if c = '\x7d' ∧ mode.isOutside = true then
        (readText? rest).map (.code (String.ofList read.reverse) :: ·)
      else none
end

/-- Reads a format string. -/
def readFormat? : List Char → Option (List Item)
  | 'f' :: '"' :: rest => readText? rest
  | _ => none

/-- A character that has no meaning of its own stands for itself. -/
theorem readText?_plain {c : Char} (hquote : c ≠ '"') (hslash : c ≠ '\\')
    (hbrace : c ≠ '\x7b' ∧ c ≠ '\x7d') (hbreak : isBreak c = false) (rest : List Char) :
    readText? (c :: rest) = (readText? rest).map (.char c :: ·) := by
  rw [readText?] <;> simp [hquote, hslash, hbrace, hbreak]

/-- An escape stands for its character. -/
theorem readText?_escape {c value : Char} (h : Text.unescaped? c = some value) (rest : List Char) :
    readText? ('\\' :: c :: rest) = (readText? rest).map (.char value :: ·) := by
  have hread : readText? ('\\' :: c :: rest) = (Text.unescaped? c).bind fun c =>
      (readText? rest).bind fun items => some (.char c :: items) := rfl
  rw [hread, h]
  cases readText? rest <;> rfl

/-- A character of a string is read as itself. -/
theorem readText?_char (c : Char) (rest : List Char) :
    readText? (Surface.InFormat.char c ++ rest) = (readText? rest).map (.char c :: ·) := by
  obtain ⟨letter, hletter, hwritten⟩ | ⟨rfl | rfl, -⟩ |
    ⟨⟨hquote, hslash, hlayout⟩, hbrace, hwritten⟩ := Surface.InFormat.char_cases c
  · rw [hwritten]
    exact readText?_escape hletter rest
  · rfl
  · rfl
  · rw [hwritten]
    exact readText?_plain hquote hslash hbrace (isBreak_of_isLayout hlayout) rest

/-- The text of a string is read as its characters, whatever comes next. -/
theorem readText?_formatText (value : String) (rest : List Char) :
    readText? ((Python.formatText value).toList ++ rest) =
      (readText? rest).map (value.toList.map .char ++ ·) := by
  rw [Surface.InFormat.toList_formatText]
  induction value.toList with
  | nil => simp
  | cons c chars ih =>
    rw [List.flatMap_cons, List.append_assoc, readText?_char, ih, Option.map_map]
    rfl

/-- A brace that no second one follows opens code. -/
theorem readText?_open {c : Char} (hc : c ≠ '\x7b') (rest : List Char) :
    readText? ('\x7b' :: c :: rest) = readCode? (.code [] .other) [] (c :: rest) := by
  rw [readText?]
  intro more hmore
  exact hc (List.cons.inj hmore).1

theorem readCode?_cons (mode : Mode) (read : List Char) (c : Char) (rest : List Char) :
    readCode? mode read (c :: rest) =
      match mode.step? c with
      | some next => readCode? next (c :: read) rest
      | none =>
        if c = '\x7d' ∧ mode.isOutside = true then
          (readText? rest).map (.code (String.ofList read.reverse) :: ·)
        else none := rfl

/-- Code that can be read to its end is read up to there. -/
theorem readCode?_of_run? {mode after : Mode} {text : List Char}
    (h : mode.run? text = some after) (read rest : List Char) :
    readCode? mode read (text ++ rest) = readCode? after (text.reverse ++ read) rest := by
  induction text generalizing mode read with
  | nil =>
    cases h
    rfl
  | cons c text ih =>
    rw [Mode.run?_cons] at h
    obtain ⟨next, hstep, hrun⟩ := Option.bind_eq_some_iff.1 h
    rw [List.cons_append, readCode?_cons, hstep, List.reverse_cons, List.append_assoc]
    exact ih hrun (c :: read)

/-- Balanced code between braces is read as it is, unless it starts with a brace. -/
theorem readText?_inBraces {text : String} (h : Balanced text)
    (hbrace : text.toList.head? ≠ some '\x7b') (rest : List Char) :
    readText? ((inBraces text).toList ++ rest) = (readText? rest).map (.code text :: ·) := by
  have hchars : (inBraces text).toList ++ rest = '\x7b' :: (text.toList ++ '\x7d' :: rest) := by
    simp [inBraces]
  have hopen : readText? ('\x7b' :: (text.toList ++ '\x7d' :: rest)) =
      readCode? (.code [] .other) [] (text.toList ++ '\x7d' :: rest) := by
    cases htext : text.toList with
    | nil => exact readText?_open (by decide) rest
    | cons c chars =>
      rw [htext, List.head?_cons, Ne, Option.some.injEq] at hbrace
      exact readText?_open hbrace _
  obtain ⟨after, hrun⟩ := h [] .other fun _ => rfl
  have hclose : Mode.step? (.code [] after) '\x7d' = none := rfl
  rw [hchars, hopen, readCode?_of_run? hrun, readCode?_cons, hclose]
  simp [Mode.isOutside]

/-- Code that starts with a brace is not read as code: two braces stand for one character. -/
theorem readText?_brace {text : String} (hbrace : text.toList.head? = some '\x7b')
    (rest : List Char) : ∃ more, readText? ((inBraces text).toList ++ rest) =
      (readText? more).map (.char '\x7b' :: ·) := by
  obtain ⟨chars, hchars⟩ := List.head?_eq_some_iff.1 hbrace
  have htext : (inBraces text).toList ++ rest =
      '\x7b' :: '\x7b' :: (chars ++ '\x7d' :: rest) := by simp [inBraces, hchars]
  rw [htext]
  exact ⟨chars ++ '\x7d' :: rest, rfl⟩

end Fields

open Cpp (Segment)
open Fields

/-! ## What an interpolated string is written as -/

namespace Python

/-- What a part adds to a format string. -/
def formatOf : Segment → String
  | .text value => formatText value
  | .argument written => inBraces written

/-- What is to be read where a part stands. -/
def itemsOf : Segment → List Item
  | .text value => value.toList.map .char
  | .argument written => [.code written]

/-- A reading that puts items in front gives these items if the rest of it is read. -/
theorem map_append_eq_some (front : List Item) {read : Option (List Item)} {items : List Item} :
    read.map (front ++ ·) = some (front ++ items) ↔ read = some items := by
  cases read <;> simp

/-- **Exactly if no code starts with a brace, all parts are read back.** -/
theorem readText?_join {segments : List Segment}
    (h : ∀ written, .argument written ∈ segments → Balanced written) :
    readText? ((String.join (segments.map formatOf)).toList ++ ['"']) =
        some (segments.flatMap itemsOf) ↔
      ∀ written, .argument written ∈ segments → written.toList.head? ≠ some '\x7b' := by
  induction segments with
  | nil =>
    have hquote : readText? ['"'] = some [] := rfl
    simp [hquote]
  | cons segment segments ih =>
    have hrest := ih fun written hmem => h written (List.mem_cons_of_mem _ hmem)
    rw [List.map_cons, String.join_cons, String.toList_append, List.append_assoc,
      List.flatMap_cons]
    cases segment with
    | text value =>
      rw [formatOf, readText?_formatText, itemsOf, map_append_eq_some, hrest]
      simp
    | argument written =>
      by_cases hbrace : written.toList.head? = some '\x7b'
      · obtain ⟨more, hmore⟩ := readText?_brace hbrace
          ((String.join (segments.map formatOf)).toList ++ ['"'])
        rw [formatOf, hmore]
        refine iff_of_false (fun hread => ?_) fun hall => hall written List.mem_cons_self hbrace
        obtain ⟨items, -, hitems⟩ := Option.map_eq_some_iff.1 hread
        cases hitems
      · rw [formatOf, readText?_inBraces (h written List.mem_cons_self) hbrace, itemsOf]
        refine (map_append_eq_some [.code written]).trans (hrest.trans ?_)
        simp [hbrace]

/-! ### Parts -/

variable {site : Site} {parts : List NodeId} {segments : List Segment}
  {before after : Scope}

theorem encodes_formatPart : site.Encodes (formatPart site) formatOf where
  text found := by
    rw [formatPart, found]
    rfl
  argument {_ e} found other := by
    rw [formatPart, found]
    cases e with
    | str value kind => exact absurd rfl (other value kind)
    | _ => rfl
  fault found := by
    rw [formatPart, found]
    rfl

/-- The format string that an interpolated string is written as. -/
theorem interpolated_of_renders (h : site.RendersSegments parts before segments after) :
    interpolated site parts before =
      .ok ("f\"" ++ String.join (segments.map formatOf) ++ "\"") after := by
  rw [interpolated, bind_of_ok (encodes_formatPart.mapM_eq h)]
  rfl

/-- What stands between braces is balanced if the parts are. -/
theorem balanced_of_renders {inv : Scope → Prop}
    (h : site.RendersSegments parts before segments after) (hbefore : inv before)
    (hparts : ∀ part ∈ parts, site.arena.literal? part = none → site.Balances inv part) :
    ∀ written, .argument written ∈ segments → Balanced written := by
  induction h with
  | nil => simp
  | text found _ ih =>
    intro written hmem
    refine ih hbefore (fun part hpart => hparts part (List.mem_cons_of_mem _ hpart)) written ?_
    simpa using hmem
  | @argument part e text parts segments before between after found other hwritten _ ih =>
    have hliteral : site.arena.literal? part = none := by
      rw [Arena.literal?_eq found]
      cases e with
      | str value kind => exact absurd rfl (other value kind)
      | _ => rfl
    obtain ⟨hbetween, htext⟩ :=
      hparts part List.mem_cons_self hliteral before text between hbefore hwritten
    intro written hmem
    obtain heq | hmem := List.mem_cons.1 hmem
    · cases heq
      exact htext
    · exact ih hbetween (fun part hpart => hparts part (List.mem_cons_of_mem _ hpart)) written hmem

end Python

/-- **Format strings are read back.**  An interpolated string is written if its parts are.  Names in
it hold no quotes and brackets, strings are carried by their literals, and no format string inside
has a part that starts with a brace.  Then the format string is read as the texts of its strings
and, between them and in order, the texts of the other parts as code, exactly if none of these
starts with a brace. -/
theorem View.fields_read {view : View} (hlang : view.lang = .python) {id : NodeId}
    {parts : List NodeId} (hid : view.arena.expr id = .ok (.interpolated parts)) (depth : Nat)
    (before : Scope) (hnames : ∀ name, view.InTypes before name → IsInert name)
    (hparts : ∀ part ∈ view.written (.interpolated parts),
      view.AreLegible (view.unfoldingTo depth part)) :
    (∀ segments after,
      Site.RendersSegments ⟨view, view.exprTo depth⟩ parts before segments after →
        ∃ text, view.exprTo (depth + 1) id before = .ok text after) ∧
    ∀ text after, view.exprTo (depth + 1) id before = .ok text after →
      ∃ segments, Site.RendersSegments ⟨view, view.exprTo depth⟩ parts before segments after ∧
        (readFormat? text.toList = some (segments.flatMap Python.itemsOf) ↔
          ∀ written, .argument written ∈ segments → written.toList.head? ≠ some '\x7b') := by
  have hwrite : view.exprTo (depth + 1) id =
      Python.interpolated ⟨view, view.exprTo depth⟩ parts := by
    rw [exprTo_succ hid, hlang]
    rfl
  have hjava : view.lang ≠ .java := by
    rw [hlang]
    decide
  rw [hwrite]
  refine ⟨fun segments after h => ⟨_, Python.interpolated_of_renders h⟩, fun text after h => ?_⟩
  obtain ⟨rendered, between, hmap, hpure⟩ := exists_of_bind h
  cases hpure
  obtain ⟨segments, hsegments⟩ := Python.encodes_formatPart.exists_segments hmap
  have htext := h.symm.trans (Python.interpolated_of_renders hsegments)
  simp only [EStateM.Result.ok.injEq, and_true] at htext
  have htypes : ∀ t ty, view.arena.ty t = .ok ty → ty.Named IsInert :=
    fun t ty hty name hname => hnames name (.inTree hty hname)
  have hbefore : before.Named IsInert :=
    ⟨fun other ty hty name hname => hnames name (.ofVariable hty hname),
      fun other ty hty name hname => hnames name (.ofMethod hty hname)⟩
  have hbalanced := Python.balanced_of_renders hsegments hbefore fun part hpart hliteral =>
    Python.yields_balanced hlang htypes depth part (hparts part (by
      rw [View.written_interpolated hjava, List.mem_filter,
        show view.arena.literal? part = none from hliteral]
      exact ⟨hpart, rfl⟩))
  refine ⟨segments, hsegments, ?_⟩
  have hchars : ("f\"" ++ String.join (segments.map Python.formatOf) ++ "\"").toList =
      'f' :: '"' :: ((String.join (segments.map Python.formatOf)).toList ++ ['"']) := by simp
  rw [htext, hchars, ← Python.readText?_join hbalanced]
  rfl

/-- `f"{{{x}}}{g[{x}]}"`: braces as text next to code, and code that ends in a brace. -/
theorem View.fields_read_braces :
    let parts : List NodeId := [⟨0⟩, ⟨1⟩, ⟨2⟩, ⟨5⟩]
    let arena : Arena := ⟨#[.expr (.str "\x7b" .plain), .expr (.ident "x"),
      .expr (.str "\x7d" .plain), .expr (.ident "g"), .expr (.collection .set [⟨1⟩]),
      .expr (.index ⟨3⟩ ⟨4⟩), .expr (.interpolated parts)]⟩
    let view : View := ⟨⟨arena, ⟨6⟩⟩, .python, {}⟩
    let text := "f\"\x7b\x7b\x7bx\x7d\x7d\x7d\x7bg[\x7bx\x7d]\x7d\""
    view.exprTo 4 ⟨6⟩ {} = .ok text {} ∧
      readFormat? text.toList =
        some [.char '\x7b', .code "x", .char '\x7d', .code "g[\x7bx\x7d]"] ∧
      ∃ segments, Site.RendersSegments ⟨view, view.exprTo 3⟩ parts {} segments {} ∧
        (readFormat? text.toList = some (segments.flatMap Python.itemsOf) ↔
          ∀ written, .argument written ∈ segments → written.toList.head? ≠ some '\x7b') := by
  intro parts arena view text
  have hrun : view.exprTo 4 ⟨6⟩ {} = .ok text {} := rfl
  have hnames : ∀ name, view.InTypes {} name → IsInert name := by
    intro name hname
    cases hname with
    | inTree h => exact absurd (Arena.type_mem_nodes h) (by simp [view, arena, View.arena])
    | ofVariable h => cases h
    | ofMethod h => cases h
  have hparts : ∀ part ∈ view.written (.interpolated parts),
      view.AreLegible (view.unfoldingTo 3 part) := by
    have hwritten : view.written (.interpolated parts) = [⟨1⟩, ⟨5⟩] := rfl
    have hall : ∀ part ∈ view.written (.interpolated parts),
        view.unfoldingTo 3 part ⊆ [⟨1⟩, ⟨5⟩, ⟨3⟩, ⟨4⟩] := by
      rw [hwritten]
      decide
    intro part hpart n hn e he
    have hmem := hall part hpart hn
    simp only [List.mem_cons, List.not_mem_nil, or_false] at hmem
    obtain rfl | rfl | rfl | rfl := hmem
    · cases he
      exact (by decide : IsInert "x")
    · cases he
      trivial
    · cases he
      exact (by decide : IsInert "g")
    · cases he
      trivial
  exact ⟨hrun, by decide, (View.fields_read rfl rfl 3 {} hnames hparts).2 text {} hrun⟩

/-- A part that is written as a set starts with a brace, so its braces are read as text. -/
theorem View.fields_swallowed :
    let arena : Arena := ⟨#[.expr (.ident "x"), .expr (.collection .set [⟨0⟩]),
      .expr (.interpolated [⟨1⟩])]⟩
    let view : View := ⟨⟨arena, ⟨2⟩⟩, .python, {}⟩
    view.expr ⟨1⟩ {} = .ok "\x7bx\x7d" {} ∧
      view.expr ⟨2⟩ {} = .ok "f\"\x7b\x7bx\x7d\x7d\"" {} ∧
      readFormat? "f\"\x7b\x7bx\x7d\x7d\"".toList =
        some [.char '\x7b', .char 'x', .char '\x7d'] := by
  exact ⟨rfl, rfl, by decide⟩

end Interlingua
