import Interlingua.Proofs.Emit.Agreement
import Interlingua.Proofs.Text.Quoted

/-!
# Formats are read back

An interpolated string is written in C++ as a call with a format and arguments.  Its format goes
through two escapes: braces are written twice, and the whole is quoted.

* `Cpp.readFormat?` — reads a format: braces written twice, places, and no lone brace.
* `Cpp.Segment` — what a part of an interpolated string becomes: text, or an argument.
* `Site.RendersSegments` — the parts of an interpolated string become segments, in order.
* `Site.Encodes` — parts are written as encodings of their segments.
* `View.format_reads` — the literal that is written is read as the texts of the strings, with a
  place for each argument between them.
-/

namespace Interlingua

namespace Cpp

/-! ## Reading a format -/

/-- What a format says: a character, or a place that an argument fills. -/
inductive FormatItem
  | char (c : Char)
  | place
deriving DecidableEq, Repr

/-- Reads a format from left to right; a lone brace is none of its items. -/
def readFormat? : List Char → Option (List FormatItem)
  | [] => some []
  | '\x7b' :: '\x7b' :: rest => (readFormat? rest).map (.char '\x7b' :: ·)
  | '\x7b' :: '\x7d' :: rest => (readFormat? rest).map (.place :: ·)
  | '\x7d' :: '\x7d' :: rest => (readFormat? rest).map (.char '\x7d' :: ·)
  | '\x7b' :: _ => none
  | '\x7d' :: _ => none
  | c :: rest => (readFormat? rest).map (.char c :: ·)

/-- A character that is no brace stands for itself. -/
theorem readFormat?_cons {c : Char} (hopen : c ≠ '\x7b') (hclose : c ≠ '\x7d')
    (rest : List Char) : readFormat? (c :: rest) = (readFormat? rest).map (.char c :: ·) := by
  rw [readFormat?] <;> simp [hopen, hclose]

/-- Text with its braces written twice is read as the text, whatever comes next. -/
theorem readFormat?_doubleBraces (s : String) (rest : List Char) :
    readFormat? ((doubleBraces s).toList ++ rest) =
      (readFormat? rest).map (s.toList.map FormatItem.char ++ ·) := by
  rw [doubleBraces, String.toList_ofList]
  induction s.toList with
  | nil => simp
  | cons c chars ih =>
    have hmap : (readFormat? rest).map ((c :: chars).map FormatItem.char ++ ·) =
        ((readFormat? rest).map (chars.map FormatItem.char ++ ·)).map (.char c :: ·) := by
      rw [Option.map_map]
      rfl
    rw [hmap, ← ih, List.flatMap_cons, List.append_assoc]
    split
    case isTrue hbrace =>
      simp only [Bool.or_eq_true, decide_eq_true_eq] at hbrace
      obtain rfl | rfl := hbrace <;> rfl
    case isFalse hplain =>
      simp only [Bool.or_eq_true, decide_eq_true_eq, not_or] at hplain
      exact readFormat?_cons hplain.1 hplain.2 _

/-! ## Segments -/

/-- What a part of an interpolated string becomes. -/
inductive Segment
  /-- The text of a string. -/
  | text (value : String)
  /-- Another expression as it is written. -/
  | argument (written : String)
deriving DecidableEq, Repr

namespace Segment

/-- What a format has to say where the segment stands. -/
def items : Segment → List FormatItem
  | text value => value.toList.map .char
  | argument _ => [.place]

def argument? : Segment → Option String
  | text _ => none
  | argument written => some written

/-- What the segment adds to the format. -/
def format : Segment → String
  | text value => doubleBraces value
  | argument _ => "\x7b\x7d"

/-- A segment is read as its items, whatever comes next: no brace of it is read together with a
brace of its neighbour. -/
theorem readFormat?_format (segment : Segment) (rest : List Char) :
    readFormat? (segment.format.toList ++ rest) = (readFormat? rest).map (segment.items ++ ·) := by
  cases segment with
  | text value => exact readFormat?_doubleBraces value rest
  | argument written =>
    have hplace : "\x7b\x7d".toList = ['\x7b', '\x7d'] := by decide
    rw [format, hplace]
    rfl

/-- The formats of segments are read one after another. -/
theorem readFormat?_join (segments : List Segment) :
    readFormat? (String.join (segments.map format)).toList = some (segments.flatMap items) := by
  induction segments with
  | nil => rfl
  | cons segment segments ih =>
    rw [List.map_cons, String.join_cons, String.toList_append, readFormat?_format, ih]
    rfl

/-- There are as many places as arguments. -/
theorem count_place (segments : List Segment) :
    (segments.flatMap items).count .place = (segments.filterMap argument?).length := by
  induction segments with
  | nil => rfl
  | cons segment segments ih =>
    rw [List.flatMap_cons, List.count_append, ih]
    cases segment with
    | text value =>
      have hnone : (items (text value)).count .place = 0 :=
        List.count_eq_zero.2 (by simp [items])
      rw [hnone, Nat.zero_add]
      rfl
    | argument written => exact Nat.add_comm _ _

end Segment

end Cpp

/-! ## What an interpolated string is written as -/

open Cpp (Segment)

/-- Parts of an interpolated string become segments, from left to right: strings are taken as they
are, and any other part is what it is written as. -/
inductive Site.RendersSegments (site : Site) :
    List NodeId → Scope → List Segment → Scope → Prop
  | nil (scope : Scope) : RendersSegments site [] scope [] scope
  | text {part : NodeId} {value : String} {kind : StringKind} {parts : List NodeId}
      {segments : List Segment} {before after : Scope}
      (found : site.arena.expr part = .ok (.str value kind))
      (rest : RendersSegments site parts before segments after) :
      RendersSegments site (part :: parts) before (.text value :: segments) after
  | argument {part : NodeId} {e : Expr} {text : String} {parts : List NodeId}
      {segments : List Segment} {before between after : Scope}
      (found : site.arena.expr part = .ok e) (other : ∀ value kind, e ≠ .str value kind)
      (written : site.below part before = .ok text between)
      (rest : RendersSegments site parts between segments after) :
      RendersSegments site (part :: parts) before (.argument text :: segments) after

/-- Parts are written one at a time: a string by what its segment is encoded as, and any other part
by what the segment of its text is encoded as. -/
structure Site.Encodes {α : Type} (site : Site) (write : NodeId → Render α)
    (encode : Segment → α) : Prop where
  text {part : NodeId} {value : String} {kind : StringKind}
    (found : site.arena.expr part = .ok (.str value kind)) : write part = pure (encode (.text value))
  argument {part : NodeId} {e : Expr} (found : site.arena.expr part = .ok e)
    (other : ∀ value kind, e ≠ .str value kind) :
    write part = (do return encode (.argument (← site.below part)))
  fault {part : NodeId} {fault : Fault} (found : site.arena.expr part = .error fault) :
    write part = throw (.ofFault fault)

namespace Site.Encodes

variable {α : Type} {site : Site} {write : NodeId → Render α} {encode : Segment → α}
  {parts : List NodeId} {segments : List Segment} {before after : Scope}

/-- Parts that become segments are written as these. -/
theorem mapM_eq (h : site.Encodes write encode)
    (hparts : site.RendersSegments parts before segments after) :
    parts.mapM write before = .ok (segments.map encode) after := by
  induction hparts with
  | nil => rfl
  | text found _ ih =>
    rw [List.mapM_cons, h.text found, pure_bind, bind_of_ok ih]
    rfl
  | argument found other written _ ih =>
    rw [List.mapM_cons, h.argument found other, bind_assoc, bind_of_ok written, pure_bind,
      bind_of_ok ih]
    rfl

/-- Parts that are written become segments. -/
theorem exists_segments (h : site.Encodes write encode) {rendered : List α}
    (hparts : parts.mapM write before = .ok rendered after) :
    ∃ segments, site.RendersSegments parts before segments after := by
  induction parts generalizing before rendered with
  | nil =>
    cases hparts
    exact ⟨[], .nil _⟩
  | cons part parts ih =>
    rw [List.mapM_cons] at hparts
    obtain ⟨one, between, hpart, hrest⟩ := exists_of_bind hparts
    obtain ⟨more, last, hmore, hpure⟩ := exists_of_bind hrest
    cases hpure
    obtain ⟨segments, hsegments⟩ := ih hmore
    cases found : site.arena.expr part with
    | error fault =>
      rw [h.fault found] at hpart
      cases hpart
    | ok e =>
      cases e with
      | str value kind =>
        rw [h.text found] at hpart
        cases hpart
        exact ⟨_, .text found hsegments⟩
      | _ =>
        rw [h.argument found nofun] at hpart
        obtain ⟨text, scope, written, htext⟩ := exists_of_bind hpart
        cases htext
        exact ⟨_, .argument found nofun written hsegments⟩

end Site.Encodes

namespace Cpp

variable {site : Site}

theorem encodes_formatPart :
    site.Encodes (formatPart site) fun segment => (segment.format, segment.argument?) where
  text found := by
    rw [formatPart, found]
    rfl
  argument {_ e} found other := by
    rw [formatPart, found]
    cases e with
    | str value kind => exact absurd rfl (other value kind)
    | _ => rfl
  fault found := by
    rw [formatPart, found]
    rfl

/-- The call that an interpolated string is written as. -/
theorem interpolated_of_renders {parts : List NodeId} {segments : List Segment}
    {before after : Scope} (h : site.RendersSegments parts before segments after) :
    interpolated site parts before = .ok ("std::format" ++ parenthesized (commas
      (Text.quote (String.join (segments.map Segment.format)) ::
        segments.filterMap Segment.argument?))) after := by
  rw [interpolated, bind_of_ok (encodes_formatPart.mapM_eq h), List.map_map, List.filterMap_map]
  rfl

end Cpp

/-- **Formats are read back.**  An interpolated string is written if its parts are.  It is written
as a call of `std::format` on one literal and on the parts that are no strings, in order.  The
literal is read as a format in which no brace is left alone: it has the characters of the strings,
in order, and between them a place for each argument. -/
theorem View.format_reads {view : View} (hlang : view.lang = .cpp) {id : NodeId}
    {parts : List NodeId} (hid : view.arena.expr id = .ok (.interpolated parts)) (depth : Nat)
    (before : Scope) :
    (∀ segments after,
      Site.RendersSegments ⟨view, view.exprTo depth⟩ parts before segments after →
        ∃ text, view.exprTo (depth + 1) id before = .ok text after) ∧
    ∀ text after, view.exprTo (depth + 1) id before = .ok text after →
      ∃ (segments : List Segment) (literal : String) (format : List Char),
        Site.RendersSegments ⟨view, view.exprTo depth⟩ parts before segments after ∧
        text = "std::format(" ++
          ", ".intercalate (literal :: segments.filterMap Segment.argument?) ++ ")" ∧
        (∀ rest, Text.readQuoted? (literal.toList ++ rest) = some (format, rest)) ∧
        Cpp.readFormat? format = some (segments.flatMap Segment.items) ∧
        (segments.flatMap Segment.items).count .place =
          (segments.filterMap Segment.argument?).length := by
  have hwrite : view.exprTo (depth + 1) id = Cpp.interpolated ⟨view, view.exprTo depth⟩ parts := by
    rw [exprTo_succ hid, hlang]
    rfl
  rw [hwrite]
  refine ⟨fun segments after h => ⟨_, Cpp.interpolated_of_renders h⟩, fun text after h => ?_⟩
  obtain ⟨rendered, between, hparts, hpure⟩ := exists_of_bind h
  cases hpure
  obtain ⟨segments, hsegments⟩ := Cpp.encodes_formatPart.exists_segments hparts
  have htext := h.symm.trans (Cpp.interpolated_of_renders hsegments)
  simp only [EStateM.Result.ok.injEq, and_true] at htext
  refine ⟨segments, Text.quote (String.join (segments.map Segment.format)),
    (String.join (segments.map Segment.format)).toList, hsegments, ?_, fun rest => ?_,
    Segment.readFormat?_join segments, Segment.count_place segments⟩
  · rw [htext]
    simp only [parenthesized, commas, String.append_assoc]
    rfl
  · rw [Text.quote, String.toList_ofList, Text.readQuoted?_quoteChars]

/-- Two strings full of marks that a format or a literal escapes, each before an argument. -/
theorem View.format_reads_marks :
    let parts : List NodeId := [⟨0⟩, ⟨1⟩, ⟨2⟩, ⟨1⟩]
    let arena : Arena := ⟨#[.expr (.str "\x7b" .plain), .expr (.ident "x"),
      .expr (.str "\x7d\"\\" .raw), .expr (.interpolated parts)]⟩
    let view : View := ⟨⟨arena, ⟨3⟩⟩, .cpp, {}⟩
    let text := "std::format(\"\x7b\x7b\x7b\x7d\x7d\x7d\\\"\\\\\x7b\x7d\", x, x)"
    view.lang = .cpp ∧ view.arena.expr ⟨3⟩ = .ok (.interpolated parts) ∧
      view.exprTo 2 ⟨3⟩ {} = .ok text {} ∧
      ∃ (segments : List Segment) (literal : String) (format : List Char),
        Site.RendersSegments ⟨view, view.exprTo 1⟩ parts {} segments {} ∧
        text = "std::format(" ++
          ", ".intercalate (literal :: segments.filterMap Segment.argument?) ++ ")" ∧
        (∀ rest, Text.readQuoted? (literal.toList ++ rest) = some (format, rest)) ∧
        Cpp.readFormat? format = some (segments.flatMap Segment.items) ∧
        (segments.flatMap Segment.items).count .place =
          (segments.filterMap Segment.argument?).length := by
  intro parts arena view text
  have hwritten : view.exprTo 2 ⟨3⟩ {} = .ok text {} := rfl
  exact ⟨rfl, rfl, hwritten, (View.format_reads rfl rfl 1 {}).2 text {} hwritten⟩

end Interlingua
