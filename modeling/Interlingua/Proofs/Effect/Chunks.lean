import Interlingua.Proofs.Surface.Scan
import Interlingua.Emit.Render
import Mathlib.Algebra.Ring.Nat
import Mathlib.Data.List.Chain
import Mathlib.Data.List.Count

/-!
# Texts made of chunks

The text of an expression is made of chunks: marks, words of its own, and the texts of what is below
it.

* `Text.calls` — how often a name is followed by an opening parenthesis in a text.
* `Text.Mentions` — a name is one of the words of a text.
* `Strung` — chunks can stand next to each other: no two words run together, and no parenthesis is
  opened right after the text of another expression.
* `Strung.count_eq` — then a name that no chunk mentions is called as often as the texts below say.
* `Spelled` — a text is made of such chunks.  There is one rule for each way of putting them together.
-/

namespace Interlingua

open Surface

/-! ## The words of a text -/

namespace Text

/-- The words that end inside a text, each with the character that ends it.  One may have begun
before the text. -/
def finished (word : List Char) : List Char → List (List Char × Char)
  | [] => []
  | c :: rest =>
    if isNameChar c then finished (word ++ [c]) rest else (word, c) :: finished [] rest

/-- The word that a text breaks off in. -/
def lastWord (word : List Char) : List Char → List Char
  | [] => word
  | c :: rest => if isNameChar c then lastWord (word ++ [c]) rest else lastWord [] rest

/-- How often a name is followed by an opening parenthesis. -/
def calls (name text : String) : Nat := (finished [] text.toList).count (name.toList, '(')

/-- A name is one of the words of a text. -/
def Mentions (name text : String) : Prop :=
  name.toList ∈ (finished [] text.toList).map Prod.fst ∨ lastWord [] text.toList = name.toList

instance (name text : String) : Decidable (Mentions name text) :=
  inferInstanceAs (Decidable (_ ∨ _))

/-- A text with no character of a name in it. -/
def IsMark (text : String) : Prop :=
  text.toList ≠ [] ∧ text.toList.all (fun c => !isNameChar c) = true

instance (text : String) : Decidable (IsMark text) := inferInstanceAs (Decidable (_ ∧ _))

/-- All characters are characters of names, and there are some. -/
def IsWord (name : String) : Prop := name.toList ≠ [] ∧ name.toList.all isNameChar = true

instance (name : String) : Decidable (IsWord name) := inferInstanceAs (Decidable (_ ∧ _))

variable {word text more : List Char} {name : String} {c : Char}

theorem finished_append (word text more : List Char) :
    finished word (text ++ more) = finished word text ++ finished (lastWord word text) more := by
  induction text generalizing word with
  | nil => rfl
  | cons c rest ih =>
    simp only [List.cons_append, finished, lastWord]
    split
    · exact ih _
    · rw [ih, List.cons_append]

theorem lastWord_append (word text more : List Char) :
    lastWord word (text ++ more) = lastWord (lastWord word text) more := by
  induction text generalizing word with
  | nil => rfl
  | cons c rest ih =>
    simp only [List.cons_append, lastWord]
    split
    · exact ih _
    · exact ih _

theorem finished_of_all (h : text.all isNameChar = true) : finished word text = [] := by
  induction text generalizing word with
  | nil => rfl
  | cons c rest ih =>
    rw [List.all_cons, Bool.and_eq_true] at h
    rw [finished, if_pos h.1]
    exact ih h.2

theorem lastWord_of_all (h : text.all isNameChar = true) : lastWord word text = word ++ text := by
  induction text generalizing word with
  | nil => simp [lastWord]
  | cons c rest ih =>
    rw [List.all_cons, Bool.and_eq_true] at h
    rw [lastWord, if_pos h.1, ih h.2, List.append_assoc, List.singleton_append]

/-- What a mark ends is the word before it. -/
theorem finished_mark (word : List Char) {mark : String} (h : IsMark mark) :
    ∃ first rest, mark.toList = first :: rest ∧ ∃ others : List Char,
      finished word mark.toList = (word, first) :: others.map fun c => ([], c) := by
  have hnone : ∀ text : List Char, text.all (fun c => !isNameChar c) = true →
      finished [] text = text.map fun c => ([], c) := by
    intro text htext
    induction text with
    | nil => rfl
    | cons c rest ih =>
      simp only [List.all_cons, Bool.and_eq_true, Bool.not_eq_true'] at htext
      rw [finished, if_neg (by simp [htext.1]), ih htext.2, List.map_cons]
  obtain ⟨hne, hall⟩ := h
  obtain ⟨first, rest, hchars⟩ := List.exists_cons_of_ne_nil hne
  rw [hchars, List.all_cons, Bool.and_eq_true, Bool.not_eq_true'] at hall
  refine ⟨first, rest, hchars, rest, ?_⟩
  rw [hchars, finished, if_neg (by simp [hall.1]), hnone rest hall.2]

theorem lastWord_mark {mark : String} (h : IsMark mark) : lastWord word mark.toList = [] := by
  have hnone : ∀ text : List Char, text.all (fun c => !isNameChar c) = true →
      lastWord [] text = [] := by
    intro text htext
    induction text with
    | nil => rfl
    | cons c rest ih =>
      simp only [List.all_cons, Bool.and_eq_true, Bool.not_eq_true'] at htext
      rw [lastWord, if_neg (by simp [htext.1])]
      exact ih htext.2
  obtain ⟨hne, hall⟩ := h
  obtain ⟨first, rest, hchars⟩ := List.exists_cons_of_ne_nil hne
  rw [hchars, List.all_cons, Bool.and_eq_true, Bool.not_eq_true'] at hall
  rw [hchars, lastWord, if_neg (by simp [hall.1])]
  exact hnone rest hall.2

/-- After a mark, a word begins. -/
theorem count_finished_mark {mark : String} (h : IsMark mark) (hname : name.toList ≠ []) :
    (finished word mark.toList).count (name.toList, '(') =
      if word = name.toList ∧ mark.toList.head? = some '(' then 1 else 0 := by
  obtain ⟨first, rest, hchars, others, hfinished⟩ := finished_mark word h
  have hothers : (others.map fun c => (([] : List Char), c)).count (name.toList, '(') = 0 := by
    rw [List.count_eq_zero]
    intro hmem
    obtain ⟨c, -, heq⟩ := List.mem_map.1 hmem
    exact hname (congrArg Prod.fst heq).symm
  rw [hfinished, List.count_cons, hothers, hchars]
  simp [and_comm]

theorem calls_eq_zero {text : String} (h : ¬ Mentions name text) : calls name text = 0 := by
  rw [calls, List.count_eq_zero]
  exact fun hmem => h (.inl (List.mem_map.2 ⟨_, hmem, rfl⟩))

/-- What two texts with a mark between them mention, one of them does. -/
theorem not_mentions_join {text mark more : String} (hname : name.toList ≠ []) (hmark : IsMark mark)
    (h : ¬ Mentions name text) (h' : ¬ Mentions name more) :
    ¬ Mentions name (text ++ mark ++ more) := by
  obtain ⟨first, rest, -, others, hfinished⟩ :=
    finished_mark (lastWord [] text.toList) hmark
  unfold Mentions at h h' ⊢
  simp only [not_or] at h h' ⊢
  have hlast : lastWord [] (text.toList ++ mark.toList) = [] := by
    rw [lastWord_append, lastWord_mark hmark]
  rw [String.toList_append, String.toList_append, finished_append, finished_append, hlast,
    lastWord_append, hlast, hfinished]
  refine ⟨?_, h'.2⟩
  simp only [List.map_append, List.map_cons, List.mem_append, List.mem_cons, List.map_map, not_or]
  refine ⟨⟨h.1, Ne.symm h.2, fun hmem => ?_⟩, h'.1⟩
  obtain ⟨c, -, hc⟩ := List.mem_map.1 hmem
  exact hname hc.symm

theorem not_mentions_nil (hname : name.toList ≠ []) : ¬ Mentions name "" := by
  rintro (hmem | hlast)
  · cases hmem
  · exact hname hlast.symm

theorem not_mentions_before {text mark : String} (hname : name.toList ≠ []) (hmark : IsMark mark)
    (h : ¬ Mentions name text) : ¬ Mentions name (text ++ mark) := by
  have hall := not_mentions_join hname hmark h (not_mentions_nil hname)
  rwa [String.append_empty] at hall

theorem not_mentions_commas (hname : name.toList ≠ []) {texts : List String}
    (h : ∀ text ∈ texts, ¬ Mentions name text) : ¬ Mentions name (commas texts) := by
  induction texts with
  | nil => exact not_mentions_nil hname
  | cons text rest ih =>
    have htext := h text (by simp)
    have hrest := ih fun text htext => h text (List.mem_cons_of_mem _ htext)
    cases rest with
    | nil => simpa [commas] using htext
    | cons next rest =>
      rw [commas, String.intercalate_cons_cons]
      exact not_mentions_join hname (by decide) htext hrest

/-- What is called is a name if it breaks off in this name. -/
theorem calls_called {target inner : String} (hname : name.toList ≠ []) :
    calls name (target ++ parenthesized inner) = calls name target +
      (if lastWord [] target.toList = name.toList then 1 else 0) + calls name inner := by
  have hopen : IsMark "(" := by decide
  have hclose : IsMark ")" := by decide
  have hhead : "(".toList.head? = some '(' := by decide
  have hend : ∀ word, (finished word ")".toList).count (name.toList, '(') = 0 := by
    intro word
    rw [count_finished_mark hclose hname]
    exact if_neg fun hboth => absurd hboth.2 (by decide)
  rw [calls, parenthesized, String.toList_append, String.toList_append, String.toList_append,
    finished_append, finished_append, finished_append, List.count_append, List.count_append,
    List.count_append, lastWord_mark hopen, hend, count_finished_mark hopen hname, calls, calls]
  simp only [hhead, and_true]
  omega

theorem lastWord_called (target inner : String) :
    lastWord [] (target ++ parenthesized inner).toList = [] := by
  simp only [parenthesized, String.toList_append, lastWord_append,
    lastWord_mark (by decide : IsMark ")")]

end Text

/-! ## Chunks -/

/-- A chunk of the text of an expression. -/
inductive Chunk where
  /-- What stands between words. -/
  | mark (text : String)
  /-- A word of the expression itself. -/
  | word (text : String)
  /-- The text of an expression below, and the nodes whose texts stand in it. -/
  | hole (id : NodeId) (text : String) (nodes : List NodeId)

namespace Chunk

def text : Chunk → String
  | .mark text | .word text | .hole _ text _ => text

@[simp] theorem text_mark (text : String) : (mark text).text = text := rfl

@[simp] theorem text_word (text : String) : (word text).text = text := rfl

@[simp] theorem text_hole (id : NodeId) (text : String) (nodes : List NodeId) :
    (hole id text nodes).text = text := rfl

/-- What stands below the chunk. -/
def id? : Chunk → Option NodeId
  | .hole id _ _ => some id
  | _ => none

def nodes : Chunk → List NodeId
  | .hole _ _ nodes => nodes
  | _ => []

/-- How often a name is called in the texts below. -/
def calls (name : String) : Chunk → Nat
  | .hole _ text _ => Text.calls name text
  | _ => 0

/-- Two chunks can stand next to each other. -/
def Apart : Chunk → Chunk → Prop
  | .hole .., .mark text => text.toList.head? ≠ some '('
  | _, .mark _ | .mark _, _ => True
  | _, _ => False

def textAll (chunks : List Chunk) : String := String.join (chunks.map text)

@[simp] theorem textAll_nil : textAll [] = "" := rfl

@[simp] theorem textAll_cons (chunk : Chunk) (rest : List Chunk) :
    textAll (chunk :: rest) = chunk.text ++ textAll rest := by
  simp [textAll, String.join_cons]

@[simp] theorem textAll_append (chunks more : List Chunk) :
    textAll (chunks ++ more) = textAll chunks ++ textAll more := by
  simp [textAll, String.join_append]

end Chunk

/-- Chunks that can stand next to each other.  Words are an expression's own, and the texts below it
have a property. -/
structure Strung (own : String → Prop) (below : NodeId → String → List NodeId → Prop)
    (chunks : List Chunk) : Prop where
  marks : ∀ text, .mark text ∈ chunks → Text.IsMark text
  words : ∀ text, .word text ∈ chunks → own text
  holes : ∀ id text nodes, .hole id text nodes ∈ chunks → below id text nodes
  apart : chunks.IsChain Chunk.Apart

namespace Strung

variable {own : String → Prop} {below : NodeId → String → List NodeId → Prop}
  {chunks more : List Chunk} {name : String}

theorem tail {chunk : Chunk} (h : Strung own below (chunk :: chunks)) : Strung own below chunks where
  marks text htext := h.marks text (List.mem_cons_of_mem _ htext)
  words text htext := h.words text (List.mem_cons_of_mem _ htext)
  holes id text nodes hhole := h.holes id text nodes (List.mem_cons_of_mem _ hhole)
  apart := h.apart.tail

theorem append (h : Strung own below chunks) (h' : Strung own below more)
    (hapart : ∀ last ∈ chunks.getLast?, ∀ next ∈ more.head?, last.Apart next) :
    Strung own below (chunks ++ more) where
  marks text htext := (List.mem_append.1 htext).elim (h.marks text) (h'.marks text)
  words text htext := (List.mem_append.1 htext).elim (h.words text) (h'.words text)
  holes id text nodes hhole :=
    (List.mem_append.1 hhole).elim (h.holes id text nodes) (h'.holes id text nodes)
  apart := List.isChain_append.2 ⟨h.apart, h'.apart, hapart⟩

theorem mark {text : String} (h : Text.IsMark text) : Strung own below [.mark text] :=
  ⟨by simpa using h, by simp, by simp, .singleton _⟩

theorem word {text : String} (h : own text) : Strung own below [.word text] :=
  ⟨by simp, by simpa using h, by simp, .singleton _⟩

theorem hole {id : NodeId} {text : String} {nodes : List NodeId} (h : below id text nodes) :
    Strung own below [.hole id text nodes] := by
  refine ⟨by simp, by simp, fun id' text' nodes' hmem => ?_, .singleton _⟩
  cases List.mem_singleton.1 hmem
  exact h

/-- Chunks after a mark. -/
theorem after {text : String} (htext : Text.IsMark text) (h : Strung own below chunks) :
    Strung own below (.mark text :: chunks) := by
  refine (mark htext).append h fun last hlast next _ => ?_
  cases hlast
  cases next <;> trivial

/-- A mark after chunks.  Unless they end in a word, it opens no parenthesis. -/
theorem before {text : String} (h : Strung own below chunks) (htext : Text.IsMark text)
    (hopen : text.toList.head? ≠ some '(') : Strung own below (chunks ++ [.mark text]) := by
  refine h.append (mark htext) fun last _ next hnext => ?_
  cases hnext
  cases last with
  | hole id text nodes => exact hopen
  | mark text | word text => trivial

/-- What a chunk can stand after: before a word, none has begun, and where a name is not to be
called, no parenthesis is opened. -/
def Fits (name : String) (word : List Char) : Chunk → Prop
  | .mark text => word = name.toList → text.toList.head? ≠ some '('
  | .word _ | .hole .. => word = []

section Calls

variable (hname : name.toList ≠ []) (hfree : ∀ text, .word text ∈ chunks → ¬ Text.Mentions name text)
include hname

/-- A text may start with any chunk. -/
theorem Fits.start (chunk : Chunk) : Fits name [] chunk := by
  cases chunk with
  | mark text => exact fun hnil => absurd hnil.symm hname
  | word text | hole id text nodes => rfl

include hfree

/-- What follows a chunk fits after it. -/
theorem Fits.next {chunk next : Chunk} {word : List Char} (hstrung : Strung own below chunks)
    (hchunk : chunk ∈ chunks) (hapart : chunk.Apart next) (h : Fits name word chunk) :
    Fits name (Text.lastWord word chunk.text.toList) next := by
  cases chunk with
  | mark text =>
    rw [Chunk.text_mark, Text.lastWord_mark (hstrung.marks text hchunk)]
    cases next with
    | mark other => exact fun hnil => absurd hnil.symm hname
    | word other | hole id other nodes => exact rfl
  | word text =>
    cases h
    cases next with
    | mark other => exact fun heq => absurd (.inr heq) (hfree text hchunk)
    | word other | hole id other nodes => exact hapart.elim
  | hole id text nodes =>
    cases next with
    | mark other => exact fun _ => hapart
    | word other | hole id other nodes => exact hapart.elim

/-- How often a name is called in one chunk. -/
theorem Fits.count_eq {chunk : Chunk} {word : List Char} (hstrung : Strung own below chunks)
    (hchunk : chunk ∈ chunks) (h : Fits name word chunk) :
    (Text.finished word chunk.text.toList).count (name.toList, '(') = chunk.calls name := by
  cases chunk with
  | mark text =>
    rw [Chunk.text_mark, Text.count_finished_mark (hstrung.marks text hchunk) hname]
    exact if_neg fun hboth => h hboth.1 hboth.2
  | word text =>
    cases h
    exact Text.calls_eq_zero (hfree text hchunk)
  | hole id text nodes =>
    cases h
    rfl

end Calls

/-- **A name that no chunk mentions is called as often as the texts below say.** -/
theorem count_eq (hname : name.toList ≠ []) (h : Strung own below chunks)
    (hfree : ∀ text, .word text ∈ chunks → ¬ Text.Mentions name text) {word : List Char}
    (hfits : ∀ chunk ∈ chunks.head?, Fits name word chunk) :
    (Text.finished word (Chunk.textAll chunks).toList).count (name.toList, '(') =
      (chunks.map (Chunk.calls name)).sum := by
  induction chunks generalizing word with
  | nil => rfl
  | cons chunk rest ih =>
    have hchunk := hfits chunk rfl
    have hmem : chunk ∈ chunk :: rest := List.mem_cons_self
    rw [Chunk.textAll_cons, String.toList_append, Text.finished_append, List.count_append,
      hchunk.count_eq hname hfree h hmem, List.map_cons, List.sum_cons]
    refine congrArg _ (ih h.tail (fun text htext => hfree text (List.mem_cons_of_mem _ htext)) ?_)
    intro next hnext
    obtain ⟨more, rfl⟩ := List.head?_eq_some_iff.1 hnext
    exact hchunk.next hname hfree h hmem (List.isChain_cons_cons.1 h.apart).1

/-- A text breaks off in a name that no chunk mentions only if a text below does. -/
theorem exists_of_lastWord_eq (hname : name.toList ≠ []) (h : Strung own below chunks)
    (hfree : ∀ text, .word text ∈ chunks → ¬ Text.Mentions name text) {word : List Char}
    (hfits : ∀ chunk ∈ chunks.head?, Fits name word chunk) (hword : word ≠ name.toList)
    (hlast : Text.lastWord word (Chunk.textAll chunks).toList = name.toList) :
    ∃ id text nodes, .hole id text nodes ∈ chunks ∧
      Text.lastWord [] text.toList = name.toList := by
  induction chunks generalizing word with
  | nil => exact absurd hlast hword
  | cons chunk rest ih =>
    have hchunk := hfits chunk rfl
    have hmem : chunk ∈ chunk :: rest := List.mem_cons_self
    rw [Chunk.textAll_cons, String.toList_append, Text.lastWord_append] at hlast
    by_cases hhere : Text.lastWord word chunk.text.toList = name.toList
    · cases chunk with
      | mark text =>
        rw [Chunk.text_mark, Text.lastWord_mark (h.marks text hmem)] at hhere
        exact absurd hhere.symm hname
      | word text =>
        cases hchunk
        exact absurd (.inr hhere) (hfree text hmem)
      | hole id text nodes =>
        cases hchunk
        exact ⟨id, text, nodes, hmem, hhere⟩
    · obtain ⟨id, text, nodes, hhole, hfound⟩ := ih h.tail
        (fun text htext => hfree text (List.mem_cons_of_mem _ htext)) (by
          intro next hnext
          obtain ⟨more, rfl⟩ := List.head?_eq_some_iff.1 hnext
          exact hchunk.next hname hfree h hmem (List.isChain_cons_cons.1 h.apart).1) hhere hlast
      exact ⟨id, text, nodes, List.mem_cons_of_mem _ hhole, hfound⟩

end Strung

/-! ## Texts that are spelled -/

/-- A text is made of chunks that can stand next to each other, with the texts of some expressions
among them. -/
def Spelled (own : String → Prop) (below : NodeId → String → List NodeId → Prop)
    (ids : List NodeId) (text : String) : Prop :=
  ∃ chunks, Strung own below chunks ∧ chunks.filterMap Chunk.id? = ids ∧
    text = Chunk.textAll chunks

namespace Spelled

variable {own : String → Prop} {below : NodeId → String → List NodeId → Prop}
  {ids others : List NodeId} {text more between front : String} {id : NodeId} {nodes : List NodeId}

theorem nil : Spelled own below [] "" :=
  ⟨[], ⟨by simp, by simp, by simp, .nil⟩, rfl, rfl⟩

theorem hole (h : below id text nodes) : Spelled own below [id] text :=
  ⟨[.hole id text nodes], .hole h, rfl, by simp⟩

theorem word (h : own text) : Spelled own below [] text :=
  ⟨[.word text], .word h, rfl, by simp⟩

theorem mark (h : Text.IsMark text) : Spelled own below [] text :=
  ⟨[.mark text], .mark h, rfl, by simp⟩

/-- A text after a mark. -/
theorem after (hmark : Text.IsMark front) (h : Spelled own below ids text) :
    Spelled own below ids (front ++ text) := by
  obtain ⟨chunks, h, rfl, rfl⟩ := h
  exact ⟨.mark front :: chunks, h.after hmark, rfl, by simp⟩

/-- A text after a word and a mark, which may open a parenthesis. -/
theorem headed (hword : own front) (hmark : Text.IsMark between) (h : Spelled own below ids text) :
    Spelled own below ids (front ++ between ++ text) := by
  obtain ⟨chunks, h, rfl, rfl⟩ := h
  refine ⟨[Chunk.word front] ++ .mark between :: chunks, ?_, rfl, by simp [String.append_assoc]⟩
  refine (Strung.word hword).append (h.after hmark) fun last hlast next hnext => ?_
  cases hlast
  cases hnext
  trivial

/-- A text before a mark, which opens no parenthesis. -/
theorem before (h : Spelled own below ids text) (hmark : Text.IsMark between)
    (hopen : between.toList.head? ≠ some '(') : Spelled own below ids (text ++ between) := by
  obtain ⟨chunks, h, rfl, rfl⟩ := h
  exact ⟨chunks ++ [Chunk.mark between], h.before hmark hopen, by simp [Chunk.id?], by simp⟩

/-- Two texts with a mark between them. -/
theorem join (h : Spelled own below ids text) (hmark : Text.IsMark between)
    (hopen : between.toList.head? ≠ some '(') (h' : Spelled own below others more) :
    Spelled own below (ids ++ others) (text ++ between ++ more) := by
  obtain ⟨chunks, h, rfl, rfl⟩ := h
  obtain ⟨rest, h', rfl, rfl⟩ := h'
  refine ⟨chunks ++ [Chunk.mark between] ++ rest, ?_, by simp [Chunk.id?, List.filterMap_cons],
    by simp [String.append_assoc]⟩
  refine (h.before hmark hopen).append h' fun last hlast next _ => ?_
  rw [List.getLast?_concat] at hlast
  cases hlast
  cases next <;> trivial

/-- Two texts with a word between them, which a blank sets off on either side. -/
theorem infixed {word : String} (h : Spelled own below ids text) (hword : own word)
    (h' : Spelled own below others more) :
    Spelled own below (ids ++ others) (text ++ " " ++ word ++ " " ++ more) := by
  have hblank : Text.IsMark " " := by decide
  have hall := h.join hblank (by decide) ((Spelled.word hword).join hblank (by decide) h')
  simpa [String.append_assoc] using hall

/-- A text between parentheses. -/
theorem parenthesized (h : Spelled own below ids text) :
    Spelled own below ids (Interlingua.parenthesized text) := by
  have hall := (h.before (by decide : Text.IsMark ")") (by decide)).after
    (by decide : Text.IsMark "(")
  simpa [Interlingua.parenthesized, String.append_assoc] using hall

/-- A text between braces. -/
theorem inBraces (h : Spelled own below ids text) :
    Spelled own below ids (Interlingua.inBraces text) := by
  have hall := (h.before (by decide : Text.IsMark "\x7d") (by decide)).after
    (by decide : Text.IsMark "\x7b")
  simpa [Interlingua.inBraces, String.append_assoc] using hall

/-- A text between square brackets. -/
theorem inSquares (h : Spelled own below ids text) :
    Spelled own below ids ("[" ++ text ++ "]") := by
  have hall := (h.before (by decide : Text.IsMark "]") (by decide)).after
    (by decide : Text.IsMark "[")
  simpa [String.append_assoc] using hall

/-- A call of what a word names. -/
theorem called (hword : own front) (h : Spelled own below ids text) :
    Spelled own below ids (front ++ Interlingua.parenthesized text) := by
  have hall := h.before (by decide : Text.IsMark ")") (by decide)
  simpa [Interlingua.parenthesized, String.append_assoc] using
    hall.headed hword (by decide : Text.IsMark "(")

/-- Texts with a mark between any two. -/
theorem intercalate (hmark : Text.IsMark between) (hopen : between.toList.head? ≠ some '(')
    {texts : List String} {groups : List (List NodeId)}
    (h : List.Forall₂ (Spelled own below) groups texts) :
    Spelled own below groups.flatten (between.intercalate texts) := by
  induction h with
  | nil => exact nil
  | @cons group text groups texts hfirst hrest ih =>
    cases hrest with
    | nil => simpa using hfirst
    | cons hnext hmore =>
      rw [String.intercalate_cons_cons, List.flatten_cons]
      exact hfirst.join hmark hopen ih

theorem commas {texts : List String} {groups : List (List NodeId)}
    (h : List.Forall₂ (Spelled own below) groups texts) :
    Spelled own below groups.flatten (Interlingua.commas texts) :=
  intercalate (by decide) (by decide) h

end Spelled

end Interlingua
