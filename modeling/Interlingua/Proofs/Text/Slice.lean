import Interlingua.Language.Basic
import Interlingua.Proofs.Text.Lines
import Interlingua.Text.Slice
import Mathlib.Algebra.Ring.Nat

/-!
# Parts of a text between blanks

* `Text.slice?_eq_some_iff` — which part of a text a slice is.
* `Text.Shows` — from some byte on, a text shows given words with a single blank between any two.
* `Text.Shows.left`, `Text.Shows.right` — some of the words are shown first, and the others after
  them and a blank.
* `Text.Shows.slice?` — a word that is shown is the slice between its offsets.
* `Text.trim_identifier`, `Text.trim_numeral` — names and numerals have no blank at their ends, so
  that trimming leaves them as they are.
-/

namespace Interlingua.Text

/-- The length of a text in bytes. -/
def bytes (s : List Char) : Nat := (s.map Char.utf8Size).sum

@[simp] theorem bytes_nil : bytes [] = 0 := rfl

@[simp] theorem bytes_cons (c : Char) (s : List Char) : bytes (c :: s) = c.utf8Size + bytes s := by
  simp [bytes]

@[simp] theorem bytes_append (s t : List Char) : bytes (s ++ t) = bytes s + bytes t := by
  simp [bytes]

theorem dropBytes?_zero (s : List Char) : dropBytes? 0 s = some s := by
  cases s <;> rfl

theorem dropBytes?_cons {n : Nat} (hn : 0 < n) (c : Char) (s : List Char) :
    dropBytes? n (c :: s) = if c.utf8Size ≤ n then dropBytes? (n - c.utf8Size) s else none := by
  obtain ⟨n, rfl⟩ := Nat.exists_eq_succ_of_ne_zero hn.ne'
  rfl

theorem takeBytes?_zero (s : List Char) : takeBytes? 0 s = some [] := by
  cases s <;> rfl

theorem takeBytes?_cons {n : Nat} (hn : 0 < n) (c : Char) (s : List Char) :
    takeBytes? n (c :: s) =
      if c.utf8Size ≤ n then (takeBytes? (n - c.utf8Size) s).map (c :: ·) else none := by
  obtain ⟨n, rfl⟩ := Nat.exists_eq_succ_of_ne_zero hn.ne'
  rfl

theorem dropBytes?_append (s rest : List Char) : dropBytes? (bytes s) (s ++ rest) = some rest := by
  induction s with
  | nil => exact dropBytes?_zero rest
  | cons c s ih =>
    have hpos := c.utf8Size_pos
    rw [bytes_cons, List.cons_append, dropBytes?_cons (by omega), if_pos (by omega),
      Nat.add_sub_cancel_left, ih]

theorem takeBytes?_append (s rest : List Char) : takeBytes? (bytes s) (s ++ rest) = some s := by
  induction s with
  | nil => exact takeBytes?_zero rest
  | cons c s ih =>
    have hpos := c.utf8Size_pos
    rw [bytes_cons, List.cons_append, takeBytes?_cons (by omega), if_pos (by omega),
      Nat.add_sub_cancel_left, ih, Option.map_some]

/-- The slice between the offsets of a part is that part. -/
theorem slice?_append (front part back : List Char) :
    slice? (front ++ part ++ back) (bytes front) (bytes front + bytes part) = some part := by
  rw [slice?, if_pos (Nat.le_add_right _ _), List.append_assoc, dropBytes?_append, Option.bind_some,
    Nat.add_sub_cancel_left, takeBytes?_append]

theorem dropBytes?_eq_some_iff {n : Nat} {s rest : List Char} :
    dropBytes? n s = some rest ↔ ∃ front, s = front ++ rest ∧ bytes front = n := by
  constructor
  · intro h
    induction s generalizing n with
    | nil =>
      cases n with
      | zero =>
        cases h
        exact ⟨[], rfl, rfl⟩
      | succ n => cases h
    | cons c s ih =>
      cases n with
      | zero =>
        cases h
        exact ⟨[], rfl, rfl⟩
      | succ n =>
        rw [dropBytes?_cons n.succ_pos, Option.ite_none_right_eq_some] at h
        obtain ⟨front, rfl, hfront⟩ := ih h.2
        exact ⟨c :: front, rfl, by rw [bytes_cons]; omega⟩
  · rintro ⟨front, rfl, rfl⟩
    exact dropBytes?_append front rest

theorem takeBytes?_eq_some_iff {n : Nat} {s part : List Char} :
    takeBytes? n s = some part ↔ ∃ back, s = part ++ back ∧ bytes part = n := by
  constructor
  · intro h
    induction s generalizing n part with
    | nil =>
      cases n with
      | zero =>
        cases h
        exact ⟨[], rfl, rfl⟩
      | succ n => cases h
    | cons c s ih =>
      cases n with
      | zero =>
        cases h
        exact ⟨c :: s, rfl, rfl⟩
      | succ n =>
        rw [takeBytes?_cons n.succ_pos, Option.ite_none_right_eq_some,
          Option.map_eq_some_iff] at h
        obtain ⟨hle, rest, hrest, rfl⟩ := h
        obtain ⟨back, rfl, hback⟩ := ih hrest
        exact ⟨back, rfl, by rw [bytes_cons]; omega⟩
  · rintro ⟨back, rfl, rfl⟩
    exact takeBytes?_append part back

/-- **A slice is the part of the text between two offsets**; offsets at which no part starts and
ends name none. -/
theorem slice?_eq_some_iff {s part : List Char} {start stop : Nat} :
    slice? s start stop = some part ↔
      ∃ front back, s = front ++ part ++ back ∧ bytes front = start ∧
        bytes (front ++ part) = stop := by
  constructor
  · intro h
    simp only [slice?, Option.ite_none_right_eq_some, Option.bind_eq_some_iff] at h
    obtain ⟨hle, rest, hdrop, htake⟩ := h
    obtain ⟨front, rfl, hfront⟩ := dropBytes?_eq_some_iff.1 hdrop
    obtain ⟨back, rfl, hpart⟩ := takeBytes?_eq_some_iff.1 htake
    refine ⟨front, back, by simp, hfront, ?_⟩
    rw [bytes_append]
    omega
  · rintro ⟨front, back, rfl, rfl, rfl⟩
    rw [bytes_append]
    exact slice?_append front part back

/-! ## Words with a blank between any two -/

/-- Words with a blank between any two. -/
def spread (words : List String) : List Char := (" ".intercalate words).toList

theorem spread_singleton (word : String) : spread [word] = word.toList := by
  simp [spread]

theorem spread_cons {word : String} {words : List String} (h : words ≠ []) :
    spread (word :: words) = word.toList ++ ' ' :: spread words := by
  obtain ⟨next, rest, rfl⟩ := List.exists_cons_of_ne_nil h
  simp [spread, String.intercalate_cons_cons]

theorem spread_append {words more : List String} (h : words ≠ []) (h' : more ≠ []) :
    spread (words ++ more) = spread words ++ ' ' :: spread more := by
  induction words with
  | nil => exact absurd rfl h
  | cons word rest ih =>
    by_cases hrest : rest = []
    · rw [hrest, List.singleton_append, spread_cons h', spread_singleton]
    · rw [List.cons_append, spread_cons (by simp [hrest]), spread_cons hrest, ih hrest]
      simp

/-- From the byte at an offset on, a text shows words with a blank between any two. -/
def Shows (source : List Char) (offset : Nat) (words : List String) : Prop :=
  ∃ front back, source = front ++ spread words ++ back ∧ bytes front = offset

namespace Shows

variable {source : List Char} {offset : Nat} {words more : List String}

theorem all (words : List String) : Shows (spread words) 0 words := ⟨[], [], by simp, rfl⟩

theorem left (h : Shows source offset (words ++ more)) (hw : words ≠ []) (hm : more ≠ []) :
    Shows source offset words := by
  obtain ⟨front, back, rfl, hfront⟩ := h
  refine ⟨front, ' ' :: spread more ++ back, ?_, hfront⟩
  rw [spread_append hw hm]
  simp

theorem right (h : Shows source offset (words ++ more)) (hw : words ≠ []) (hm : more ≠ []) :
    Shows source (offset + bytes (spread words) + 1) more := by
  obtain ⟨front, back, rfl, hfront⟩ := h
  refine ⟨front ++ spread words ++ [' '], back, ?_, ?_⟩
  · rw [spread_append hw hm]
    simp
  · have hblank : Char.utf8Size ' ' = 1 := by decide
    simp only [bytes_append, bytes_cons, bytes_nil, hfront, hblank]

theorem slice? {word : String} (h : Shows source offset [word]) :
    Text.slice? source offset (offset + bytes word.toList) = some word.toList := by
  obtain ⟨front, back, rfl, rfl⟩ := h
  rw [spread_singleton, slice?_append]

end Shows

/-! ## Words without blanks at their ends -/

/-- A character is in no range that is apart from those it is in. -/
theorem not_inRanges_of_apart {ranges others : List (Nat × Nat)} {c : Char}
    (hapart : ranges.all fun r => others.all fun o => Nat.blt r.2 o.1 || Nat.blt o.2 r.1)
    (h : inRanges ranges c = true) : inRanges others c = false := by
  obtain ⟨r, hr, hin⟩ := List.any_eq_true.1 h
  rw [inRanges, List.any_eq_false]
  intro o ho hout
  have horder := List.all_eq_true.1 (List.all_eq_true.1 hapart r hr) o ho
  simp only [Bool.or_eq_true, Nat.blt_eq, Bool.and_eq_true, decide_eq_true_eq] at horder hin hout
  omega

theorem inRanges_of_isDigit {c : Char} (h : c.isDigit = true) :
    inRanges [(0x30, 0x39)] c = true := by
  simpa [inRanges, Char.isDigit, UInt32.le_iff_toNat_le] using h

theorem inRanges_of_isAlpha {c : Char} (h : c.isAlpha = true) :
    inRanges [(0x41, 0x5A), (0x61, 0x7A)] c = true := by
  delta Char.isAlpha Char.isUpper Char.isLower at h
  simpa [inRanges, UInt32.le_iff_toNat_le] using h

theorem not_blank_of_isDigit {c : Char} (h : c.isDigit = true) : isBlank c = false :=
  not_inRanges_of_apart (by decide) (inRanges_of_isDigit h)

theorem not_blank_of_isLetter {c : Char} (h : isLetter c = true) : isBlank c = false := by
  rw [isLetter] at h
  split at h
  · exact not_inRanges_of_apart (by decide) (inRanges_of_isAlpha h)
  · exact not_inRanges_of_apart (by decide +kernel) h

theorem not_blank_of_isNumeral {c : Char} (h : isNumeral c = true) : isBlank c = false := by
  rw [isNumeral] at h
  split at h
  · exact not_blank_of_isDigit h
  · exact not_inRanges_of_apart rfl h

theorem trim_identifier {name : String} (h : Language.isIdentifier name = true) :
    trim name.toList = name.toList := by
  refine trim_of_forall fun c hc => ?_
  unfold Language.isIdentifier at h
  split at h
  · cases h
  · rename_i first rest heq
    rw [heq] at hc
    simp only [Bool.and_eq_true, Bool.or_eq_true, beq_iff_eq, List.all_eq_true] at h
    rcases List.mem_cons.1 hc with rfl | hc
    · rcases h.1 with hletter | rfl
      · exact not_blank_of_isLetter hletter
      · decide
    · rcases h.2 c hc with (hletter | hnumeral) | rfl
      · exact not_blank_of_isLetter hletter
      · exact not_blank_of_isNumeral hnumeral
      · decide

theorem trim_numeral (n : Nat) : trim (numeral n).toList = (numeral n).toList := by
  have hchars : (numeral n).toList = Nat.toDigits 10 n := by simp [numeral, numeralChars]
  rw [hchars]
  exact trim_of_forall fun c hc => not_blank_of_isDigit (isDigit_of_mem_digits hc)

end Interlingua.Text
