import Interlingua.Options
import Mathlib.Data.List.Forall2
import Mathlib.Data.List.Induction

/-!
# The last setting counts

Options are made of settings in a row, and options are merged.  Both ways the later one counts, so
it makes no difference where the settings are cut, nor in which order the pieces are merged.

* `Key.Names` — a text names a key.
* `Options.get?_ofList` — of the settings of a key, the last one counts.
* `Options.ofList_append` — settings in a row are options merged.
* `Options.Builder` — options that are put together pair by pair.
* `Options.Grouping` — segments of pairs, merged two by two.
* `Options.last_writer_wins` — pairs are read up to the first that is refused; if none is, each key
  has the value of the last pair that names it, however the pairs are cut and merged.
-/

namespace Interlingua

/-! ## Keys -/

namespace Key

/-- A text names a key: without the blanks around it, and with dashes for its underscores, it is how
the key is written. -/
def Names (s : String) (key : Key) : Prop :=
  ((Text.trim s.toList).map fun c => if c = '_' then '-' else c) = key.text.toList

instance (s : String) (key : Key) : Decidable (Names s key) := inferInstanceAs (Decidable (_ = _))

theorem mem_all (key : Key) : key ∈ all := by
  cases key with
  | flag name => cases name <;> decide
  | indentWidth => decide

/-- No two keys are written alike. -/
theorem eq_of_text_eq {key other : Key} (h : key.text.toList = other.text.toList) :
    key = other := by
  have hall : ∀ key ∈ all, ∀ other ∈ all, key.text.toList = other.text.toList → key = other := by
    decide
  exact hall key key.mem_all other other.mem_all h

theorem ofText?_eq_some_iff {s : String} {key : Key} : ofText? s = some key ↔ Names s key := by
  have hsound : ∀ found, ofText? s = some found → Names s found := by
    intro found h
    have htext := List.find?_some h
    exact (beq_iff_eq.1 htext).symm
  refine ⟨hsound key, fun h => ?_⟩
  cases hfound : ofText? s with
  | none =>
    have hnone := List.find?_eq_none.1 hfound key key.mem_all
    exact absurd (beq_iff_eq.2 h.symm) hnone
  | some other => rw [eq_of_text_eq ((hsound other hfound).symm.trans h)]

end Key

/-- A setting is read from a pair that names its key. -/
theorem Setting.names_of_parse {key value : String} {setting : Setting}
    (h : parse key value = .ok setting) : Key.Names key setting.key := by
  rw [← Key.ofText?_eq_some_iff]
  unfold parse at h
  cases hkey : Key.ofText? key with
  | none =>
    rw [hkey] at h
    cases h
  | some found =>
    rw [hkey] at h
    cases found with
    | flag name =>
      dsimp only at h
      split at h
      · cases h
        rfl
      · cases h
    | indentWidth =>
      dsimp only at h
      split at h
      · cases h
        rfl
      · cases h

namespace Options

variable {options first second third : Options} {settings more : List Setting}

/-! ## Settings in a row -/

/-- Options with the same setting for each key are the same. -/
theorem eq_of_get?_eq (h : ∀ key, first.get? key = second.get? key) : first = second := by
  have hflag : ∀ name, first.flag? name = second.flag? name := by
    intro name
    have hname := h (.flag name)
    simp only [get?] at hname
    exact Option.map_injective (fun _ _ heq => (Setting.flag.inj heq).2) hname
  have hwidth : first.indentWidth = second.indentWidth := by
    have hkey := h .indentWidth
    simp only [get?] at hkey
    exact Option.map_injective (fun _ _ heq => Setting.indentWidth.inj heq) hkey
  obtain ⟨_, _, _, _, _, _, _⟩ := first
  obtain ⟨_, _, _, _, _, _, _⟩ := second
  simp only [mk.injEq]
  exact ⟨hflag .bracesOnSameLine, hflag .bracesAroundCases, hflag .autoDeclaration,
    hflag .unitMode, hflag .keepComparisons, hflag .expressionMode, hwidth⟩

@[simp] theorem get?_empty (key : Key) : ({} : Options).get? key = none := by
  cases key with
  | flag name => cases name <;> rfl
  | indentWidth => rfl

/-- A setting counts for its own key. -/
theorem get?_put (options : Options) (setting : Setting) (key : Key) :
    (options.put setting).get? key =
      if setting.key = key then some setting else options.get? key := by
  cases setting with
  | flag name value =>
    cases key with
    | flag other => cases name <;> cases other <;> rfl
    | indentWidth => cases name <;> rfl
  | indentWidth width =>
    cases key with
    | flag other => cases other <;> rfl
    | indentWidth => rfl

/-- Where both have a setting for a key, that of the second counts. -/
theorem get?_merge (first second : Options) (key : Key) :
    (first.merge second).get? key = (second.get? key).or (first.get? key) := by
  cases key with
  | flag name => cases name <;> exact Option.map_or
  | indentWidth => exact Option.map_or

@[simp] theorem merge_empty (options : Options) : options.merge {} = options :=
  eq_of_get?_eq fun key => by simp [get?_merge]

@[simp] theorem empty_merge (options : Options) : ({} : Options).merge options = options :=
  eq_of_get?_eq fun key => by simp [get?_merge]

theorem merge_assoc (first second third : Options) :
    (first.merge second).merge third = first.merge (second.merge third) :=
  eq_of_get?_eq fun key => by simp [get?_merge, Option.or_assoc]

/-- One more setting after a merge is one more setting of what came second. -/
theorem merge_put (first second : Options) (setting : Setting) :
    (first.merge second).put setting = first.merge (second.put setting) := by
  refine eq_of_get?_eq fun key => ?_
  rw [get?_put, get?_merge, get?_merge, get?_put]
  split <;> rfl

theorem ofList_concat (settings : List Setting) (setting : Setting) :
    ofList (settings ++ [setting]) = (ofList settings).put setting := by
  simp [ofList, List.foldl_append]

/-- **Settings in a row are options merged.** -/
theorem ofList_append (settings more : List Setting) :
    ofList (settings ++ more) = (ofList settings).merge (ofList more) := by
  induction more using List.reverseRecOn with
  | nil => simp [ofList]
  | append_singleton more setting ih =>
    rw [← List.append_assoc, ofList_concat, ofList_concat, ih, merge_put]

/-- **Of the settings of a key, the last one counts.** -/
theorem get?_ofList (settings : List Setting) (key : Key) :
    (ofList settings).get? key = settings.reverse.find? fun setting => setting.key = key := by
  induction settings using List.reverseRecOn with
  | nil => exact get?_empty key
  | append_singleton settings setting ih =>
    rw [ofList_concat, get?_put, List.reverse_concat, List.find?_cons, ih]
    by_cases hkey : setting.key = key <;> simp [hkey]

/-! ## Pairs -/

/-- Pairs of a key and a value, as they are given. -/
abbrev Pairs := List (String × String)

/-- Options that are put together. -/
structure Builder where
  settings : List Setting := []

namespace Builder

/-- One more setting. -/
def add (builder : Builder) (setting : Setting) : Builder := ⟨builder.settings ++ [setting]⟩

/-- One more pair, unless it is refused. -/
def addPair (builder : Builder) (pair : String × String) : Except OptionError Builder := do
  return builder.add (← Setting.parse pair.1 pair.2)

def build (builder : Builder) : Options := ofList builder.settings

end Builder

/-- The options that pairs make, one after another. -/
def feed (pairs : Pairs) : Except OptionError Options :=
  (pairs.foldlM Builder.addPair {}).map Builder.build

/-- The settings that pairs write. -/
def readAll (pairs : Pairs) : Except OptionError (List Setting) :=
  pairs.mapM fun (key, value) => Setting.parse key value

theorem readAll_cons (pair : String × String) (pairs : Pairs) :
    readAll (pair :: pairs) = (do
      let setting ← Setting.parse pair.1 pair.2
      let settings ← readAll pairs
      return setting :: settings) :=
  List.mapM_cons

theorem readAll_append (pairs more : Pairs) :
    readAll (pairs ++ more) = (do
      let settings ← readAll pairs
      let others ← readAll more
      return settings ++ others) :=
  List.mapM_append

theorem foldlM_addPair (pairs : Pairs) (builder : Builder) :
    pairs.foldlM Builder.addPair builder =
      (readAll pairs).map fun settings => ⟨builder.settings ++ settings⟩ := by
  induction pairs generalizing builder with
  | nil => simp [readAll, pure, Except.pure, Except.map]
  | cons pair pairs ih =>
    rw [List.foldlM_cons, readAll_cons, Builder.addPair]
    cases Setting.parse pair.1 pair.2 with
    | error error => rfl
    | ok setting =>
      simp only [bind, Except.bind, pure, Except.pure, ih]
      cases readAll pairs with
      | error error => rfl
      | ok settings => simp [Except.map, Builder.add]

/-- Pair by pair, the same options are made as from all pairs at once. -/
theorem feed_eq_parse (pairs : Pairs) : feed pairs = parse pairs := by
  rw [feed, foldlM_addPair]
  change _ = (readAll pairs).map ofList
  cases readAll pairs <;> rfl

theorem feed_eq (pairs : Pairs) : feed pairs = (readAll pairs).map ofList := feed_eq_parse pairs

/-- Pairs in a row are options merged. -/
theorem feed_append (pairs more : Pairs) :
    feed (pairs ++ more) = (do
      let first ← feed pairs
      let second ← feed more
      return first.merge second) := by
  rw [feed_eq, feed_eq, feed_eq, readAll_append]
  cases readAll pairs with
  | error error => rfl
  | ok settings =>
    cases readAll more with
    | error error => rfl
    | ok others => exact congrArg Except.ok (ofList_append settings others)

/-! ## Refusals -/

theorem readAll_eq_ok_iff {pairs : Pairs} {settings : List Setting} :
    readAll pairs = .ok settings ↔
      List.Forall₂ (fun pair setting => Setting.parse pair.1 pair.2 = .ok setting)
        pairs settings := by
  induction pairs generalizing settings with
  | nil =>
    constructor
    · intro h
      cases h
      exact .nil
    · intro h
      cases h
      rfl
  | cons pair pairs ih =>
    rw [readAll_cons]
    constructor
    · intro h
      cases hfirst : Setting.parse pair.1 pair.2 with
      | error error =>
        rw [hfirst] at h
        cases h
      | ok setting =>
        rw [hfirst] at h
        cases hrest : readAll pairs with
        | error error =>
          rw [hrest] at h
          cases h
        | ok rest =>
          rw [hrest] at h
          cases h
          exact .cons hfirst (ih.1 hrest)
    · rintro (_ | ⟨hfirst, hrest⟩)
      rw [hfirst, ih.2 hrest]
      rfl

/-- Where all pairs are read, each one is. -/
theorem accepted_of_readAll {pairs : Pairs} {settings : List Setting}
    (h : readAll pairs = .ok settings) :
    ∀ pair ∈ pairs, ∃ setting, Setting.parse pair.1 pair.2 = .ok setting := by
  rw [readAll_eq_ok_iff] at h
  induction h with
  | nil => simp
  | cons hpair _ ih => exact List.forall_mem_cons.2 ⟨⟨_, hpair⟩, ih⟩

/-- Reading fails at the first pair that is refused. -/
theorem readAll_eq_error_iff {pairs : Pairs} {error : OptionError} :
    readAll pairs = .error error ↔ ∃ before pair after, pairs = before ++ pair :: after ∧
      (∀ earlier ∈ before, ∃ setting, Setting.parse earlier.1 earlier.2 = .ok setting) ∧
      Setting.parse pair.1 pair.2 = .error error := by
  constructor
  · induction pairs with
    | nil => intro h; cases h
    | cons pair pairs ih =>
      intro h
      rw [readAll_cons] at h
      cases hfirst : Setting.parse pair.1 pair.2 with
      | error refusal =>
        rw [hfirst] at h
        cases h
        exact ⟨[], pair, pairs, rfl, by simp, hfirst⟩
      | ok setting =>
        rw [hfirst] at h
        cases hrest : readAll pairs with
        | ok settings =>
          rw [hrest] at h
          cases h
        | error refusal =>
          rw [hrest] at h
          cases h
          obtain ⟨before, refused, after, rfl, hbefore, hrefused⟩ := ih hrest
          exact ⟨pair :: before, refused, after, rfl,
            List.forall_mem_cons.2 ⟨⟨setting, hfirst⟩, hbefore⟩, hrefused⟩
  · rintro ⟨before, pair, after, rfl, hbefore, hpair⟩
    have hread : ∃ settings, readAll before = .ok settings := by
      induction before with
      | nil => exact ⟨[], rfl⟩
      | cons earlier before ih =>
        obtain ⟨setting, hsetting⟩ := hbefore earlier List.mem_cons_self
        obtain ⟨settings, hsettings⟩ :=
          ih fun pair hmem => hbefore pair (List.mem_cons_of_mem _ hmem)
        exact ⟨setting :: settings, by rw [readAll_cons, hsetting, hsettings]; rfl⟩
    obtain ⟨settings, hsettings⟩ := hread
    rw [readAll_append, hsettings, readAll_cons, hpair]
    rfl

/-! ## The last pair of a key -/

/-- The last pair that names a key. -/
def lastOf? (key : Key) (pairs : Pairs) : Option (String × String) :=
  pairs.reverse.find? fun pair => Key.Names pair.1 key

/-- The last setting of a key is read from the last pair that names it. -/
theorem find?_reverse_eq {key : Key} {pairs : Pairs}
    (h : List.Forall₂ (fun pair setting => Setting.parse pair.1 pair.2 = .ok setting)
      pairs settings) :
    (settings.reverse.find? fun setting => setting.key = key) =
      (lastOf? key pairs).bind fun pair => (Setting.parse pair.1 pair.2).toOption := by
  unfold lastOf?
  replace h := List.rel_reverse h
  generalize pairs.reverse = latest at h
  generalize settings.reverse = settings at h
  induction h with
  | nil => rfl
  | @cons pair setting pairs settings hpair _ ih =>
    have hnames := Setting.names_of_parse hpair
    have hiff : Key.Names pair.1 key ↔ setting.key = key := by
      constructor
      · intro hkey
        exact Key.eq_of_text_eq (hnames.symm.trans hkey)
      · rintro rfl
        exact hnames
    rw [List.find?_cons, List.find?_cons, ih]
    by_cases hkey : setting.key = key
    · simp [hkey, hiff, hpair, Except.toOption]
    · simp [hkey, hiff]

/-! ## Segments -/

/-- Segments of pairs, merged two by two. -/
inductive Grouping where
  | segment (pairs : Pairs)
  | merged (first second : Grouping)

namespace Grouping

/-- All pairs of the segments, in a row. -/
def pairs : Grouping → Pairs
  | segment pairs => pairs
  | merged first second => first.pairs ++ second.pairs

/-- The options of the segments, merged as they are grouped. -/
def build : Grouping → Except OptionError Options
  | segment pairs => feed pairs
  | merged first second => do
    let options ← first.build
    let others ← second.build
    return options.merge others

theorem build_eq (grouping : Grouping) : grouping.build = feed grouping.pairs := by
  induction grouping with
  | segment pairs => rfl
  | merged first second ih ih' => rw [build, pairs, feed_append, ih, ih']

end Grouping

theorem mergeAll_eq (options : Options) (rest : List Options) :
    rest.foldl merge options = options.merge (mergeAll rest) := by
  unfold mergeAll
  induction rest generalizing options with
  | nil => exact (merge_empty options).symm
  | cons next rest ih =>
    rw [List.foldl_cons, ih, List.foldl_cons, ih (merge {} next), empty_merge, merge_assoc]

/-- Segments merged from left to right are their pairs in a row. -/
theorem mergeAll_segments (segments : List Pairs) :
    (segments.mapM feed).map mergeAll = feed segments.flatten := by
  induction segments with
  | nil => rfl
  | cons segment segments ih =>
    rw [List.flatten_cons, feed_append, ← ih, List.mapM_cons]
    cases feed segment with
    | error error => rfl
    | ok options =>
      cases segments.mapM feed with
      | error error => rfl
      | ok rest =>
        change Except.ok (mergeAll (options :: rest)) = Except.ok (options.merge (mergeAll rest))
        rw [mergeAll, List.foldl_cons, mergeAll_eq, empty_merge]

/-! ## The last writer -/

/-- Pairs are accepted if each is, and then each key has the value of the last pair that names
it. -/
theorem feed_eq_ok_iff {pairs : Pairs} {options : Options} :
    feed pairs = .ok options ↔
      (∀ pair ∈ pairs, ∃ setting, Setting.parse pair.1 pair.2 = .ok setting) ∧
      ∀ key, options.get? key =
        (lastOf? key pairs).bind fun pair => (Setting.parse pair.1 pair.2).toOption := by
  have hread : ∀ {settings}, readAll pairs = .ok settings →
      feed pairs = .ok (ofList settings) ∧ ∀ key, (ofList settings).get? key =
        (lastOf? key pairs).bind fun pair => (Setting.parse pair.1 pair.2).toOption := by
    intro settings hsettings
    refine ⟨by rw [feed_eq, hsettings]; rfl, fun key => ?_⟩
    rw [get?_ofList, find?_reverse_eq (readAll_eq_ok_iff.1 hsettings)]
  cases hall : readAll pairs with
  | ok settings =>
    obtain ⟨hfeed, hget⟩ := hread hall
    rw [hfeed]
    constructor
    · intro h
      cases h
      exact ⟨accepted_of_readAll hall, hget⟩
    · rintro ⟨-, h⟩
      exact congrArg Except.ok (eq_of_get?_eq fun key => (hget key).trans (h key).symm)
  | error error =>
    obtain ⟨before, pair, after, rfl, -, hpair⟩ := readAll_eq_error_iff.1 hall
    rw [feed_eq, hall]
    refine ⟨nofun, fun h => ?_⟩
    obtain ⟨setting, hsetting⟩ := h.1 pair (by simp)
    cases hpair.symm.trans hsetting

/-- **The last writer wins.**  Pairs are fed one after another, up to the first that is refused,
whose error it is; it is the same to read them all at once.  If none is refused, each key has the
setting of the last pair that names it, and no other key has one.  Pairs that are cut into segments
give the same, error or options: whether the options of all segments are merged from left to right,
or two by two in any grouping. -/
theorem last_writer_wins :
    (∀ pairs : Pairs, feed pairs = parse pairs) ∧
    (∀ (pairs : Pairs) (error : OptionError), feed pairs = .error error ↔
      ∃ before pair after, pairs = before ++ pair :: after ∧
        (∀ earlier ∈ before, ∃ setting, Setting.parse earlier.1 earlier.2 = .ok setting) ∧
        Setting.parse pair.1 pair.2 = .error error) ∧
    (∀ (pairs : Pairs) (options : Options), feed pairs = .ok options ↔
      (∀ pair ∈ pairs, ∃ setting, Setting.parse pair.1 pair.2 = .ok setting) ∧
      ∀ key, options.get? key =
        (lastOf? key pairs).bind fun pair => (Setting.parse pair.1 pair.2).toOption) ∧
    (∀ segments : List Pairs, (segments.mapM feed).map mergeAll = feed segments.flatten) ∧
    ∀ grouping : Grouping, grouping.build = feed grouping.pairs := by
  refine ⟨feed_eq_parse, fun pairs error => ?_, fun _ _ => feed_eq_ok_iff, mergeAll_segments,
    Grouping.build_eq⟩
  rw [← readAll_eq_error_iff, feed_eq]
  cases readAll pairs with
  | error refusal => exact ⟨fun h => by cases h; rfl, fun h => by cases h; rfl⟩
  | ok settings => exact ⟨nofun, nofun⟩

/-- Three pairs in two segments: the second value for the braces counts, though its key is spelled
in another way. -/
theorem last_writer_wins_spellings :
    let first : Pairs := [("braces-on-same-line", "no"), ("indent_width", " 2 ")]
    let second : Pairs := [(" braces_on-same_line ", "YES")]
    let options : Options := { bracesOnSameLine := some true, indentWidth := some 2 }
    feed (first ++ second) = .ok options ∧
      lastOf? (.flag .bracesOnSameLine) (first ++ second) = some (" braces_on-same_line ", "YES") ∧
      options.get? (.flag .bracesOnSameLine) = some (.flag .bracesOnSameLine true) ∧
      ([first, second].mapM feed).map mergeAll = .ok options ∧
      (Grouping.merged (.segment first) (.segment second)).build = .ok options := by
  intro first second options
  obtain ⟨-, -, haccepted, hsegments, hgrouping⟩ := last_writer_wins
  have hfeed : feed (first ++ second) = .ok options := by decide
  have hlast : lastOf? (.flag .bracesOnSameLine) (first ++ second) =
      some (" braces_on-same_line ", "YES") := by decide
  obtain ⟨-, hget⟩ := (haccepted _ _).1 hfeed
  refine ⟨hfeed, hlast, ?_, ?_, ?_⟩
  · rw [hget, hlast]
    decide
  · rw [hsegments]
    simpa using hfeed
  · rw [hgrouping]
    exact hfeed

end Options

end Interlingua
