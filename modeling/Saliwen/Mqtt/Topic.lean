import Saliwen.Mqtt.Packet

/-!
# Topic filters

`mqtt_topic_is_matched` compares a topic filter with the topic of a message byte by byte. The
MQTT rules are about levels, the parts between the slashes: `+` stands for one level and a
final `#` for all levels that are left, also for none. The main result says where the two agree.
-/

namespace Saliwen.Mqtt

open CJson (Bytes)

/-- The byte `'/'`. -/
def slash : UInt8 := 47

/-- The byte `'+'`. -/
def plus : UInt8 := 43

/-- The byte `'#'`. -/
def hash : UInt8 := 35

/-- `mqtt_topic_is_matched`, with the C string of the filter and the bytes of the topic. After
`'+'` the topic goes on at the next slash, after `'#'` it is at its end. -/
def mqttTopicIsMatched : Bytes → Bytes → Bool
  | [], name => name.isEmpty
  | _ :: _, [] => false
  | curf :: filter, curn :: name =>
    if curn = slash ∧ curf ≠ slash then false
    else if curf ≠ plus ∧ curf ≠ hash ∧ curf ≠ curn then false
    else if curf = plus then mqttTopicIsMatched filter (name.dropWhile (· ≠ slash))
    else if curf = hash then mqttTopicIsMatched filter []
    else mqttTopicIsMatched filter name

/-- A level of a topic filter other than `#`. -/
inductive Level where
  | text (bytes : Bytes)
  | single

/-- A topic filter: its levels, the last of which may be `#`. -/
inductive TopicFilter where
  | last (level : Level)
  | multi
  | cons (level : Level) (filter : TopicFilter)

/-- How a level is written. -/
def Level.bytes : Level → Bytes
  | .text bytes => bytes
  | .single => [plus]

/-- How a filter is written. -/
def TopicFilter.bytes : TopicFilter → Bytes
  | .last level => level.bytes
  | .multi => [hash]
  | .cons level filter => level.bytes ++ slash :: filter.bytes

/-- The text of a level has no slash and no wildcard in it. -/
def Level.Valid : Level → Prop
  | .text bytes => slash ∉ bytes ∧ plus ∉ bytes ∧ hash ∉ bytes
  | .single => True

/-- A filter as MQTT allows it. -/
def TopicFilter.Valid : TopicFilter → Prop
  | .last level => level.Valid
  | .multi => True
  | .cons level filter => level.Valid ∧ filter.Valid

/-- A level of a filter matches a level of a topic. -/
def Level.Matches : Level → Bytes → Prop
  | .text bytes, name => bytes = name
  | .single, _ => True

/-- A filter matches the levels of a topic, by the rules of MQTT. -/
def TopicFilter.Matches : TopicFilter → List Bytes → Prop
  | .last level, [name] => level.Matches name
  | .last _, _ => False
  | .multi, _ => True
  | .cons level filter, name :: names => level.Matches name ∧ filter.Matches names
  | .cons _ _, [] => False

/-- Every wildcard of the filter stands at a level of the topic that is not empty. -/
def TopicFilter.MeetsText : TopicFilter → List Bytes → Prop
  | .last .single, name :: _ => name ≠ []
  | .last _, _ => True
  | .multi, name :: _ => name ≠ []
  | .multi, [] => False
  | .cons .single filter, name :: names => name ≠ [] ∧ filter.MeetsText names
  | .cons _ filter, _ :: names => filter.MeetsText names
  | .cons _ _, [] => False

/-! ## One level -/

/-- A rest that begins at the border of a level. -/
def AtBorder (rest : Bytes) : Prop := rest = [] ∨ ∃ after, rest = slash :: after

/-- What the code asks of a level of the topic. -/
def Level.Meets : Level → Bytes → Prop
  | .text bytes, name => bytes = name
  | .single, name => name ≠ []

/-- The level separator is not the single-level wildcard. -/
theorem slash_ne_plus : slash ≠ plus := by decide

/-- The level separator is not the multi-level wildcard. -/
theorem slash_ne_hash : slash ≠ hash := by decide

/-- The two wildcards differ. -/
theorem hash_ne_plus : hash ≠ plus := by decide

/-- Behind equal levels the comparison goes on; levels that differ end it. -/
theorem mqttTopicIsMatched_text {frest nrest : Bytes} (hf : AtBorder frest) (hn : AtBorder nrest)
    (text : Bytes) : ∀ {name : Bytes}, (Level.text text).Valid → slash ∉ name →
      (mqttTopicIsMatched (text ++ frest) (name ++ nrest) = true ↔
        text = name ∧ mqttTopicIsMatched frest nrest = true) := by
  induction text with
  | nil =>
    intro name _ hname
    cases name with
    | nil => simp
    | cons c name =>
      -- The filter is at the end of its level, the topic is not.
      have hc : c ≠ slash := fun h => hname (by simp [h])
      rcases hf with rfl | ⟨after, rfl⟩
      · simp [mqttTopicIsMatched]
      · simp [mqttTopicIsMatched, hc, slash_ne_plus, slash_ne_hash, Ne.symm hc]
  | cons a text ih =>
    intro name hvalid hname
    obtain ⟨hslash, hplus, hhash⟩ := hvalid
    have ha : a ≠ slash := fun h => hslash (by simp [h])
    have haPlus : a ≠ plus := fun h => hplus (by simp [h])
    have haHash : a ≠ hash := fun h => hhash (by simp [h])
    have htail : (Level.text text).Valid :=
      ⟨fun h => hslash (List.mem_cons_of_mem a h), fun h => hplus (List.mem_cons_of_mem a h),
        fun h => hhash (List.mem_cons_of_mem a h)⟩
    cases name with
    | nil =>
      rcases hn with rfl | ⟨after, rfl⟩
      · simp [mqttTopicIsMatched]
      · simp [mqttTopicIsMatched, ha]
    | cons c name =>
      have hc : c ≠ slash := fun h => hname (by simp [h])
      have hrest := ih htail (fun h => hname (List.mem_cons_of_mem c h))
      by_cases hac : a = c
      · subst hac
        simp [mqttTopicIsMatched, hc, haPlus, haHash, hrest]
      · simp [mqttTopicIsMatched, hc, haPlus, haHash, hac]

/-- Skipping to the separator skips one level. -/
theorem dropWhile_append_border {name nrest : Bytes} (hname : slash ∉ name)
    (hn : AtBorder nrest) : (name ++ nrest).dropWhile (· ≠ slash) = nrest := by
  have hall : ∀ c ∈ name, decide (c ≠ slash) = true := by
    intro c hc
    simp only [decide_eq_true_eq]
    rintro rfl
    exact hname hc
  rw [List.dropWhile_append_of_pos hall]
  rcases hn with rfl | ⟨after, rfl⟩
  · rfl
  · simp

/-- `'+'` passes over one level of the topic, if there is something in it. -/
theorem mqttTopicIsMatched_single {frest name nrest : Bytes} (hn : AtBorder nrest)
    (hname : slash ∉ name) :
    mqttTopicIsMatched (plus :: frest) (name ++ nrest) = true ↔
      name ≠ [] ∧ mqttTopicIsMatched frest nrest = true := by
  cases name with
  | nil =>
    rcases hn with rfl | ⟨after, rfl⟩
    · simp [mqttTopicIsMatched]
    · simp [mqttTopicIsMatched, slash_ne_plus.symm]
  | cons c name =>
    have hc : c ≠ slash := fun h => hname (by simp [h])
    have hdrop := dropWhile_append_border (fun h => hname (List.mem_cons_of_mem c h)) hn
    simp only [List.cons_append, mqttTopicIsMatched, hc, hdrop]
    simp

/-- One level of the filter against one level of the topic. -/
theorem mqttTopicIsMatched_level {level : Level} {frest name nrest : Bytes}
    (hvalid : level.Valid) (hf : AtBorder frest) (hn : AtBorder nrest) (hname : slash ∉ name) :
    mqttTopicIsMatched (level.bytes ++ frest) (name ++ nrest) = true ↔
      level.Meets name ∧ mqttTopicIsMatched frest nrest = true := by
  cases level with
  | text bytes => exact mqttTopicIsMatched_text hf hn bytes hvalid hname
  | single => exact mqttTopicIsMatched_single hn hname

/-! ## All levels -/

/-- A topic is one level, or one level, a slash and the rest. -/
theorem name_cases (name : Bytes) :
    slash ∉ name ∨ ∃ first rest, name = first ++ slash :: rest ∧ slash ∉ first := by
  by_cases hmem : slash ∈ name
  · exact Or.inr (List.eq_append_cons_of_mem hmem)
  · exact Or.inl hmem

/-- A name without a separator is one level. -/
theorem splitOn_level {name : Bytes} (h : slash ∉ name) : name.splitOn slash = [name] :=
  List.splitOn_eq_singleton h

/-- The first level of a name. -/
theorem splitOn_levels {first : Bytes} (rest : Bytes) (h : slash ∉ first) :
    (first ++ slash :: rest).splitOn slash = first :: rest.splitOn slash :=
  List.splitOn_append_cons_self_of_not_mem h rest

/-- What the code asks of a level is what MQTT asks, and text where the level is a wildcard. -/
theorem Level.meets_iff (level : Level) (name : Bytes) :
    level.Meets name ↔ level.Matches name ∧ (TopicFilter.last level).MeetsText [name] := by
  cases level with
  | text bytes => simp [Level.Meets, Level.Matches, TopicFilter.MeetsText]
  | single => simp [Level.Meets, Level.Matches, TopicFilter.MeetsText]

/-- The text of a filter level by level. -/
theorem TopicFilter.meetsText_cons (level : Level) (filter : TopicFilter) (name : Bytes)
    (names : List Bytes) : (TopicFilter.cons level filter).MeetsText (name :: names) ↔
      (TopicFilter.last level).MeetsText [name] ∧ filter.MeetsText names := by
  cases level with
  | text bytes => simp [TopicFilter.MeetsText]
  | single => simp [TopicFilter.MeetsText]

/-- No filter matches a name without levels. -/
theorem TopicFilter.not_matches_nil (filter : TopicFilter) :
    ¬ (filter.Matches [] ∧ filter.MeetsText []) := by
  cases filter with
  | last level => simp [TopicFilter.Matches]
  | multi => simp [TopicFilter.MeetsText]
  | cons level filter => simp [TopicFilter.Matches]

/-- A filter of one level matches no longer name. -/
theorem TopicFilter.not_matches_last {level : Level} {first : Bytes} {names : List Bytes}
    (h : names ≠ []) : ¬ (TopicFilter.last level).Matches (first :: names) := by
  cases names with
  | nil => exact absurd rfl h
  | cons name names => simp [TopicFilter.Matches]

/-- The code matches a topic with a filter of MQTT exactly when MQTT does and no wildcard of the
filter stands at an empty level or, for `#`, behind the end of the topic. -/
theorem mqttTopicIsMatched_iff {filter : TopicFilter} (hvalid : filter.Valid) (name : Bytes) :
    mqttTopicIsMatched filter.bytes name = true ↔
      filter.Matches (name.splitOn slash) ∧ filter.MeetsText (name.splitOn slash) := by
  -- The induction is over the levels of the filter; the topic is split at its first slash.
  induction filter generalizing name with
  | last level =>
    have hborder : AtBorder [] := Or.inl rfl
    rcases name_cases name with hname | ⟨first, rest, rfl, hfirst⟩
    · have hone := mqttTopicIsMatched_level hvalid hborder hborder hname
      rw [List.append_nil, List.append_nil] at hone
      rw [splitOn_level hname, TopicFilter.bytes, hone, level.meets_iff]
      simp [mqttTopicIsMatched, TopicFilter.Matches]
    · have hone := mqttTopicIsMatched_level hvalid hborder (Or.inr ⟨rest, rfl⟩) hfirst
      rw [List.append_nil] at hone
      rw [splitOn_levels rest hfirst, TopicFilter.bytes, hone]
      simp [mqttTopicIsMatched, TopicFilter.not_matches_last]
  | multi =>
    rcases name_cases name with hname | ⟨first, rest, rfl, hfirst⟩
    · rw [splitOn_level hname]
      cases name with
      | nil => simp [mqttTopicIsMatched, TopicFilter.bytes, TopicFilter.MeetsText]
      | cons c name =>
        have hc : c ≠ slash := fun h => hname (by simp [h])
        simp [mqttTopicIsMatched, TopicFilter.bytes, TopicFilter.Matches, TopicFilter.MeetsText, hc,
          hash_ne_plus]
    · rw [splitOn_levels rest hfirst]
      cases first with
      | nil =>
        simp [mqttTopicIsMatched, TopicFilter.bytes, TopicFilter.MeetsText, slash_ne_hash.symm]
      | cons c first =>
        have hc : c ≠ slash := fun h => hfirst (by simp [h])
        simp [mqttTopicIsMatched, TopicFilter.bytes, TopicFilter.Matches, TopicFilter.MeetsText, hc,
          hash_ne_plus]
  | cons level filter ih =>
    obtain ⟨hlevel, hfilter⟩ := hvalid
    have hborder : AtBorder (slash :: filter.bytes) := Or.inr ⟨_, rfl⟩
    rcases name_cases name with hname | ⟨first, rest, rfl, hfirst⟩
    · have hone := mqttTopicIsMatched_level hlevel hborder (Or.inl rfl) hname
      rw [List.append_nil] at hone
      rw [splitOn_level hname, TopicFilter.bytes, hone, TopicFilter.meetsText_cons]
      have hnil := filter.not_matches_nil
      simp only [mqttTopicIsMatched, TopicFilter.Matches]
      tauto
    · have hone := mqttTopicIsMatched_level hlevel hborder (Or.inr ⟨rest, rfl⟩) hfirst
      have hslash : mqttTopicIsMatched (slash :: filter.bytes) (slash :: rest) =
          mqttTopicIsMatched filter.bytes rest := by
        simp [mqttTopicIsMatched, slash_ne_plus, slash_ne_hash]
      rw [splitOn_levels rest hfirst, TopicFilter.bytes, hone, hslash, ih hfilter,
        TopicFilter.meetsText_cons, level.meets_iff, TopicFilter.Matches]
      tauto

/-- The filter `a/+/b` and the topic `a/xy/b`. -/
theorem mqttTopicIsMatched_iff_single_level :
    mqttTopicIsMatched (TopicFilter.cons (.text [97]) (.cons .single (.last (.text [98])))).bytes
        [97, slash, 120, 121, slash, 98] = true ↔
      (TopicFilter.cons (.text [97]) (.cons .single (.last (.text [98])))).Matches
          (List.splitOn slash [97, slash, 120, 121, slash, 98]) ∧
        (TopicFilter.cons (.text [97]) (.cons .single (.last (.text [98])))).MeetsText
          (List.splitOn slash [97, slash, 120, 121, slash, 98]) := by
  apply mqttTopicIsMatched_iff
  refine ⟨?_, trivial, ?_⟩
  · simp [Level.Valid, slash, plus, hash]
  · simp [TopicFilter.Valid, Level.Valid, slash, plus, hash]

end Saliwen.Mqtt
