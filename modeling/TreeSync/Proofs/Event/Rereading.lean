import TreeSync.Event.Wire
import TreeSync.Proofs.Json.Reading
import TreeSync.Proofs.Outcome

/-!
# Events written and read

A text that is read as a tag or an action is normalized: `R` and `replace` are one
action, `int`, `!!int` and the long form one tag.  What is written for an event that
was read is such a normal form, whatever the event looked like before.

Main definitions and results:

- `Tag.Spelled` and `Event.Spelled`: tags that their own spelling stands for.
- `Event.spelled_of_ofJson`: reading gives such tags only, unknown ones among them.
- `Event.ofJson_again`: an event that was read is read again from what is written for it.
-/

namespace TreeSync

namespace Tag

/-- A tag that its own spelling stands for. -/
def Spelled (t : Tag) : Prop :=
  parse t.text = t

/-- Every tag that is known by name is spelled. -/
theorem spelled_of_ne_other {t : Tag} (h : ∀ tag, t ≠ scalar (.other tag)) : t.Spelled := by
  unfold Spelled
  cases t with
  | map | omap | imap | set | seq => decide +kernel
  | scalar t =>
    cases t with
    | str | int | float | bool | null => decide +kernel
    | other tag => exact absurd rfl (h tag)

/-- An unknown tag is kept as it is spelled. -/
theorem eq_of_parse_eq_other {text tag : String} (h : parse text = scalar (.other tag)) :
    text = tag := by
  simp only [parse] at h
  repeat (split at h; · cases h)
  injection h with h
  injection h

/-- The tag that a text stands for is spelled, whatever the text. -/
theorem spelled_parse (text : String) : (parse text).Spelled := by
  by_cases hother : ∃ tag, parse text = scalar (.other tag)
  · obtain ⟨tag, h⟩ := hother
    obtain rfl := eq_of_parse_eq_other h
    rw [h]
    exact h
  · exact spelled_of_ne_other fun tag => not_exists.1 hother tag

end Tag

namespace Action

/-- The name of an action stands for the action. -/
@[simp] theorem parse_name (action : Action) : parse action.name = .ok action := by
  cases action <;> rfl

end Action

namespace Json

/-- An array of strings is read back. -/
@[simp] theorem toTexts_texts (items : List String) : (texts items).toTexts = .ok items := by
  simp only [texts, toTexts]
  induction items with
  | nil => rfl
  | cons item items ih =>
    rw [List.map_cons, List.mapM_cons, ih]
    rfl

end Json

namespace Event

namespace Parts

/-- Every tag among the parts is spelled. -/
structure Spelled (parts : Parts) : Prop where
  /-- The tag. -/
  tag : parts.tag.Spelled
  /-- The tag of the parent, when it is known. -/
  parentTag : ∀ t ∈ parts.parentTag, t.Spelled

/-- One more part read. -/
theorem Spelled.read {parts read : Parts} {name : String} {j : Json} (h : parts.Spelled)
    (hread : parts.read name j = .ok read) : read.Spelled := by
  unfold Parts.read at hread
  split at hread
  · obtain ⟨text, -, hread⟩ := bind_eq_ok.1 hread
    split at hread <;> cases hread
    exact ⟨h.tag, h.parentTag⟩
  split at hread
  · obtain ⟨path, -, hread⟩ := bind_eq_ok.1 hread
    cases hread
    exact ⟨h.tag, h.parentTag⟩
  split at hread
  · obtain ⟨key, -, hread⟩ := bind_eq_ok.1 hread
    cases hread
    exact ⟨h.tag, h.parentTag⟩
  split at hread
  · obtain ⟨text, -, hread⟩ := bind_eq_ok.1 hread
    cases hread
    exact ⟨Tag.spelled_parse text, h.parentTag⟩
  split at hread
  · obtain ⟨value, -, hread⟩ := bind_eq_ok.1 hread
    cases hread
    exact ⟨h.tag, h.parentTag⟩
  split at hread
  · split at hread
    · cases hread
      exact ⟨h.tag, nofun⟩
    · obtain ⟨text, -, hread⟩ := bind_eq_ok.1 hread
      cases hread
      refine ⟨h.tag, fun t ht => ?_⟩
      obtain rfl := Option.some.inj ht
      exact Tag.spelled_parse text
  · cases hread
    exact h

/-- Every given part read. -/
theorem Spelled.readAll {parts read : Parts} {given : List (String × Json)} (h : parts.Spelled)
    (hread : parts.readAll given = .ok read) : read.Spelled := by
  induction given generalizing parts with
  | nil => cases hread; exact h
  | cons m given ih =>
    obtain ⟨next, hnext, hread⟩ := bind_eq_ok.1 hread
    exact ih (h.read hnext) hread

/-- Nothing read so far. -/
theorem spelled_empty : ({} : Parts).Spelled :=
  ⟨Tag.spelled_of_ne_other nofun, nofun⟩

end Parts

/-- Every tag of the event is spelled. -/
structure Spelled (e : Event) : Prop where
  /-- The tag of the value. -/
  tag : e.tag.Spelled
  /-- The tag of the parent, when it is known. -/
  parentTag : ∀ t ∈ e.parentTag, t.Spelled

/-- The tags of the event are those of its parts. -/
theorem Parts.Spelled.toEvent {parts : Parts} {e : Event} (h : parts.Spelled)
    (he : parts.toEvent = .ok e) : e.Spelled := by
  unfold Parts.toEvent at he
  split at he <;> cases he
  exact ⟨h.tag, h.parentTag⟩

/-- An event that was read has tags that are spelled. -/
theorem spelled_of_ofJson {j : Json} {e : Event} (h : ofJson j = .ok e) : e.Spelled := by
  unfold ofJson at h
  split at h
  · obtain ⟨members, -, h⟩ := bind_eq_ok.1 h
    obtain ⟨parts, hparts, h⟩ := bind_eq_ok.1 h
    exact (Parts.spelled_empty.readAll hparts).toEvent h
  · cases h
  · obtain ⟨parts, hparts, h⟩ := bind_eq_ok.1 h
    split at h
    · cases h
    · exact (Parts.spelled_empty.readAll hparts).toEvent h
  · cases h

namespace Parts

/-! ### What was written for each part -/

variable (parts : Parts)

theorem read_op (action : Action) :
    parts.read "op" (.text action.name) = .ok { parts with action := some action } := by
  cases action <;> rfl

theorem read_path (path : List String) :
    parts.read "path" (.texts path) = .ok { parts with path := path } := by
  show (do return { parts with path := ← (Json.texts path).toTexts }) = _
  rw [Json.toTexts_texts]
  rfl

theorem read_key (key : String) :
    parts.read "key" (.text key) = .ok { parts with key := key } :=
  rfl

theorem read_value (value : String) :
    parts.read "value" (.text value) = .ok { parts with value := value } :=
  rfl

theorem read_tag {tag : Tag} (h : tag.Spelled) :
    parts.read "tag" (.text tag.text) = .ok { parts with tag := tag } := by
  show Except.ok { parts with tag := Tag.parse tag.text } = _
  rw [h]

theorem read_parentTag {tag : Tag} (h : tag.Spelled) :
    parts.read "parent_tag" (.text tag.text) = .ok { parts with parentTag := some tag } := by
  show Except.ok { parts with parentTag := some (Tag.parse tag.text) } = _
  rw [h]

end Parts

/-- An event with tags that are spelled is read back. -/
theorem ofJson_toJson {e : Event} (h : e.Spelled) : ofJson e.toJson = .ok e := by
  obtain ⟨action, path, key, tag, value, parentTag⟩ := e
  obtain ⟨htag, hparent⟩ := h
  cases parentTag with
  | none =>
    show Parts.readAll {} [_, _, _, _, _] >>= Parts.toEvent = _
    simp only [Parts.readAll, List.foldlM_cons, Parts.read_op, Parts.read_path, Parts.read_key,
      Parts.read_tag _ htag, Parts.read_value]
    rfl
  | some t =>
    show Parts.readAll {} [_, _, _, _, _, _] >>= Parts.toEvent = _
    simp only [Parts.readAll, List.foldlM_cons, Parts.read_op, Parts.read_path, Parts.read_key,
      Parts.read_tag _ htag, Parts.read_value, Parts.read_parentTag _ (hparent t rfl)]
    rfl

/-- An array of strings is sorted. -/
theorem sorted_texts (items : List String) : (Json.texts items).sorted = .texts items := by
  have h : Json.sortedItems (items.map .text) = items.map .text := by
    induction items with
    | nil => rfl
    | cons item items ih =>
      rw [List.map_cons, Json.sortedItems, ih]
      rfl
  rw [Json.texts, Json.sorted, h]

/-- The order of the members does not matter: the event is read back from the
members in the order of their names. -/
theorem ofJson_sorted {e : Event} (h : e.Spelled) : ofJson e.toJson.sorted = .ok e := by
  obtain ⟨action, path, key, tag, value, parentTag⟩ := e
  obtain ⟨htag, hparent⟩ := h
  cases parentTag with
  | none =>
    have hsorted : (toJson ⟨action, path, key, tag, value, none⟩).sorted = .object
        [("key", .text key), ("op", .text action.name), ("path", (Json.texts path).sorted),
          ("tag", .text tag.text), ("value", .text value)] :=
      rfl
    rw [hsorted, sorted_texts]
    show Parts.readAll {} [_, _, _, _, _] >>= Parts.toEvent = _
    simp only [Parts.readAll, List.foldlM_cons, Parts.read_op, Parts.read_path, Parts.read_key,
      Parts.read_tag _ htag, Parts.read_value]
    rfl
  | some t =>
    have hsorted : (toJson ⟨action, path, key, tag, value, some t⟩).sorted = .object
        [("key", .text key), ("op", .text action.name), ("parent_tag", .text t.text),
          ("path", (Json.texts path).sorted), ("tag", .text tag.text), ("value", .text value)] :=
      rfl
    rw [hsorted, sorted_texts]
    show Parts.readAll {} [_, _, _, _, _, _] >>= Parts.toEvent = _
    simp only [Parts.readAll, List.foldlM_cons, Parts.read_op, Parts.read_path, Parts.read_key,
      Parts.read_tag _ htag, Parts.read_value, Parts.read_parentTag _ (hparent t rfl)]
    rfl

/-- An event holds no number. -/
theorem numberless_toJson (e : Event) : e.toJson.Numberless := by
  refine .object _ fun m hm => ?_
  rcases List.mem_append.1 hm with hm | hm
  · simp only [List.mem_cons, List.not_mem_nil, or_false] at hm
    rcases hm with rfl | rfl | rfl | rfl | rfl
    · exact .text _
    · exact Json.numberless_texts _
    · exact .text _
    · exact .text _
    · exact .text _
  · split at hm
    · rw [List.mem_singleton.1 hm]
      exact .text _
    · exact absurd hm List.not_mem_nil

/-- An event that was read is read again from what is written for it: from the JSON
object, from its members in the order of their names, and from its text. -/
theorem ofJson_again {j : Json} {e : Event} (h : ofJson j = .ok e) :
    ofJson e.toJson = .ok e ∧ ofJson e.toJson.sorted = .ok e ∧
      (Json.read e.toJson.compact).map ofJson = some (.ok e) := by
  have hspelled := spelled_of_ofJson h
  refine ⟨ofJson_toJson hspelled, ofJson_sorted hspelled, ?_⟩
  rw [Json.read_compact (numberless_toJson e), Option.map_some, ofJson_toJson hspelled]

/-- An event written as an array, with the letter of its action, a tag of its own
and the long form of the tag of the parent. -/
theorem ofJson_again_wall :
    ofJson (.array [.text "R", .texts ["wall"], .text "color", .text "!color", .text "red",
        .text "tag:yaml.org,2002:set"]) =
      .ok ⟨.replace, ["wall"], "color", .scalar (.other "!color"), "red", some .set⟩ ∧
    ofJson (toJson ⟨.replace, ["wall"], "color", .scalar (.other "!color"), "red", some .set⟩) =
      .ok ⟨.replace, ["wall"], "color", .scalar (.other "!color"), "red", some .set⟩ :=
  have h : ofJson (.array [.text "R", .texts ["wall"], .text "color", .text "!color", .text "red",
      .text "tag:yaml.org,2002:set"]) =
      .ok ⟨.replace, ["wall"], "color", .scalar (.other "!color"), "red", some .set⟩ := rfl
  ⟨h, (ofJson_again h).1⟩

end Event

end TreeSync
