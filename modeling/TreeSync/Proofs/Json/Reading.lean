import TreeSync.Json.Printer
import TreeSync.Json.Reader
import TreeSync.Proofs.Json.Numbers
import Mathlib.Tactic.IntervalCases

/-!
# Reading what was written

The two written forms of a value differ in their blanks alone, and the reader passes over blanks.
So it inverts both writers on every value that holds no float.  The length of the text is enough
fuel for it.

Main definitions and results:

- `Json.Floatless`: values without floats; `Json.Numberless`: values without numbers.
- `Json.readString_quoted`: a string is read back, escapes and all.
- `Json.Layout`: a written form by its blanks, with `Json.Layout.chars_tight` and
  `Json.Layout.chars_indented` for the two that there are.
- `Json.Floatless.readBack`: a value is read back from any layout.
- `Json.Floatless.read_compact`, `Json.Floatless.read_pretty`: from both texts.
-/

namespace TreeSync

namespace Json

/-- A value that holds no number. -/
inductive Numberless : Json → Prop where
  /-- The null value. -/
  | null : Numberless null
  /-- A truth value. -/
  | bool (value : Bool) : Numberless (bool value)
  /-- A string. -/
  | text (value : String) : Numberless (text value)
  /-- An array of such values. -/
  | array (items : List Json) : (∀ item ∈ items, Numberless item) → Numberless (array items)
  /-- An object of such values. -/
  | object (members : List (String × Json)) :
      (∀ m ∈ members, Numberless m.2) → Numberless (object members)

/-- An array of strings holds no number. -/
theorem numberless_texts (items : List String) : Numberless (texts items) := by
  refine .array _ fun item hitem => ?_
  obtain ⟨value, -, rfl⟩ := List.mem_map.1 hitem
  exact .text value

/-- A value that holds no float, and no integer that 64 bits cannot hold. -/
inductive Floatless : Json → Prop where
  /-- The null value. -/
  | null : Floatless null
  /-- A truth value. -/
  | bool (value : Bool) : Floatless (bool value)
  /-- An integer. -/
  | int (value : Int) (hlo : IntKind.i64.lo ≤ value) (hhi : value ≤ IntKind.u64.hi) :
      Floatless (int value)
  /-- A string. -/
  | text (value : String) : Floatless (text value)
  /-- An array of such values. -/
  | array (items : List Json) : (∀ item ∈ items, Floatless item) → Floatless (array items)
  /-- An object of such values. -/
  | object (members : List (String × Json)) :
      (∀ m ∈ members, Floatless m.2) → Floatless (object members)

/-- A float is a number. -/
theorem Numberless.floatless {j : Json} (h : Numberless j) : Floatless j := by
  induction h with
  | null => exact .null
  | bool value => exact .bool value
  | text value => exact .text value
  | array items _ ih => exact .array items ih
  | object members _ ih => exact .object members ih

/-! ### Strings -/

/-- A control character is written with the two hexadecimal digits of its code. -/
theorem hex4?_control {n : Nat} (h : n < 0x20) :
    hex4? '0' '0' (Nat.digitChar (n / 16)) (Nat.digitChar (n % 16)) = some n := by
  interval_cases n <;> rfl

/-- A character is read back from the form it has inside a string. -/
theorem readString_escapeChar (c : Char) (rest : List Char) :
    readString (escapeChar c ++ rest) = (readString rest).map fun r => (c :: r.1, r.2) := by
  unfold escapeChar
  split
  · subst_vars; simp [readString, simpleEscape?]
  split
  · subst_vars; simp [readString, simpleEscape?]
  split
  · subst_vars; simp [readString, simpleEscape?]
  split
  · subst_vars; simp [readString, simpleEscape?]
  split
  · subst_vars; simp [readString, simpleEscape?]
  split
  · subst_vars; simp [readString, simpleEscape?]
  split
  · subst_vars; simp [readString, simpleEscape?]
  split
  · rename_i hcontrol
    have hsurrogate : ¬ 0xD800 ≤ c.toNat := by omega
    have hlow : ¬ 0xDC00 ≤ c.toNat := by omega
    simp [readString, hex4?_control hcontrol, hsurrogate, hlow]
  · rename_i hquote hslash _ _ _ _ _ hcontrol
    rw [List.singleton_append, readString.eq_def]
    simp [hquote, hslash, hcontrol]

/-- The characters of a string are read back up to the closing quote. -/
theorem readString_quoted (chars rest : List Char) :
    readString (chars.flatMap escapeChar ++ '\x22' :: rest) = some (chars, rest) := by
  induction chars with
  | nil =>
    rw [List.flatMap_nil, List.nil_append, readString.eq_def]
    rfl
  | cons c chars ih =>
    rw [List.flatMap_cons, List.append_assoc, readString_escapeChar, ih]
    rfl

/-! ### Blanks -/

/-- A text of blanks. -/
def Blank (text : List Char) : Prop :=
  ∀ c ∈ text, isBlank c = true

theorem skipBlanks_append {blanks : List Char} (h : Blank blanks) (text : List Char) :
    skipBlanks (blanks ++ text) = skipBlanks text :=
  List.dropWhile_append_of_pos h

/-- The reader passes over blanks in front of a value. -/
theorem readValue_append {blanks : List Char} (h : Blank blanks) (fuel : Nat) (text : List Char) :
    readValue fuel (blanks ++ text) = readValue fuel text := by
  cases fuel with
  | zero => rfl
  | succ fuel => rw [readValue, readValue, skipBlanks_append h]

theorem readMembers_append {blanks : List Char} (h : Blank blanks) (fuel : Nat)
    (text : List Char) : readMembers fuel (blanks ++ text) = readMembers fuel text := by
  cases fuel with
  | zero => rfl
  | succ fuel => rw [readMembers, readMembers, skipBlanks_append h]

/-- A number ends in front of a character that cannot be part of it. -/
theorem ends_cons {c : Char} (h : Integer.digit? c = none ∧ c ≠ '.' ∧ c ≠ 'e' ∧ c ≠ 'E')
    (rest : List Char) : JsonNumber.Ends (c :: rest) := by
  intro d hd
  obtain rfl := Option.some.inj hd
  exact h

/-- A number ends at blanks if it ends behind them. -/
theorem ends_append {blanks rest : List Char} (h : Blank blanks) (hrest : JsonNumber.Ends rest) :
    JsonNumber.Ends (blanks ++ rest) := by
  cases blanks with
  | nil => exact hrest
  | cons b blanks =>
    have hblank : isBlank b = true := h b List.mem_cons_self
    simp only [isBlank, Bool.or_eq_true, beq_iff_eq] at hblank
    refine ends_cons ?_ _
    rcases hblank with ((rfl | rfl) | rfl) | rfl <;> decide

/-! ### Layouts -/

/-- The blanks of a written form. -/
structure Layout where
  /-- What stands in front of an item or a member at a nesting depth, and in front of the bracket
  that closes the ones below. -/
  lead : Nat → List Char
  /-- What stands between a name and its value. -/
  gap : List Char
  blank_lead : ∀ depth, Blank (lead depth)
  blank_gap : Blank gap

namespace Layout

/-- No blanks. -/
def tight : Layout where
  lead _ := []
  gap := []
  blank_lead _ := List.forall_mem_nil _
  blank_gap := List.forall_mem_nil _

/-- A line for each item and member. -/
def indented : Layout where
  lead := newline
  gap := [' ']
  blank_lead depth := by
    intro c hc
    rcases List.mem_cons.1 hc with rfl | hc
    · rfl
    · rw [List.eq_of_mem_replicate hc]
      rfl
  blank_gap := List.forall_mem_singleton.2 rfl

variable (l : Layout)

mutual

/-- A value at a nesting depth. -/
def chars (depth : Nat) : Json → List Char
  | array [] => ['[', ']']
  | array (item :: rest) =>
      '[' :: (itemChars (depth + 1) (item :: rest) ++ (l.lead depth ++ [']']))
  | object [] => ['\x7b', '\x7d']
  | object (m :: rest) =>
      '\x7b' :: (memberChars (depth + 1) (m :: rest) ++ (l.lead depth ++ ['\x7d']))
  | null => leafChars null
  | bool b => leafChars (bool b)
  | int n => leafChars (int n)
  | float x => leafChars (float x)
  | text s => leafChars (text s)

/-- Items separated by commas. -/
def itemChars (depth : Nat) : List Json → List Char
  | [] => []
  | [item] => l.lead depth ++ chars depth item
  | item :: rest => l.lead depth ++ (chars depth item ++ ',' :: itemChars depth rest)

/-- Members separated by commas. -/
def memberChars (depth : Nat) : List (String × Json) → List Char
  | [] => []
  | [(name, value)] => l.lead depth ++ (quote name ++ ':' :: (l.gap ++ chars depth value))
  | (name, value) :: rest =>
      l.lead depth ++ (quote name ++ ':' :: (l.gap ++ (chars depth value ++
        ',' :: memberChars depth rest)))

end

theorem itemChars_cons (depth : Nat) (item next : Json) (items : List Json) :
    l.itemChars depth (item :: next :: items) =
      l.lead depth ++ (l.chars depth item ++ ',' :: l.itemChars depth (next :: items)) := by
  simp [itemChars]

theorem memberChars_cons (depth : Nat) (name : String) (value : Json) (next : String × Json)
    (members : List (String × Json)) :
    l.memberChars depth ((name, value) :: next :: members) =
      l.lead depth ++ (quote name ++ ':' :: (l.gap ++ (l.chars depth value ++
        ',' :: l.memberChars depth (next :: members)))) := by
  simp [memberChars]

mutual

/-- The compact form is the one without blanks. -/
theorem chars_tight (depth : Nat) (j : Json) : tight.chars depth j = j.compactChars := by
  match j with
  | array [] => rfl
  | array (item :: rest) =>
      rw [chars, compactChars, itemChars_tight]
      rfl
  | object [] => rfl
  | object (m :: rest) =>
      rw [chars, compactChars, memberChars_tight]
      rfl
  | null | bool _ | int _ | float _ | text _ => rfl

theorem itemChars_tight (depth : Nat) (items : List Json) :
    tight.itemChars depth items = compactItems items := by
  match items with
  | [] => rfl
  | [item] => exact chars_tight depth item
  | item :: next :: rest =>
      rw [itemChars_cons, chars_tight, itemChars_tight]
      simp [compactItems, tight]

theorem memberChars_tight (depth : Nat) (members : List (String × Json)) :
    tight.memberChars depth members = compactMembers members := by
  match members with
  | [] => rfl
  | [(name, value)] =>
      rw [memberChars, chars_tight]
      rfl
  | (name, value) :: next :: rest =>
      rw [memberChars_cons, chars_tight, memberChars_tight]
      simp [compactMembers, tight]

end

mutual

/-- The indented form is the one with a line for each item and member. -/
theorem chars_indented (depth : Nat) (j : Json) : indented.chars depth j = j.prettyChars depth := by
  match j with
  | array [] => rfl
  | array (item :: rest) =>
      rw [chars, prettyChars, itemChars_indented, List.append_assoc]
      rfl
  | object [] => rfl
  | object (m :: rest) =>
      rw [chars, prettyChars, memberChars_indented, List.append_assoc]
      rfl
  | null | bool _ | int _ | float _ | text _ => rfl

theorem itemChars_indented (depth : Nat) (items : List Json) :
    indented.itemChars depth items = prettyItems depth items := by
  match items with
  | [] => rfl
  | [item] =>
      rw [itemChars, chars_indented]
      rfl
  | item :: next :: rest =>
      rw [itemChars_cons, chars_indented, itemChars_indented]
      simp [prettyItems, indented]

theorem memberChars_indented (depth : Nat) (members : List (String × Json)) :
    indented.memberChars depth members = prettyMembers depth members := by
  match members with
  | [] => rfl
  | [(name, value)] =>
      rw [memberChars, chars_indented]
      simp [prettyMembers, indented]
  | (name, value) :: next :: rest =>
      rw [memberChars_cons, chars_indented, memberChars_indented]
      simp [prettyMembers, indented]

end

end Layout

/-! ### Beginnings -/

/-- A character that begins a number. -/
def BeginsNumber (c : Char) : Prop :=
  c = '-' ∨ (Integer.digit? c).isSome = true

theorem BeginsNumber.ne {c d : Char} (h : BeginsNumber c) (hminus : d ≠ '-')
    (hdigit : Integer.digit? d = none) : c ≠ d := by
  rintro rfl
  rcases h with rfl | h
  · exact hminus rfl
  · rw [hdigit] at h
    exact Bool.false_ne_true h

/-- The text of an integer begins with such a character. -/
theorem exists_text_eq_cons (n : Int) :
    ∃ c text, (Integer.text n).toList = c :: text ∧ BeginsNumber c := by
  cases n with
  | negSucc m => exact ⟨'-', Nat.toDigits 10 (m + 1), by simp [Integer.text], .inl rfl⟩
  | ofNat m =>
      rw [Integer.text, String.toList_ofList]
      rcases Nat.eq_zero_or_pos m with rfl | hpos
      · exact ⟨'0', [], Nat.toDigits_zero 10, .inr rfl⟩
      · obtain ⟨c, digits, d, hdigits, hc, -⟩ := JsonNumber.exists_toDigits_of_pos hpos
        exact ⟨c, digits, hdigits, .inr (by rw [hc]; rfl)⟩

/-- A character that begins a value: neither a blank nor a closing bracket. -/
def Begins (c : Char) : Prop :=
  isBlank c = false ∧ c ≠ ']'

theorem BeginsNumber.begins {c : Char} (h : BeginsNumber c) : Begins c := by
  refine ⟨?_, h.ne (by decide) (by decide)⟩
  have hspace : c ≠ ' ' := h.ne (by decide) (by decide)
  have htab : c ≠ '\t' := h.ne (by decide) (by decide)
  have hline : c ≠ '\n' := h.ne (by decide) (by decide)
  have hreturn : c ≠ '\r' := h.ne (by decide) (by decide)
  simp [isBlank, hspace, htab, hline, hreturn]

/-- No blank stands in front of a value. -/
theorem Begins.skipBlanks {c : Char} (h : Begins c) (text : List Char) :
    skipBlanks (c :: text) = c :: text := by
  rw [Json.skipBlanks, List.dropWhile_cons, if_neg (by rw [h.1]; exact Bool.false_ne_true)]

/-- What begins like a number is read as one. -/
theorem readValue_of_beginsNumber {c : Char} (h : BeginsNumber c) (fuel : Nat)
    (text : List Char) : readValue (fuel + 1) (c :: text) = JsonNumber.read (c :: text) := by
  have hnull : c ≠ 'n' := h.ne (by decide) (by decide)
  have htrue : c ≠ 't' := h.ne (by decide) (by decide)
  have hfalse : c ≠ 'f' := h.ne (by decide) (by decide)
  have hquote : c ≠ '\x22' := h.ne (by decide) (by decide)
  have hbracket : c ≠ '[' := h.ne (by decide) (by decide)
  have hbrace : c ≠ '\x7b' := h.ne (by decide) (by decide)
  rw [readValue, h.begins.skipBlanks]
  simp only [if_neg hnull, if_neg htrue, if_neg hfalse, if_neg hquote, if_neg hbracket,
    if_neg hbrace]

section ReadBack

variable (l : Layout)

/-- The text of a value begins with such a character. -/
theorem Floatless.begins {j : Json} (h : Floatless j) (depth : Nat) :
    ∃ c text, l.chars depth j = c :: text ∧ Begins c := by
  cases h with
  | null => exact ⟨'n', _, rfl, rfl, by decide⟩
  | bool value => cases value with
    | false => exact ⟨'f', _, rfl, rfl, by decide⟩
    | true => exact ⟨'t', _, rfl, rfl, by decide⟩
  | int value _ _ =>
    obtain ⟨c, text, htext, hc⟩ := exists_text_eq_cons value
    exact ⟨c, text, htext, hc.begins⟩
  | text value => exact ⟨'\x22', _, rfl, rfl, by decide⟩
  | array items _ => cases items with
    | nil => exact ⟨'[', _, rfl, rfl, by decide⟩
    | cons item items => exact ⟨'[', _, rfl, rfl, by decide⟩
  | object members _ => cases members with
    | nil => exact ⟨'\x7b', _, rfl, rfl, by decide⟩
    | cons m members => exact ⟨'\x7b', _, rfl, rfl, by decide⟩

/-- Behind its blanks, the text of items begins as the first of them does. -/
theorem skipBlanks_itemChars {item : Json} (h : Floatless item) (items : List Json) (depth : Nat)
    (behind : List Char) :
    ∃ c text, skipBlanks (l.itemChars depth (item :: items) ++ behind) = c :: text ∧
      Begins c := by
  obtain ⟨c, text, hc, hbegins⟩ := h.begins l depth
  cases items with
  | nil =>
    refine ⟨c, text ++ behind, ?_, hbegins⟩
    rw [Layout.itemChars, hc, List.append_assoc, skipBlanks_append (l.blank_lead depth)]
    exact hbegins.skipBlanks _
  | cons next items =>
    refine ⟨c, text ++ ',' :: l.itemChars depth (next :: items) ++ behind, ?_, hbegins⟩
    rw [Layout.itemChars_cons, hc, List.append_assoc, skipBlanks_append (l.blank_lead depth)]
    exact hbegins.skipBlanks _

/-- Behind its blanks, the text of members begins with a quote. -/
theorem skipBlanks_memberChars (m : String × Json) (members : List (String × Json)) (depth : Nat)
    (behind : List Char) :
    ∃ text, skipBlanks (l.memberChars depth (m :: members) ++ behind) = '\x22' :: text := by
  obtain ⟨name, value⟩ := m
  have hquote : ∀ text, ∃ inside, skipBlanks (quote name ++ text) = '\x22' :: inside :=
    fun _ => ⟨_, rfl⟩
  cases members with
  | nil =>
    rw [Layout.memberChars, List.append_assoc, skipBlanks_append (l.blank_lead depth),
      List.append_assoc]
    exact hquote _
  | cons next members =>
    rw [Layout.memberChars_cons, List.append_assoc, skipBlanks_append (l.blank_lead depth),
      List.append_assoc]
    exact hquote _

/-! ### Values -/

/-- A value is read back from the start of a text that no number goes on with behind it, with fuel
for its own text. -/
def ReadBack (j : Json) : Prop :=
  ∀ depth fuel rest, (l.chars depth j).length < fuel → JsonNumber.Ends rest →
    readValue fuel (l.chars depth j ++ rest) = some (j, rest)

variable {l}

/-- The fuel is counted from one, since no text is read without any. -/
theorem readBack_of_succ {j : Json}
    (h : ∀ depth fuel rest, (l.chars depth j).length ≤ fuel → JsonNumber.Ends rest →
      readValue (fuel + 1) (l.chars depth j ++ rest) = some (j, rest)) : ReadBack l j := by
  intro depth fuel rest hfuel hends
  obtain ⟨fuel, rfl⟩ : ∃ n, fuel = n + 1 := ⟨fuel - 1, by omega⟩
  exact h depth fuel rest (Nat.le_of_lt_succ hfuel) hends

/-- An item is read behind its blanks, and then what stands behind it. -/
theorem readItems_item {item : Json} (hitem : ReadBack l item) {depth fuel : Nat}
    (hfuel : (l.chars depth item).length < fuel) {behind : List Char}
    (hbehind : JsonNumber.Ends behind) :
    readItems (fuel + 1) (l.lead depth ++ (l.chars depth item ++ behind)) =
      match skipBlanks behind with
      | ']' :: behind => some ([item], behind)
      | ',' :: behind => (readItems fuel behind).map fun r => (item :: r.1, r.2)
      | _ => none := by
  have hvalue : readValue fuel (l.lead depth ++ (l.chars depth item ++ behind)) =
      some (item, behind) := by
    rw [readValue_append (l.blank_lead depth), hitem depth fuel behind hfuel hbehind]
  rw [readItems]
  exact hvalue.symm ▸ rfl

/-- The items of an array are read back when each of them is. -/
theorem readItems_itemChars {items : List Json} (hne : items ≠ [])
    (h : ∀ item ∈ items, ReadBack l item) {depth fuel : Nat} {blanks : List Char}
    (hblanks : Blank blanks) (rest : List Char)
    (hfuel : (l.itemChars depth items).length + 1 < fuel) :
    readItems fuel (l.itemChars depth items ++ (blanks ++ ']' :: rest)) = some (items, rest) := by
  induction items generalizing fuel with
  | nil => exact absurd rfl hne
  | cons item items ih =>
    obtain ⟨fuel, rfl⟩ : ∃ n, fuel = n + 1 := ⟨fuel - 1, by omega⟩
    have hitem := h item List.mem_cons_self
    cases items with
    | nil =>
      rw [Layout.itemChars, List.length_append] at hfuel
      have hends : JsonNumber.Ends (blanks ++ ']' :: rest) :=
        ends_append hblanks (ends_cons (by decide) _)
      rw [Layout.itemChars, List.append_assoc, readItems_item hitem (by omega) hends,
        skipBlanks_append hblanks]
      rfl
    | cons next items =>
      rw [Layout.itemChars_cons, List.length_append, List.length_append, List.length_cons] at hfuel
      have hrest : readItems fuel (l.itemChars depth (next :: items) ++ (blanks ++ ']' :: rest)) =
          some (next :: items, rest) :=
        ih (List.cons_ne_nil _ _) (fun item hm => h item (List.mem_cons_of_mem _ hm)) (by omega)
      rw [Layout.itemChars_cons, List.append_assoc, List.append_assoc, List.cons_append,
        readItems_item hitem (by omega) (ends_cons (by decide) _)]
      show (readItems fuel _).map _ = _
      rw [hrest]
      rfl

/-- A member is read behind its blanks, and then what stands behind it. -/
theorem readMembers_member {value : Json} (hvalue : ReadBack l value) (name : String)
    {depth fuel : Nat} (hfuel : (l.chars depth value).length < fuel) {behind : List Char}
    (hbehind : JsonNumber.Ends behind) :
    readMembers (fuel + 1)
        (l.lead depth ++ (quote name ++ ':' :: (l.gap ++ (l.chars depth value ++ behind)))) =
      match skipBlanks behind with
      | '\x7d' :: behind => some ([(name, value)], behind)
      | ',' :: behind => (readMembers fuel behind).map fun r => ((name, value) :: r.1, r.2)
      | _ => none := by
  have hvalue : readValue fuel (l.gap ++ (l.chars depth value ++ behind)) =
      some (value, behind) := by
    rw [readValue_append l.blank_gap, hvalue depth fuel behind hfuel hbehind]
  rw [readMembers_append (l.blank_lead depth)]
  simp only [quote, List.cons_append, List.append_assoc, List.nil_append]
  have hquote : ∀ text, skipBlanks ('\x22' :: text) = '\x22' :: text := fun _ => rfl
  have hcolon : ∀ text, skipBlanks (':' :: text) = ':' :: text := fun _ => rfl
  rw [readMembers, hquote]
  simp only [readString_quoted, String.ofList_toList, hcolon]
  exact hvalue.symm ▸ rfl

/-- The members of an object are read back when the value of each of them is. -/
theorem readMembers_memberChars {members : List (String × Json)} (hne : members ≠ [])
    (h : ∀ m ∈ members, ReadBack l m.2) {depth fuel : Nat} {blanks : List Char}
    (hblanks : Blank blanks) (rest : List Char)
    (hfuel : (l.memberChars depth members).length + 1 < fuel) :
    readMembers fuel (l.memberChars depth members ++ (blanks ++ '\x7d' :: rest)) =
      some (members, rest) := by
  induction members generalizing fuel with
  | nil => exact absurd rfl hne
  | cons m members ih =>
    obtain ⟨fuel, rfl⟩ : ∃ n, fuel = n + 1 := ⟨fuel - 1, by omega⟩
    obtain ⟨name, value⟩ := m
    have hvalue : ReadBack l value := h (name, value) List.mem_cons_self
    cases members with
    | nil =>
      simp only [Layout.memberChars, List.length_append, List.length_cons] at hfuel
      have hends : JsonNumber.Ends (blanks ++ '\x7d' :: rest) :=
        ends_append hblanks (ends_cons (by decide) _)
      simp only [Layout.memberChars, List.append_assoc, List.cons_append]
      rw [readMembers_member hvalue name (by omega) hends, skipBlanks_append hblanks]
      rfl
    | cons next members =>
      simp only [Layout.memberChars_cons, List.length_append, List.length_cons] at hfuel
      have hrest : readMembers fuel
          (l.memberChars depth (next :: members) ++ (blanks ++ '\x7d' :: rest)) =
            some (next :: members, rest) :=
        ih (List.cons_ne_nil _ _) (fun m hm => h m (List.mem_cons_of_mem _ hm)) (by omega)
      simp only [Layout.memberChars_cons, List.append_assoc, List.cons_append]
      rw [readMembers_member hvalue name (by omega) (ends_cons (by decide) _)]
      show (readMembers fuel _).map _ = _
      rw [hrest]
      rfl

/-- An array that is not empty is read item by item. -/
theorem readValue_array {c : Char} {input behind : List Char}
    (hinput : skipBlanks input = c :: behind) (hc : c ≠ ']') (fuel : Nat) :
    readValue (fuel + 1) ('[' :: input) =
      (readItems fuel input).map fun r => (array r.1, r.2) := by
  have hopen : skipBlanks ('[' :: input) = '[' :: input := rfl
  rw [readValue, hopen]
  simp only [Char.reduceEq, if_false, if_true, hinput]
  split
  · rename_i heq
    exact absurd (List.cons.inj heq).1 hc
  · rfl

/-- An object that is not empty is read member by member. -/
theorem readValue_object {c : Char} {input behind : List Char}
    (hinput : skipBlanks input = c :: behind) (hc : c ≠ '\x7d') (fuel : Nat) :
    readValue (fuel + 1) ('\x7b' :: input) =
      (readMembers fuel input).map fun r => (object r.1, r.2) := by
  have hopen : skipBlanks ('\x7b' :: input) = '\x7b' :: input := rfl
  rw [readValue, hopen]
  simp only [Char.reduceEq, if_false, if_true, hinput]
  split
  · rename_i heq
    exact absurd (List.cons.inj heq).1 hc
  · rfl

/-- A value without floats is read back from the start of a text, whatever its blanks. -/
theorem Floatless.readBack {j : Json} (h : Floatless j) : ReadBack l j := by
  induction h with
  | null =>
    refine readBack_of_succ fun depth fuel rest hfuel _ => ?_
    rfl
  | bool value =>
    refine readBack_of_succ fun depth fuel rest hfuel _ => ?_
    cases value <;> rfl
  | int value hlo hhi =>
    refine readBack_of_succ fun depth fuel rest hfuel hends => ?_
    obtain ⟨c, text, htext, hc⟩ := exists_text_eq_cons value
    have hread := JsonNumber.read_text hlo hhi hends
    simp only [Layout.chars, leafChars, htext, List.cons_append] at hread ⊢
    rw [readValue_of_beginsNumber hc, hread]
  | text value =>
    refine readBack_of_succ fun depth fuel rest hfuel _ => ?_
    simp only [Layout.chars, leafChars, quote, List.cons_append, List.append_assoc,
      List.nil_append]
    show (readString _).map _ = _
    rw [readString_quoted, Option.map_some, String.ofList_toList]
  | array items hitems ih =>
    refine readBack_of_succ fun depth fuel rest hfuel _ => ?_
    cases items with
    | nil => rfl
    | cons item items =>
      simp only [Layout.chars, List.cons_append, List.append_assoc, List.nil_append,
        List.length_cons, List.length_append, List.length_nil] at hfuel ⊢
      obtain ⟨c, text, hc, hbegins⟩ := skipBlanks_itemChars l (hitems item List.mem_cons_self)
        items (depth + 1) (l.lead depth ++ ']' :: rest)
      rw [readValue_array hc hbegins.2,
        readItems_itemChars (List.cons_ne_nil item items) ih (l.blank_lead depth) rest (by omega)]
      rfl
  | object members hmembers ih =>
    refine readBack_of_succ fun depth fuel rest hfuel _ => ?_
    cases members with
    | nil => rfl
    | cons m members =>
      simp only [Layout.chars, List.cons_append, List.append_assoc, List.nil_append,
        List.length_cons, List.length_append, List.length_nil] at hfuel ⊢
      obtain ⟨text, htext⟩ :=
        skipBlanks_memberChars l m members (depth + 1) (l.lead depth ++ '\x7d' :: rest)
      rw [readValue_object htext (by decide),
        readMembers_memberChars (List.cons_ne_nil m members) ih (l.blank_lead depth) rest
          (by omega)]
      rfl

end ReadBack

/-- A value without floats is read back from a whole text, whatever its blanks. -/
theorem Floatless.read_layout {j : Json} (h : Floatless j) (l : Layout) (depth : Nat) :
    read (String.ofList (l.chars depth j)) = some j := by
  have hends : JsonNumber.Ends [] := nofun
  have hread := h.readBack (l := l) depth (2 * (l.chars depth j).length + 2) [] (by omega) hends
  rw [List.append_nil] at hread
  rw [read, String.toList_ofList, String.length_ofList, hread]
  rfl

/-- A value without floats is read back from its compact text. -/
theorem Floatless.read_compact {j : Json} (h : Floatless j) : read j.compact = some j := by
  rw [compact, ← Layout.chars_tight 0]
  exact h.read_layout .tight 0

/-- A value without floats is read back from its indented text. -/
theorem Floatless.read_pretty {j : Json} (h : Floatless j) : read j.pretty = some j := by
  rw [pretty, ← Layout.chars_indented]
  exact h.read_layout .indented 0

/-- A value without numbers is read back from its compact text. -/
theorem read_compact {j : Json} (h : Numberless j) : read j.compact = some j :=
  h.floatless.read_compact

end Json

end TreeSync
