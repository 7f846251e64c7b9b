import TreeSync.Path.Spans
import Mathlib.Data.String.Basic

/-!
# Slices by bytes

A slice is taken where two pieces of the text meet, and offsets are lengths of what stands in
front.  A quote is one byte, and no byte of a longer character looks like it.  So a text whose
first byte and last byte are quotes has quotes for its first and last characters, and what is
between the two bytes is what is between the two characters.

Main results:

- `Key.slice?_append`: the middle of a text is sliced from it.
- `Key.eq_of_mem_encodeChar`: a byte below 128 is the character that it encodes.
- `Key.quotedBy_iff`: quotes told by bytes are quotes.
- `Key.cleanSliced?_eq`: cleaning a value never fails.
-/

namespace TreeSync

namespace Key

open String (utf8Len utf8EncodeChar)

/-! ## Slices -/

section Slices

variable {text : String} {before middle after : List Char}

/-- A character starts or ends where two pieces of a text meet. -/
theorem isValid_of_append {offset : Nat} (h : text.toList = before ++ after)
    (hoffset : utf8Len before = offset) : String.Pos.Raw.IsValid text ⟨offset⟩ := by
  subst hoffset
  refine String.Pos.Raw.isValid_iff_exists_append.2
    ⟨String.ofList before, String.ofList after, ?_, ?_⟩
  · rw [← String.ofList_append, ← h, String.ofList_toList]
  · rw [String.rawEndPos_ofList]

/-- The middle of a text is sliced from it. -/
theorem slice?_append {start stop : Nat} (h : text.toList = before ++ (middle ++ after))
    (hstart : utf8Len before = start) (hstop : start + utf8Len middle = stop) :
    slice? text start stop = some (String.ofList middle) := by
  subst hstart hstop
  have hfirst : String.Pos.Raw.IsValid text ⟨utf8Len before⟩ := isValid_of_append h rfl
  have hlast : String.Pos.Raw.IsValid text ⟨utf8Len before + utf8Len middle⟩ :=
    isValid_of_append (h.trans (List.append_assoc _ _ _).symm) (String.utf8Len_append _ _)
  have hextract := String.extract_of_valid before middle after
  rw [List.append_assoc, ← h, String.ofList_toList] at hextract
  rw [slice?, if_pos ⟨Nat.le_add_right _ _, String.Pos.Raw.isValid_eq_true_iff.2 hfirst,
    String.Pos.Raw.isValid_eq_true_iff.2 hlast⟩, hextract]

/-- A slice fails inside of a character, and behind the text. -/
example : slice? "é[" 1 2 = none ∧ slice? "é[" 2 4 = none := by decide +kernel

end Slices

/-! ## Bytes -/

/-- A byte below 128 is the character that it encodes. -/
theorem eq_of_mem_encodeChar {q c : Char} (hq : q.toNat < 128)
    (h : UInt8.ofNat q.toNat ∈ utf8EncodeChar c) : c = q := by
  -- The bytes of longer characters all have the highest bit.
  have hhigh : ∀ n, 128 ≤ n → n < 256 → UInt8.ofNat q.toNat ≠ UInt8.ofNat n := by
    intro n hlo hhi heq
    have hvalue := congrArg UInt8.toNat heq
    rw [UInt8.toNat_ofNat', UInt8.toNat_ofNat'] at hvalue
    omega
  simp only [utf8EncodeChar] at h
  split at h
  · rename_i hc
    have hvalue := congrArg UInt8.toNat (List.mem_singleton.1 h)
    rw [UInt8.toNat_ofNat', UInt8.toNat_ofNat'] at hvalue
    have hnat : c.toNat = q.toNat := by
      change c.val.toNat = q.toNat
      omega
    exact Char.toNat_inj.1 hnat
  · exfalso
    split at h
    · simp only [List.mem_cons, List.not_mem_nil, or_false] at h
      rcases h with h | h <;> exact hhigh _ (by omega) (by omega) h
    · split at h
      · simp only [List.mem_cons, List.not_mem_nil, or_false] at h
        rcases h with h | h | h <;> exact hhigh _ (by omega) (by omega) h
      · simp only [List.mem_cons, List.not_mem_nil, or_false] at h
        rcases h with h | h | h | h <;> exact hhigh _ (by omega) (by omega) h

/-- A character below 128 is one byte. -/
theorem encodeChar_of_lt {q : Char} (hq : q.toNat < 128) :
    utf8EncodeChar q = [UInt8.ofNat q.toNat] :=
  if_pos (Nat.le_of_lt_succ hq)

theorem bytes_ofList (cs : List Char) : bytes (String.ofList cs) = cs.flatMap utf8EncodeChar := by
  rw [bytes, String.toByteArray_ofList, List.utf8Encode, List.toList_data_toByteArray]

theorem encodeChar_ne_nil (c : Char) : utf8EncodeChar c ≠ [] := by
  intro h
  have hlength := String.length_utf8EncodeChar c
  rw [h] at hlength
  exact absurd hlength.symm (Nat.ne_of_gt c.utf8Size_pos)

section Quotes

variable {quote : Char} (hquote : quote.toNat < 128) (cs : List Char)

include hquote

/-- A text whose first byte is a quote starts with it. -/
theorem head?_bytes : (bytes (String.ofList cs)).head? = some (UInt8.ofNat quote.toNat) ↔
    cs.head? = some quote := by
  rw [bytes_ofList]
  cases cs with
  | nil => simp
  | cons c rest =>
      rw [List.flatMap_cons, List.head?_append_of_ne_nil _ (encodeChar_ne_nil c)]
      constructor
      · intro h
        exact congrArg some (eq_of_mem_encodeChar hquote (List.mem_of_mem_head? h))
      · intro h
        obtain rfl := Option.some.inj h
        rw [encodeChar_of_lt hquote]
        rfl

/-- A text whose last byte is a quote ends with it. -/
theorem getLast?_bytes : (bytes (String.ofList cs)).getLast? = some (UInt8.ofNat quote.toNat) ↔
    cs.getLast? = some quote := by
  rw [bytes_ofList]
  rcases List.eq_nil_or_concat cs with rfl | ⟨front, c, rfl⟩
  · simp
  · rw [List.concat_eq_append, List.flatMap_append, List.flatMap_singleton,
      List.getLast?_append_of_ne_nil _ (encodeChar_ne_nil c), List.getLast?_concat]
    constructor
    · intro h
      exact congrArg some (eq_of_mem_encodeChar hquote (List.mem_of_mem_getLast? h))
    · intro h
      obtain rfl := Option.some.inj h
      rw [encodeChar_of_lt hquote]
      rfl

theorem utf8Size_of_lt : quote.utf8Size = 1 := by
  rw [← String.length_utf8EncodeChar, encodeChar_of_lt hquote]
  rfl

/-- Quotes told by bytes are the first and the last of two or more characters. -/
theorem quotedBy_iff :
    QuotedBy quote (String.ofList cs) ↔ ∃ middle, cs = quote :: (middle ++ [quote]) := by
  rw [QuotedBy, head?_bytes hquote, getLast?_bytes hquote, String.utf8ByteSize_ofList]
  constructor
  · rintro ⟨hfirst, hlast, hsize⟩
    cases cs with
    | nil => simp at hfirst
    | cons c rest =>
        obtain rfl := Option.some.inj hfirst
        rcases List.eq_nil_or_concat rest with rfl | ⟨middle, d, rfl⟩
        · rw [String.utf8Len_cons, String.utf8Len_nil, utf8Size_of_lt hquote] at hsize
          omega
        · rw [List.concat_eq_append, ← List.cons_append, List.getLast?_concat] at hlast
          obtain rfl := Option.some.inj hlast
          exact ⟨middle, by rw [List.concat_eq_append]⟩
  · rintro ⟨middle, rfl⟩
    refine ⟨rfl, ?_, ?_⟩
    · rw [← List.cons_append, List.getLast?_concat]
    · rw [String.utf8Len_cons, String.utf8Len_append, String.utf8Len_cons, utf8Size_of_lt hquote]
      omega

end Quotes

/-! ## Cleaning a value -/

/-- The text inside of two quotes of one byte each is sliced out. -/
theorem slice?_quoted {quote : Char} (hquote : quote.toNat < 128) (middle : List Char) :
    ∃ stop, oneBefore? (String.ofList (quote :: (middle ++ [quote]))).utf8ByteSize = some stop ∧
      slice? (String.ofList (quote :: (middle ++ [quote]))) 1 stop =
        some (String.ofList middle) := by
  refine ⟨1 + utf8Len middle, ?_, ?_⟩
  · have hsize : utf8Len (quote :: (middle ++ [quote])) = 1 + utf8Len middle + 1 := by
      rw [String.utf8Len_cons, String.utf8Len_append, String.utf8Len_cons, String.utf8Len_nil,
        utf8Size_of_lt hquote]
      omega
    rw [String.utf8ByteSize_ofList, hsize]
    rfl
  · have hone : utf8Len [quote] = 1 := by
      rw [String.utf8Len_cons, String.utf8Len_nil, utf8Size_of_lt hquote]
    have htext : (String.ofList (quote :: (middle ++ [quote]))).toList =
        [quote] ++ (middle ++ [quote]) := String.toList_ofList
    exact slice?_append htext hone rfl

/-- A character that quotes a value. -/
def IsQuote (c : Char) : Prop :=
  c = '\x27' ∨ c = '\x22'

theorem IsQuote.lt {quote : Char} (h : IsQuote quote) : quote.toNat < 128 := by
  rcases h with rfl | rfl <;> decide

theorem unquote_of_isQuote {quote : Char} (h : IsQuote quote) (middle : List Char) :
    unquote (quote :: (middle ++ [quote])) = middle := by
  have hlast : (middle ++ [quote]).getLast? = some quote := List.getLast?_concat
  rw [unquote, if_pos ⟨h, hlast⟩, List.dropLast_concat]

/-- A text that is not between two equal quotes stays as it is. -/
theorem unquote_of_not_quoted {cs : List Char}
    (h : ∀ quote, IsQuote quote → ¬∃ middle, cs = quote :: (middle ++ [quote])) :
    unquote cs = cs := by
  cases cs with
  | nil => rfl
  | cons q rest =>
      rw [unquote, if_neg]
      rintro ⟨hquote, hlast⟩
      obtain ⟨middle, rfl⟩ := List.getLast?_eq_some_iff.1 hlast
      exact h q hquote ⟨middle, rfl⟩

/-- Cleaning a value by its bytes never fails, and it gives the value. -/
theorem cleanSliced?_eq (raw : String) :
    cleanSliced? raw = some (String.ofList (cleanValue raw.toList)) := by
  obtain ⟨cs, rfl⟩ : ∃ cs, raw = String.ofList cs := ⟨raw.toList, String.ofList_toList.symm⟩
  rw [cleanSliced?, cleanValue, String.toList_ofList]
  by_cases hopen : cs.head? = some '['
  · rw [if_pos hopen, if_pos hopen]
  · rw [if_neg hopen, if_neg hopen]
    by_cases hquoted : QuotedBy '\x27' (String.ofList cs) ∨ QuotedBy '\x22' (String.ofList cs)
    · obtain ⟨quote, hquote, hby⟩ : ∃ quote, IsQuote quote ∧ QuotedBy quote (String.ofList cs) := by
        rcases hquoted with hby | hby
        · exact ⟨_, .inl rfl, hby⟩
        · exact ⟨_, .inr rfl, hby⟩
      obtain ⟨middle, rfl⟩ := (quotedBy_iff hquote.lt cs).1 hby
      obtain ⟨stop, hstop, hinside⟩ := slice?_quoted hquote.lt middle
      rw [if_pos hquoted, unquote_of_isQuote hquote]
      simp only [bind, Option.bind, hstop, hinside, String.toList_ofList, pure]
    · have hplain : unquote cs = cs := by
        refine unquote_of_not_quoted fun quote hquote hmiddle => hquoted ?_
        have hby := (quotedBy_iff hquote.lt cs).2 hmiddle
        rcases hquote with rfl | rfl
        · exact .inl hby
        · exact .inr hby
      rw [if_neg hquoted, hplain]

end Key

end TreeSync
