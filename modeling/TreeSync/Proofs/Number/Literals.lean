import TreeSync.Proofs.Number.Reading
import TreeSync.Proofs.Outcome

/-!
# Integer literals

The texts that are integer literals, with their values: an optional sign and one or more ASCII
digits, leading zeros included.  Reading accepts exactly these texts, as far as the value lies
within the bounds.  The value is checked digit by digit, which comes to the same as checking it
at the end, for digits never make a value smaller.

Main definitions and results:

- `Integer.Literal`: the literals and their values.
- `Integer.readDigits_eq_ok_iff`: digits behind a value that has been read.
- `Integer.read_eq_ok_iff`: what is read, and as what.
-/

namespace TreeSync

namespace Integer

/-- One or more ASCII digits with a value. -/
structure Digits (digits : List Char) (value : Nat) : Prop where
  ne_nil : digits ≠ []
  isDigit : ∀ c ∈ digits, c.isDigit = true
  value_eq : Nat.ofDigitChars 10 digits 0 = value

/-- An integer literal with a value.  Only a literal of a signed integer has a minus sign. -/
inductive Literal (signed : Bool) : List Char → Int → Prop where
  | unsigned {digits : List Char} {m : Nat} (h : Digits digits m) : Literal signed digits m
  | plus {digits : List Char} {m : Nat} (h : Digits digits m) : Literal signed ('+' :: digits) m
  | minus {digits : List Char} {m : Nat} (hsigned : signed = true) (h : Digits digits m) :
      Literal signed ('-' :: digits) (-m)

variable {signed : Bool} {lo hi n : Int} {limit acc m d : Nat} {c : Char}
  {digits rest text : List Char}

/-! ## Digits -/

/-- A decimal digit stands for its distance from zero. -/
theorem digit?_eq_some_iff : digit? c = some d ↔ c.isDigit = true ∧ c.toNat - '0'.toNat = d := by
  rw [digit?, Char.isDigit_iff_toNat]
  split
  · rename_i hc
    rw [Option.some.injEq, iff_and_self]
    exact fun _ => ⟨Char.le_def.1 hc.1, Char.le_def.1 hc.2⟩
  · rename_i hc
    refine iff_of_false (by simp) fun h => hc ?_
    exact ⟨Char.le_def.2 h.1.1, Char.le_def.2 h.1.2⟩

theorem isDigit_of_digit? (h : digit? c = none) : c.isDigit = false := by
  refine Bool.eq_false_iff.2 fun hdigit => ?_
  have hsome := digit?_eq_some_iff.2 ⟨hdigit, rfl⟩
  rw [h] at hsome
  cases hsome

/-- Further digits never make a value smaller. -/
theorem le_ofDigitChars (digits : List Char) (acc : Nat) : acc ≤ Nat.ofDigitChars 10 digits acc := by
  induction digits generalizing acc with
  | nil => exact Nat.le_refl acc
  | cons c rest ih =>
      rw [Nat.ofDigitChars_cons]
      refine Nat.le_trans ?_ (ih _)
      omega

/-- Digits are read as their value behind the value of the digits in front, within the limit. -/
theorem readDigits_eq_ok_iff {excess : IntegerFault} (hacc : acc ≤ limit) :
    readDigits limit excess acc digits = .ok m ↔
      (∀ c ∈ digits, c.isDigit = true) ∧ Nat.ofDigitChars 10 digits acc = m ∧ m ≤ limit := by
  induction digits generalizing acc with
  | nil =>
      rw [readDigits, Except.ok.injEq, Nat.ofDigitChars_nil]
      constructor
      · rintro rfl
        exact ⟨List.forall_mem_nil _, rfl, hacc⟩
      · exact fun h => h.2.1
  | cons c rest ih =>
      rw [readDigits, List.forall_mem_cons]
      split
      · rename_i hnone
        refine iff_of_false error_ne_ok fun h => ?_
        rw [isDigit_of_digit? hnone] at h
        cases h.1.1
      · rename_i d hd
        obtain ⟨hdigit, rfl⟩ := digit?_eq_some_iff.1 hd
        rw [Nat.ofDigitChars_cons, Nat.mul_comm 10 acc]
        split
        · rename_i hle
          rw [ih hle, and_iff_right hdigit]
        · -- The value has left the bounds, and no further digit brings it back.
          rename_i hgt
          refine iff_of_false error_ne_ok fun h => hgt ?_
          exact Nat.le_trans (le_ofDigitChars rest _) (h.2.1 ▸ h.2.2)

/-- A magnitude is read when it is spelled by digits and within the limit. -/
theorem readMagnitude_eq_ok_iff {excess : IntegerFault} :
    readMagnitude limit excess digits = .ok m ↔ Digits digits m ∧ m ≤ limit := by
  rw [readMagnitude]
  split
  · rename_i hempty
    exact iff_of_false error_ne_ok fun h => h.1.ne_nil (List.isEmpty_iff.1 hempty)
  · rename_i hne
    rw [readDigits_eq_ok_iff (Nat.zero_le limit)]
    constructor
    · exact fun h => ⟨⟨fun hnil => hne (List.isEmpty_iff.2 hnil), h.1, h.2.1⟩, h.2.2⟩
    · exact fun h => ⟨h.1.isDigit, h.1.value_eq, h.2⟩

/-! ## Signs -/

theorem Digits.isDigit_head (h : Digits (c :: rest) m) : c.isDigit = true :=
  h.isDigit c List.mem_cons_self

/-- Behind a plus sign stand the digits of the number itself. -/
theorem literal_plus_iff : Literal signed ('+' :: rest) n ↔ ∃ m, Digits rest m ∧ (m : Int) = n := by
  constructor
  · intro h
    cases h with
    | unsigned h => exact absurd h.isDigit_head (by decide)
    | plus h => exact ⟨_, h, rfl⟩
  · rintro ⟨m, h, rfl⟩
    exact .plus h

/-- Behind a minus sign stand the digits of its negative, if signs are allowed. -/
theorem literal_minus_iff :
    Literal true ('-' :: rest) n ↔ ∃ m, Digits rest m ∧ -(m : Int) = n := by
  constructor
  · intro h
    cases h with
    | unsigned h => exact absurd h.isDigit_head (by decide)
    | minus _ h => exact ⟨_, h, rfl⟩
  · rintro ⟨m, h, rfl⟩
    exact .minus rfl h

/-- What has no sign in front is a literal if it is made of digits. -/
theorem literal_unsigned_iff (hplus : c ≠ '+') (hminus : ¬ (c = '-' ∧ signed = true)) :
    Literal signed (c :: rest) n ↔ ∃ m, Digits (c :: rest) m ∧ (m : Int) = n := by
  constructor
  · intro h
    cases h with
    | unsigned h => exact ⟨_, h, rfl⟩
    | plus => exact absurd rfl hplus
    | minus hsigned => exact absurd ⟨rfl, hsigned⟩ hminus
  · rintro ⟨m, h, rfl⟩
    exact .unsigned h

/-! ## Literals -/

/-- A magnitude that is read up to the upper bound is a number from zero to that bound. -/
theorem map_magnitude_eq_ok_iff {excess : IntegerFault} (hlo : lo ≤ 0) (hhi : 0 ≤ hi) :
    Int.ofNat <$> readMagnitude hi.toNat excess digits = .ok n ↔
      (∃ m, Digits digits m ∧ (m : Int) = n) ∧ lo ≤ n ∧ n ≤ hi := by
  rw [map_eq_ok]
  constructor
  · rintro ⟨m, hm, rfl⟩
    obtain ⟨hdigits, hle⟩ := readMagnitude_eq_ok_iff.1 hm
    exact ⟨⟨m, hdigits, rfl⟩, Int.le_trans hlo (Int.natCast_nonneg m), (Int.le_toNat hhi).1 hle⟩
  · rintro ⟨⟨m, hdigits, rfl⟩, -, hle⟩
    exact ⟨m, readMagnitude_eq_ok_iff.2 ⟨hdigits, (Int.le_toNat hhi).2 hle⟩, rfl⟩

/-- A text is read as an integer exactly if it is a literal whose value lies within the bounds. -/
theorem read_eq_ok_iff (hlo : lo ≤ 0) (hhi : 0 ≤ hi) :
    read lo hi text = .ok n ↔ Literal (decide (lo < 0)) text n ∧ lo ≤ n ∧ n ≤ hi := by
  cases text with
  | nil =>
      rw [read]
      refine iff_of_false error_ne_ok fun h => ?_
      cases h.1 with
      | unsigned hdigits => exact hdigits.ne_nil rfl
  | cons c rest =>
      rw [read]
      split
      · rename_i hplus
        rw [hplus, literal_plus_iff]
        exact map_magnitude_eq_ok_iff hlo hhi
      · rename_i hplus
        split
        · rename_i hminus
          obtain ⟨rfl, hneg⟩ := hminus
          rw [decide_eq_true hneg, literal_minus_iff, map_eq_ok]
          constructor
          · rintro ⟨m, hm, rfl⟩
            obtain ⟨hdigits, hle⟩ := readMagnitude_eq_ok_iff.1 hm
            have hmagnitude : (m : Int) ≤ -lo := (Int.le_toNat (by omega)).1 hle
            have hnonpos : -(m : Int) ≤ 0 := Int.neg_nonpos_of_nonneg (Int.natCast_nonneg m)
            exact ⟨⟨m, hdigits, rfl⟩, Int.le_neg_of_le_neg hmagnitude,
              Int.le_trans hnonpos hhi⟩
          · rintro ⟨⟨m, hdigits, rfl⟩, hle, -⟩
            have hmagnitude : m ≤ (-lo).toNat := by omega
            exact ⟨m, readMagnitude_eq_ok_iff.2 ⟨hdigits, hmagnitude⟩, rfl⟩
        · rename_i hminus
          rw [literal_unsigned_iff hplus (by simpa using hminus)]
          exact map_magnitude_eq_ok_iff hlo hhi

end Integer

end TreeSync
