import TreeSync.Json.Number
import TreeSync.Proofs.Number.Reading
import TreeSync.Scalar.Kind

/-!
# Integers in JSON

An integer is written with its digits alone.  The reader of numbers takes these digits into its
significand, finds neither a fraction nor an exponent behind them, and gives the integer back, as
far as 64 bits hold it.

Main definitions and results:

- `JsonNumber.Ends`: a text that no number goes on with.
- `JsonNumber.takeInteger_toDigits`: the digits of an integer part.
- `JsonNumber.read_text`: an integer is read back.
-/

namespace TreeSync

namespace JsonNumber

variable {rest : List Char} {m : Nat}

/-- No number goes on with the text. -/
def Ends (rest : List Char) : Prop :=
  ∀ c ∈ rest.head?, Integer.digit? c = none ∧ c ≠ '.' ∧ c ≠ 'e' ∧ c ≠ 'E'

/-- The digits of an integer part end where no number goes on. -/
theorem takeInteger_of_ends (h : Ends rest) (m : Nat) : takeInteger m rest = (m, 0, rest) := by
  cases rest with
  | nil => rfl
  | cons c rest => simp only [takeInteger, (h c rfl).1]

/-- Written digits are taken as their value, as long as it fits. -/
theorem takeInteger_toDigits (hm : m ≤ maxSignificand) (rest : List Char) :
    takeInteger 0 (Nat.toDigits 10 m ++ rest) = takeInteger m rest := by
  induction m using Nat.base_induction 10 (by decide) generalizing rest with
  | single m hlt =>
      rw [Nat.toDigits_of_lt_base hlt, List.singleton_append, takeInteger,
        Integer.digit?_digitChar hlt]
      simp only [Nat.zero_mul, Nat.zero_add, if_pos hm]
  | digit m k hk hpos ih =>
      have hvalue : m * 10 + k = 10 * m + k := by omega
      rw [← Nat.toDigits_append_toDigits (by decide) hpos hk, List.append_assoc, ih (by omega),
        Nat.toDigits_of_lt_base hk, List.singleton_append, takeInteger, Integer.digit?_digitChar hk]
      simp only [hvalue, if_pos hm]

/-- A positive number is written with a first digit other than zero. -/
theorem exists_toDigits_of_pos (hm : 0 < m) :
    ∃ c digits d, Nat.toDigits 10 m = c :: digits ∧ Integer.digit? c = some (d + 1) ∧
      d + 1 ≤ maxSignificand := by
  induction m using Nat.base_induction 10 (by decide) with
  | single m hlt =>
      obtain ⟨d, rfl⟩ : ∃ d, m = d + 1 := ⟨m - 1, by omega⟩
      refine ⟨(d + 1).digitChar, [], d, Nat.toDigits_of_lt_base hlt,
        Integer.digit?_digitChar hlt, ?_⟩
      have : 10 ≤ maxSignificand := by decide
      omega
  | digit m k hk hpos ih =>
      obtain ⟨c, digits, d, hdigits, hc, hd⟩ := ih hpos
      refine ⟨c, digits ++ [k.digitChar], d, ?_, hc, hd⟩
      rw [← Nat.toDigits_append_toDigits (by decide) hpos hk, hdigits, Nat.toDigits_of_lt_base hk]
      rfl

/-- A number without fraction and exponent is read from its digits. -/
theorem readUnsigned_toDigits (negative : Bool) (hm : m ≤ maxSignificand) (h : Ends rest) :
    readUnsigned negative (Nat.toDigits 10 m ++ rest) = readRest negative m 0 rest := by
  rcases Nat.eq_zero_or_pos m with rfl | hpos
  · have hnext : (rest.head?.any fun d => (Integer.digit? d).isSome) = false := by
      cases rest with
      | nil => rfl
      | cons c rest => simp [(h c rfl).1]
    have hzero : Integer.digit? '0' = some 0 := rfl
    rw [Nat.toDigits_zero, List.singleton_append, readUnsigned, hzero]
    simp [hnext]
  · obtain ⟨c, digits, d, hdigits, hc, hd⟩ := exists_toDigits_of_pos hpos
    -- The first digit starts the significand, just as it would be added to none.
    have htake : takeInteger (d + 1) (digits ++ rest) = (m, 0, rest) := by
      have hall := takeInteger_toDigits hm rest
      rw [hdigits, List.cons_append, takeInteger, hc, takeInteger_of_ends h] at hall
      simpa [hd] using hall
    rw [hdigits, List.cons_append, readUnsigned, hc]
    simp [htake]

/-- What is no fraction and no exponent leaves the significand as it is. -/
theorem readRest_of_ends (negative : Bool) (hm : negative = true → 1 ≤ m ∧ m ≤ UInt64.size / 2)
    (h : Ends rest) :
    readRest negative m 0 rest = some (.int (if negative then -Int.ofNat m else m), rest) := by
  rw [readRest.eq_def]
  split
  · exact absurd rfl (h _ rfl).2.1
  · exact absurd rfl (h _ rfl).2.2.1
  · exact absurd rfl (h _ rfl).2.2.2
  · cases negative with
    | false => rfl
    | true =>
        simp only [ne_eq, not_true_eq_false, if_false, if_true, if_pos (hm rfl)]

/-- An integer that 64 bits hold is read back where its digits end. -/
theorem read_text {n : Int} (hlo : IntKind.i64.lo ≤ n) (hhi : n ≤ IntKind.u64.hi) (h : Ends rest) :
    read ((Integer.text n).toList ++ rest) = some (.int n, rest) := by
  have hmin : IntKind.i64.lo = -9223372036854775808 := by decide
  have hmax : IntKind.u64.hi = 18446744073709551615 := by decide
  have hsignificand : maxSignificand = 18446744073709551615 := by decide
  have hhalf : UInt64.size / 2 = 9223372036854775808 := by decide
  cases n with
  | ofNat m =>
      have hm : m ≤ maxSignificand := by
        have hcast : Int.ofNat m = (m : Int) := rfl
        omega
      obtain ⟨c, digits, hdigits, -, hminus⟩ := Integer.exists_toDigits_eq_cons m
      have hread := readUnsigned_toDigits false hm h
      rw [readRest_of_ends false nofun h, hdigits] at hread
      rw [Integer.text, String.toList_ofList, hdigits, List.cons_append, read]
      · exact hread
      · exact fun _ heq => hminus (List.cons.inj heq).1
  | negSucc m =>
      have hm : m + 1 ≤ maxSignificand := by omega
      have hrange : 1 ≤ m + 1 ∧ m + 1 ≤ UInt64.size / 2 := ⟨by omega, by omega⟩
      have hread := readUnsigned_toDigits true hm h
      rw [readRest_of_ends true (fun _ => hrange) h] at hread
      have htext : (Integer.text (.negSucc m)).toList = '-' :: Nat.toDigits 10 (m + 1) := by
        simp [Integer.text]
      rw [htext, List.cons_append, read]
      exact hread

end JsonNumber

end TreeSync
