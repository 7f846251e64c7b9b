import TreeSync.Number.Integer

/-!
# Reading written integers

The canonical literal of an integer reads back as that integer wherever the
bounds allow it.

Main result:

- `Integer.read_text`: reading undoes writing.
-/

namespace TreeSync

namespace Integer

theorem digit?_digitChar {d : Nat} (h : d < 10) : digit? d.digitChar = some d := by
  have hall : ∀ d : Fin 10, digit? d.val.digitChar = some d.val := by decide
  exact hall ⟨d, h⟩

/-- Digits written in front of a text are read as their value. -/
theorem readDigits_toDigits_append {limit m : Nat} (excess : IntegerFault) (hm : m ≤ limit)
    (rest : List Char) :
    readDigits limit excess 0 (Nat.toDigits 10 m ++ rest) = readDigits limit excess m rest := by
  induction m using Nat.base_induction 10 (by decide) generalizing rest with
  | single m hlt =>
      simp [Nat.toDigits_of_lt_base hlt, readDigits, digit?_digitChar hlt, hm]
  | digit m k hk hpos ih =>
      rw [← Nat.toDigits_append_toDigits (by decide) hpos hk, List.append_assoc,
        ih (by omega), Nat.toDigits_of_lt_base hk, List.singleton_append, readDigits,
        digit?_digitChar hk]
      have hvalue : m * 10 + k = 10 * m + k := by omega
      simp only [hvalue, hm, if_true]

theorem readMagnitude_toDigits {limit m : Nat} (excess : IntegerFault) (hm : m ≤ limit) :
    readMagnitude limit excess (Nat.toDigits 10 m) = .ok m := by
  have h := readDigits_toDigits_append excess hm []
  rw [List.append_nil] at h
  simp [readMagnitude, h, readDigits]

/-- Written digits start with a digit, which is no sign. -/
theorem exists_toDigits_eq_cons (m : Nat) :
    ∃ c rest, Nat.toDigits 10 m = c :: rest ∧ c ≠ '+' ∧ c ≠ '-' := by
  cases h : Nat.toDigits 10 m with
  | nil => exact absurd h Nat.toDigits_ne_nil
  | cons c rest =>
      have hdigit : c.isDigit = true :=
        Nat.isDigit_of_mem_toDigits (b := 10) (n := m) (by decide) (by decide)
          (h ▸ List.mem_cons_self)
      refine ⟨c, rest, rfl, ?_, ?_⟩
      · rintro rfl
        exact absurd hdigit (by decide)
      · rintro rfl
        exact absurd hdigit (by decide)

/-- Reading undoes writing within the bounds. -/
theorem read_text {lo hi n : Int} (hlo : lo ≤ n) (hhi : n ≤ hi) :
    read lo hi (text n).toList = .ok n := by
  cases n with
  | ofNat m =>
      obtain ⟨c, rest, hdigits, hplus, hminus⟩ := exists_toDigits_eq_cons m
      have hcast : Int.ofNat m = (m : Int) := rfl
      have hm : m ≤ hi.toNat := by omega
      have hread := readMagnitude_toDigits .tooLarge hm
      rw [hdigits] at hread
      simp [text, hdigits, read, hplus, hminus, hread, Functor.map, Except.map]
  | negSucc m =>
      have hm : m + 1 ≤ (-lo).toNat := by omega
      have hneg : lo < 0 := by omega
      have hread := readMagnitude_toDigits .tooSmall hm
      simp [text, read, hneg, hread, Functor.map, Except.map]
      omega

end Integer

end TreeSync
