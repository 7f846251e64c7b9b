import TreeSync.Proofs.Node.KeyOrder
import TreeSync.Proofs.Outcome

/-!
# Keys read as keys of another kind

The literals of truth values, integers and characters are canonical for every kind of key: a
kind either does not read such a literal or reads it as the key that has this very literal.  Only
texts have spellings that other kinds read differently.

Main results:

- `Integer.eq_of_read_text`: a written integer is read as itself or not at all.
- `KeyKind.literal_of_readKey`: reading keeps the literal of every key that is no text.
-/

namespace TreeSync

namespace Integer

/-- What is read within bounds is read within wider ones. -/
theorem readDigits_mono {limit wider acc v : Nat} {excess other : IntegerFault}
    {digits : List Char} (hle : limit ≤ wider)
    (h : readDigits limit excess acc digits = .ok v) :
    readDigits wider other acc digits = .ok v := by
  induction digits generalizing acc with
  | nil => exact h
  | cons c rest ih =>
      rw [readDigits] at h ⊢
      split at h
      · simp at h
      · rename_i d hd
        split at h
        · rename_i hlimit
          simp only [Nat.le_trans hlimit hle, if_true]
          exact ih h
        · simp at h

theorem eq_of_readMagnitude {limit m v : Nat} {excess : IntegerFault}
    (h : readMagnitude limit excess (Nat.toDigits 10 m) = .ok v) : v = m := by
  have hne : (Nat.toDigits 10 m).isEmpty = false := by
    cases hdigits : Nat.toDigits 10 m with
    | nil => exact absurd hdigits Nat.toDigits_ne_nil
    | cons c rest => rfl
  have hread : readMagnitude (max limit m) excess (Nat.toDigits 10 m) = .ok m :=
    readMagnitude_toDigits excess (Nat.le_max_right limit m)
  simp only [readMagnitude, hne, Bool.false_eq_true, if_false] at h hread
  rw [readDigits_mono (Nat.le_max_left limit m) h] at hread
  exact Except.ok.inj hread

/-- A written integer is read as itself or not at all. -/
theorem eq_of_read_text {lo hi n v : Int} (h : read lo hi (text n).toList = .ok v) : v = n := by
  cases n with
  | ofNat m =>
      obtain ⟨c, rest, hdigits, hplus, hminus⟩ := exists_toDigits_eq_cons m
      have htext : (text (.ofNat m)).toList = c :: rest := by
        rw [text, String.toList_ofList, hdigits]
      rw [htext, read, if_neg hplus, if_neg fun h => hminus h.1, ← hdigits] at h
      cases hread : readMagnitude hi.toNat .tooLarge (Nat.toDigits 10 m) with
      | error e => simp [hread, Functor.map, Except.map] at h
      | ok w =>
          rw [hread] at h
          rw [← Except.ok.inj h, eq_of_readMagnitude hread]
  | negSucc m =>
      have htext : (text (.negSucc m)).toList = '-' :: Nat.toDigits 10 (m + 1) := by
        simp [text]
      rw [htext, read, if_neg (by decide)] at h
      by_cases hlo : lo < 0
      · rw [if_pos ⟨rfl, hlo⟩] at h
        cases hread : readMagnitude (-lo).toNat .tooSmall (Nat.toDigits 10 (m + 1)) with
        | error e => simp [hread, Functor.map, Except.map] at h
        | ok w =>
            rw [hread] at h
            rw [← Except.ok.inj h, eq_of_readMagnitude hread]
            rfl
      · have hminus : digit? '-' = none := by decide
        simp [hlo, readMagnitude, readDigits, hminus, Functor.map, Except.map] at h

/-- What starts with neither a sign nor a digit is no integer. -/
theorem read_of_letter {lo hi : Int} {c : Char} (rest : List Char) (hplus : c ≠ '+')
    (hminus : c ≠ '-') (hd : digit? c = none) : read lo hi (c :: rest) = .error .invalidDigit := by
  simp [read, hplus, hminus, readMagnitude, readDigits, hd, Functor.map, Except.map]

theorem toNat_digitChar {d : Nat} (h : d < 10) : d.digitChar.toNat = d + 48 := by
  have hall : ∀ d : Fin 10, d.val.digitChar.toNat = d.val + 48 := by decide
  exact hall ⟨d, h⟩

theorem text_of_digit {c : Char} {d : Nat} (h : digit? c = some d) :
    text d = String.ofList [c] := by
  rw [digit?] at h
  split at h
  · rename_i hc
    have hlo : 48 ≤ c.toNat := Char.le_def.1 hc.1
    have hhi : c.toNat ≤ 57 := Char.le_def.1 hc.2
    have hd : c.toNat - 48 = d := Option.some.inj h
    have hlt : d < 10 := by omega
    have hchar : d.digitChar = c := Char.toNat_inj.1 (by rw [toNat_digitChar hlt]; omega)
    show String.ofList (Nat.toDigits 10 d) = _
    rw [Nat.toDigits_of_lt_base hlt, hchar]
  · simp at h

/-- A single character is read as the digit that it is. -/
theorem text_of_read_singleton {lo hi v : Int} {c : Char} (h : read lo hi [c] = .ok v) :
    text v = String.ofList [c] := by
  rw [read] at h
  split at h
  · simp [readMagnitude, Functor.map, Except.map] at h
  · split at h
    · simp [readMagnitude, Functor.map, Except.map] at h
    · cases hd : digit? c with
      | none => simp [readMagnitude, readDigits, hd, Functor.map, Except.map] at h
      | some d =>
          simp only [readMagnitude, List.isEmpty_cons, Bool.false_eq_true, if_false, readDigits,
            hd, Nat.zero_mul, Nat.zero_add] at h
          split at h
          · rw [← Except.ok.inj h]
            exact text_of_digit hd
          · simp [Functor.map, Except.map] at h

end Integer

namespace KeyKind

/-- A literal that is read as a character is that character. -/
theorem ofList_of_toChar {literal : String} {c : Char} (hne : literal ≠ "")
    (h : (Scalar.text literal).toChar = .ok c) : String.ofList [c] = literal := by
  rw [Scalar.toChar] at h
  split at h
  · rename_i hnil
    exact absurd (String.toList_eq_nil_iff.1 hnil) hne
  · rename_i d hd
    obtain rfl := Except.ok.inj h
    rw [← hd, String.ofList_toList]
  · simp at h

/-- A literal that is read as a truth value spells it, but for the case of its letters. -/
theorem toLower_of_toBool {literal : String} {b : Bool} (hne : literal ≠ "")
    (h : (Scalar.text literal).toBool = .ok b) :
    literal.toList.map Char.toLower = (Scalar.boolText b).toList := by
  have htrue : "true".toList.map Char.toLower = (Scalar.boolText true).toList := by decide
  have hfalse : "false".toList.map Char.toLower = (Scalar.boolText false).toList := by decide
  have hempty : literal.isEmpty = false := by simpa using hne
  simp only [Scalar.toBool, hempty, Bool.false_eq_true, if_false, Scalar.sameLetters,
    beq_iff_eq] at h
  split at h
  · rename_i heq
    rw [← Except.ok.inj h, heq, htrue]
  · split at h
    · rename_i heq
      rw [← Except.ok.inj h, heq, hfalse]
    · simp at h

/-- A literal that is read as an integer is read within some bounds. -/
theorem exists_read_of_read {k : IntKind} {literal : String} {v : { n : Int // k.Contains n }}
    (hne : literal ≠ "") (h : k.read literal = .ok v) :
    ∃ lo hi, Integer.read lo hi literal.toList = .ok v.1 := by
  have hempty : literal.isEmpty = false := by simpa using hne
  simp only [IntKind.read, hempty, Bool.false_eq_true, if_false] at h
  split at h
  · rename_i n hn
    rw [IntKind.fit] at h
    split at h
    · refine ⟨k.widest.lo, k.widest.hi, ?_⟩
      rw [hn, ← Except.ok.inj h]
    · simp at h
  · split at h <;> simp at h

theorem literal_ne_empty {kind : KeyKind} {key : MapKey} (hkey : kind.Admits key)
    (hkind : kind ≠ .string) : key.literal ≠ "" := by
  cases kind <;> cases key <;> simp only [Admits, ne_eq, not_true, reduceCtorEq] at hkey hkind
  · rename_i b
    cases b <;> decide
  · rename_i n
    simpa [MapKey.literal] using text_ne_empty n
  · rename_i c
    simp [MapKey.literal]

theorem toLower_of_isDigit {c : Char} (h : c.isDigit = true) : c.toLower = c := by
  have hhi : c.toNat ≤ 57 := by
    have hbounds : 48 ≤ c.toNat ∧ c.toNat ≤ 57 := by
      simpa [Char.isDigit, UInt32.le_iff_toNat_le] using h
    exact hbounds.2
  refine dif_neg fun hupper => ?_
  have hlo : 65 ≤ c.toNat := hupper.1
  omega

/-- A written integer spells no truth value. -/
theorem toLower_text_ne (n : Int) (b : Bool) :
    (Integer.text n).toList.map Char.toLower ≠ (Scalar.boolText b).toList := by
  cases n with
  | ofNat m =>
      cases hdigits : Nat.toDigits 10 m with
      | nil => exact absurd hdigits Nat.toDigits_ne_nil
      | cons c rest =>
          have hdigit : c.isDigit = true :=
            Nat.isDigit_of_mem_toDigits (b := 10) (n := m) (by decide) (by decide)
              (hdigits ▸ List.mem_cons_self)
          have htext : (Integer.text (.ofNat m)).toList = c :: rest := by
            rw [Integer.text, String.toList_ofList, hdigits]
          rw [htext, List.map_cons, toLower_of_isDigit hdigit]
          intro h
          have hc : c = 't' ∨ c = 'f' := by
            cases b
            · exact .inr (List.cons.inj h).1
            · exact .inl (List.cons.inj h).1
          rcases hc with rfl | rfl <;> simp at hdigit
  | negSucc m => cases b <;> simp [Integer.text, Scalar.boolText]

/-- Reading a key that is no text as a key of another kind keeps its literal. -/
theorem literal_of_readKey {kind other : KeyKind} {key k : MapKey} (hkey : kind.Admits key)
    (hkind : kind ≠ .string) (h : other.readKey key.literal = .ok k) : k.literal = key.literal := by
  have hne := literal_ne_empty hkey hkind
  cases other with
  | string =>
      rw [← Except.ok.inj h]
      rfl
  | char =>
      rcases map_eq_ok.1 h with ⟨c, hc, rfl⟩
      exact ofList_of_toChar hne hc
  | bool =>
      rcases map_eq_ok.1 h with ⟨b, hb, rfl⟩
      have hlower := toLower_of_toBool hne hb
      cases key with
      | bool value => cases value <;> cases b <;> first | rfl | exact absurd hlower (by decide)
      | int n => exact absurd hlower (toLower_text_ne n b)
      | char c => cases b <;> simp [MapKey.literal, Scalar.boolText] at hlower
      | text s => cases kind <;> first | exact hkey.elim | exact absurd rfl hkind
  | int k' =>
      rcases map_eq_ok.1 h with ⟨v, hv, rfl⟩
      rcases exists_read_of_read hne hv with ⟨lo, hi, hread⟩
      cases key with
      | bool value =>
          have hletter : Integer.read lo hi (Scalar.boolText value).toList =
              .error .invalidDigit := by
            cases value <;> exact Integer.read_of_letter _ (by decide) (by decide) (by decide)
          simp [MapKey.literal, hletter] at hread
      | int n => exact congrArg Integer.text (Integer.eq_of_read_text hread)
      | char c =>
          rw [MapKey.literal, String.toList_ofList] at hread
          exact Integer.text_of_read_singleton hread
      | text s => cases kind <;> first | exact hkey.elim | exact absurd rfl hkind

end KeyKind

end TreeSync
