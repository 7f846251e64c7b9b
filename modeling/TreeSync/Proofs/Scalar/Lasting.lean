import TreeSync.Node.Equality
import TreeSync.Proofs.Scalar.Integers

/-!
# Literals that outlast a conversion

Values are compared by their canonical literals, so a value that was converted equals the
value from before only if the conversion kept the literal.  Conversions within a kind and into
text do, with one exception: a single-precision number is written out at double precision by
any other kind.  Between kinds the literal is mostly lost: a number that becomes a truth value
is no longer written as a number, a character that becomes a number is written as its code.

Main definitions and results:

- `Slot.KeepsLiteral`: the values whose literal outlasts the conversion to a type.
- `Slot.literal_ofScalar_iff`: conversions to a scalar kind.
- `Document.literal_ofScalar_iff`: conversions to a document.
-/

namespace TreeSync

/-! ## Literals of different kinds -/

namespace FloatLayout

/-- Positional digits are digits with at most a point between them. -/
theorem mem_positionalText_plain {d : Decimal} {c : Char}
    (hc : c ∈ (plain.positionalText d).toList) : c.isDigit = true ∨ c = '.' := by
  have hdigit : ∀ {m : Nat}, c ∈ Nat.toDigits 10 m → c.isDigit = true := fun h =>
    Nat.isDigit_of_mem_toDigits (by decide) (by decide) h
  have hzero : ∀ {m : Nat}, m ≠ 0 ∧ c = '0' → c.isDigit = true := by
    rintro m ⟨-, rfl⟩
    decide
  rw [positionalText] at hc
  split at hc
  · rcases (by simpa [plain] using hc) with h | h
    · exact .inl (hdigit h)
    · exact .inl (hzero h)
  · simp only at hc
    split at hc
    · rcases (by simpa using hc) with h | rfl | h
      · exact .inl (hdigit (List.mem_of_mem_take h))
      · exact .inr rfl
      · exact .inl (hdigit (List.mem_of_mem_drop h))
    · rcases (by simpa using hc) with rfl | rfl | h | h
      · exact .inl (by decide)
      · exact .inr rfl
      · exact .inl (hzero h)
      · exact .inl (hdigit h)

/-- Plain text is made of digits, a sign and a point. -/
theorem mem_text_plain {b : Binary} {c : Char} (hc : c ∈ (plain.text b).toList) :
    c.isDigit = true ∨ c = '.' ∨ c = '-' := by
  rw [text, String.toList_append, List.mem_append] at hc
  rcases hc with hsign | hmagnitude
  · cases hnegative : b.negative with
    | true =>
        rw [hnegative] at hsign
        exact .inr (.inr (by simpa using hsign))
    | false => simp [hnegative] at hsign
  · split at hmagnitude
    · exact .inl (by simp_all [plain])
    · exact (mem_positionalText_plain hmagnitude).imp_right .inl

/-- A floating-point number is not written as a truth value. -/
theorem plainText_ne_boolText (x : FloatClass) (b : Bool) : plainText x ≠ Scalar.boolText b := by
  cases x with
  | nan => cases b <;> decide
  | infinite negative => cases negative <;> cases b <;> decide
  | finite y =>
      intro h
      have he : 'e' ∈ (plain.text y).toList := by
        rw [show plain.text y = _ from h]
        cases b <;> decide
      rcases mem_text_plain he with hdigit | hpoint | hsign
      · exact absurd hdigit (by decide)
      · exact absurd hpoint (by decide)
      · exact absurd hsign (by decide)

end FloatLayout

namespace Integer

/-- An integer is not written as a truth value. -/
theorem text_ne_boolText (n : Int) (b : Bool) : text n ≠ Scalar.boolText b := by
  intro h
  refine KeyKind.toLower_text_ne n b ?_
  rw [h]
  cases b <;> decide

/-- A character is not written as its code point. -/
theorem text_toNat_ne (c : Char) : text c.toNat ≠ String.ofList [c] := by
  intro h
  have hdigits : Nat.toDigits 10 c.toNat = [c] := String.ofList_injective h
  have hlt : c.toNat < 10 := by
    have hlength : (Nat.toDigits 10 c.toNat).length ≤ 1 :=
      Nat.le_of_eq (congrArg List.length hdigits)
    simpa using (Nat.length_toDigits_le_iff (by decide) (by decide)).1 hlength
  rw [Nat.toDigits_of_lt_base hlt] at hdigits
  have hcode := toNat_digitChar hlt
  rw [List.head_eq_of_cons_eq hdigits] at hcode
  omega

end Integer

/-- A detached integer has the literal that it had in its slot. -/
theorem IntKind.literal_toScalar {k : IntKind} (x : { n : Int // k.Contains n }) :
    (k.toScalar x).literal = Integer.text x.1 := by
  rw [toScalar]
  cases hsigned : k.signed with
  | true => rw [if_pos rfl, Scalar.literal, toInt_ofInt_of_signed hsigned x.2]
  | false => rw [if_neg Bool.false_ne_true, Scalar.literal, toNat_ofNat_of_unsigned hsigned x.2]

/-! ## Conversions that keep the literal -/

namespace Slot

/-- The number is an integer that is written as `shown`. -/
def SpellsInteger (v : Float) (shown : String) : Prop :=
  ∃ b n, decodeDouble v = .finite b ∧ b.toInt? = some n ∧ Integer.text n = shown

/-- The literal of a value outlasts its conversion to a type without layers.  Conversions
to floating-point numbers are left out. -/
def KeepsLiteral : Ty → Slot → Prop
  | .scalar .bool, bool _ => True
  | .scalar .bool, text s => s = "true" ∨ s = "false"
  | .scalar (.int _), int .. => True
  | .scalar (.int _), text s => ∃ n, Integer.text n = s
  -- A whole number of more digits than a double holds is written with zeros for the others.
  | .scalar (.int _), f32 v => SpellsInteger v.toFloat (singleText v)
  | .scalar (.int _), f64 v => SpellsInteger v (doubleText v)
  | .scalar .char, char _ => True
  | .scalar .char, text s => s ≠ ""
  | .scalar .string, f32 v | .dynamic, f32 v => doubleText v.toFloat = singleText v
  | .scalar .string, _ => True
  -- Documents have no unsigned numbers.
  | .dynamic, int _ n _ =>
      n.toNat < UInt64.size / 2 ∨ doubleText (Float.ofNat n.toNat) = Integer.text n
  | .dynamic, _ => True
  | _, _ => False

variable {value written : Slot} {k : IntKind}

/-- Among the truth values only the two words for them are written as they were. -/
theorem literal_toBool_iff {b : Bool} (h : value.get.toBool = .ok b) :
    Scalar.boolText b = value.literal ↔ value.KeepsLiteral (.scalar .bool) := by
  cases value with
  | bool v =>
      obtain rfl := Except.ok.inj h
      exact iff_of_true rfl trivial
  | int k n hn => exact iff_of_false (Integer.text_ne_boolText n b).symm id
  | f32 v => exact iff_of_false (FloatLayout.plainText_ne_boolText _ b).symm id
  | f64 v => exact iff_of_false (FloatLayout.plainText_ne_boolText _ b).symm id
  | char c => cases h
  | text s =>
      constructor
      · intro hb
        cases b
        · exact .inr hb.symm
        · exact .inl hb.symm
      · rintro (rfl | rfl)
        · obtain rfl := Except.ok.inj h
          rfl
        · obtain rfl := Except.ok.inj h
          rfl

/-- A floating-point number that was read as an integer is that integer. -/
theorem spellsInteger_iff {v : Float} {x : { n : Int // k.Contains n }}
    (h : (Scalar.float v).toInteger k = .ok x) (shown : String) :
    Integer.text x.1 = shown ↔ SpellsInteger v shown := by
  rw [Scalar.toInteger] at h
  split at h
  · rename_i b hb
    split at h
    · rename_i n hn
      rw [IntKind.fit_eq_ok_iff] at h
      rw [h]
      constructor
      · exact fun hshown => ⟨b, n, hb, hn, hshown⟩
      · rintro ⟨b', n', hb', hn', hshown⟩
        obtain rfl := FloatClass.finite.inj (hb.symm.trans hb')
        obtain rfl := Option.some.inj (hn.symm.trans hn')
        exact hshown
    · cases h
  · cases h

/-- Among the integers a number and its literal are written as they were, and so are the whole
numbers that a floating-point number writes out. -/
theorem literal_toInteger_iff {x : { n : Int // k.Contains n }}
    (h : value.get.toInteger k = .ok x) :
    Integer.text x.1 = value.literal ↔ value.KeepsLiteral (.scalar (.int k)) := by
  cases value with
  | bool v => exact iff_of_false (Integer.text_ne_boolText _ v) id
  | int j n hn =>
      rw [get, IntKind.toInteger_toScalar, IntKind.fit_eq_ok_iff] at h
      exact iff_of_true (congrArg Integer.text h) trivial
  | f32 v => exact spellsInteger_iff h _
  | f64 v => exact spellsInteger_iff h _
  | char c =>
      rw [get, Scalar.toInteger, IntKind.fit_eq_ok_iff] at h
      refine iff_of_false ?_ id
      rw [h]
      exact Integer.text_toNat_ne c
  | text s =>
      constructor
      · exact fun hs => ⟨x.1, hs⟩
      · rintro ⟨n, rfl⟩
        rw [get, Scalar.toInteger, IntKind.read_text_iff] at h
        exact congrArg Integer.text h

/-- The code point of a character that a number was read as is that number. -/
theorem toNat_of_charOfCode {n : Int} {c : Char} (h : Scalar.charOfCode n = .ok c) :
    (c.toNat : Int) = n := by
  rw [Scalar.charOfCode] at h
  split at h
  · rename_i hcode
    obtain rfl := Except.ok.inj h
    rw [Char.ofNat, dif_pos hcode.2]
    exact Int.toNat_of_nonneg hcode.1
  · cases h

/-- Among the characters only characters and texts are written as they were. -/
theorem literal_toChar_iff {c : Char} (h : value.get.toChar = .ok c) :
    String.ofList [c] = value.literal ↔ value.KeepsLiteral (.scalar .char) := by
  cases value with
  | bool v => cases h
  | int j n hn =>
      have hcode : (c.toNat : Int) = n := by
        rw [get, IntKind.toScalar] at h
        cases hsigned : j.signed with
        | true =>
            rw [hsigned, if_pos rfl] at h
            exact (toNat_of_charOfCode h).trans (IntKind.toInt_ofInt_of_signed hsigned hn)
        | false =>
            rw [hsigned, if_neg Bool.false_ne_true] at h
            exact (toNat_of_charOfCode h).trans (IntKind.toNat_ofNat_of_unsigned hsigned hn)
      refine iff_of_false ?_ id
      rw [literal, ← hcode]
      exact (Integer.text_toNat_ne c).symm
  | f32 v => cases h
  | f64 v => cases h
  | char v =>
      obtain rfl := Except.ok.inj h
      exact iff_of_true rfl trivial
  | text s =>
      constructor
      · rintro hs rfl
        exact absurd hs (by simp [literal])
      · exact fun hs => KeyKind.ofList_of_toChar hs h

/-- Among the texts everything is written as it was, but for single precision. -/
theorem literal_get_iff :
    value.get.literal = value.literal ↔ value.KeepsLiteral (.scalar .string) := by
  cases value with
  | int k n h => exact iff_of_true (IntKind.literal_toScalar ⟨n, h⟩) trivial
  | f32 v => exact Iff.rfl
  | _ => exact iff_of_true rfl trivial

/-- A value converted to a kind is written as before exactly if its literal outlasts the
conversion. -/
theorem literal_ofScalar_iff {kind : ScalarKind} (hkind : kind.isFloat = false)
    (h : ofScalar kind value.get = .ok written) :
    written.literal = value.literal ↔ value.KeepsLiteral (.scalar kind) := by
  cases kind with
  | bool =>
      rcases map_eq_ok.1 h with ⟨b, hb, rfl⟩
      exact literal_toBool_iff hb
  | int k =>
      rcases map_eq_ok.1 h with ⟨x, hx, rfl⟩
      exact literal_toInteger_iff hx
  | f32 => cases hkind
  | f64 => cases hkind
  | char =>
      rcases map_eq_ok.1 h with ⟨c, hc, rfl⟩
      exact literal_toChar_iff hc
  | string =>
      obtain rfl := Except.ok.inj h
      exact literal_get_iff

end Slot

namespace Document

variable {σ : Type}

/-- A leaf equals what has its literal. -/
theorem same_ofScalar (s : Scalar) (b : Node σ) :
    (ofScalar s).same b = (b.literal? == (ofScalar s).literal?) := by
  cases s with
  | uint n =>
      rw [ofScalar]
      split
      · rw [same]
        rfl
      · rw [same]
        rfl
  | _ =>
      rw [ofScalar, same]
      rfl

/-- An unsigned number is written as before in the signed range, and beyond it where a
floating-point number writes out all of its digits. -/
theorem literal_ofUnsigned_iff {u : UInt64} :
    (ofScalar (.uint u)).literal? = some (Integer.text u.toNat) ↔
      u.toNat < UInt64.size / 2 ∨ doubleText (Float.ofNat u.toNat) = Integer.text u.toNat := by
  rw [ofScalar]
  by_cases hsmall : u.toNat < UInt64.size / 2
  · have hlt : u.toNat < 9223372036854775808 := hsmall
    rw [if_pos hsmall]
    refine iff_of_true ?_ (.inl hsmall)
    refine congrArg (fun i => some (Integer.text i)) (Int64.toInt_ofInt_of_le ?_ ?_)
    · exact Int.le_trans (by decide) (Int.natCast_nonneg u.toNat)
    · exact Int.ofNat_lt.2 hlt
  · rw [if_neg hsmall, or_iff_right hsmall]
    exact Option.some_inj

/-- A value that became a document is written as before exactly if its literal outlasts the
conversion. -/
theorem literal_ofScalar_iff {value : Slot} :
    (ofScalar value.get).literal? = some value.literal ↔ value.KeepsLiteral .dynamic := by
  cases value with
  | int k n h =>
      rw [Slot.get, IntKind.toScalar]
      cases hsigned : k.signed with
      | true =>
          have hhi := (KeyKind.contains_widest h).2
          rw [IntKind.widest, if_pos hsigned] at hhi
          have hsmall : n.toNat ≤ 9223372036854775807 := Int.toNat_le.2 hhi
          refine iff_of_true ?_ (.inl (Nat.lt_succ_of_le hsmall))
          exact congrArg (fun i => some (Integer.text i)) (IntKind.toInt_ofInt_of_signed hsigned h)
      | false =>
          have hvalue := IntKind.toNat_ofNat_of_unsigned hsigned h
          have hsame : (UInt64.ofNat n.toNat).toNat = n.toNat := by omega
          have hiff := literal_ofUnsigned_iff (u := UInt64.ofNat n.toNat)
          rw [hvalue, hsame] at hiff
          exact hiff
  | f32 v => exact Option.some_inj
  | _ => exact iff_of_true rfl trivial

end Document

end TreeSync
