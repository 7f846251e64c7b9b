import TreeSync.Proofs.Node.KeyReading
import TreeSync.Scalar.Slot

/-!
# Integers converted between kinds

An integer reaches another kind as a value that is checked against the bounds of that kind,
or as a literal that is read within 64 bits first and checked then.  Either way it arrives as
itself or not at all.

Main results:

- `IntKind.fit_eq_ok_iff`, `IntKind.read_text_iff`: a value and its literal within bounds.
- `IntKind.toInteger_toScalar`: a detached value of one kind asked for a value of another.
- `Slot.set_toScalar_iff`: a slot takes a value and its literal alike.
-/

namespace TreeSync

namespace IntKind

variable {k j : IntKind} {n : Int} {shown : String} {x : { n : Int // k.Contains n }}

/-- What fits is taken as it is. -/
theorem fit_eq_ok_iff : k.fit n shown = .ok x ↔ x.1 = n := by
  rw [fit]
  split
  · rw [Except.ok.injEq, eq_comm, Subtype.ext_iff]
  · rename_i hout
    constructor
    · intro h
      cases h
    · rintro rfl
      exact absurd x.2 hout

/-- A written integer is read as itself where it is a value of the kind. -/
theorem read_text_iff : k.read (Integer.text n) = .ok x ↔ x.1 = n := by
  constructor
  · intro h
    rcases KeyKind.exists_read_of_read (by simpa using KeyKind.text_ne_empty n) h with
      ⟨lo, hi, hread⟩
    exact Integer.eq_of_read_text hread
  · rintro rfl
    obtain ⟨hlo, hhi⟩ := KeyKind.contains_widest x.2
    rw [read, if_neg (by simp [KeyKind.text_ne_empty]), Integer.read_text hlo hhi]
    exact fit_eq_ok_iff.2 rfl

/-- A value of a signed kind fits into 64 bits with a sign. -/
theorem toInt_ofInt_of_signed (hsigned : k.signed = true) (h : k.Contains n) :
    (Int64.ofInt n).toInt = n := by
  obtain ⟨hlo, hhi⟩ := KeyKind.contains_widest h
  rw [widest, if_pos hsigned] at hlo hhi
  exact Int64.toInt_ofInt_of_le hlo (Int.lt_of_le_of_lt hhi (by decide))

/-- A value of an unsigned kind fits into 64 bits. -/
theorem toNat_ofNat_of_unsigned (hsigned : k.signed = false) (h : k.Contains n) :
    ((UInt64.ofNat n.toNat).toNat : Int) = n := by
  obtain ⟨hlo, hhi⟩ := KeyKind.contains_widest h
  rw [widest, hsigned] at hlo hhi
  have hpos : 0 ≤ n := hlo
  have hlt : n ≤ 18446744073709551615 := hhi
  rw [UInt64.toNat_ofNat_of_lt' (by change n.toNat < 18446744073709551616; omega)]
  omega

/-- A detached value of one kind is a value of another kind where it fits. -/
theorem toInteger_toScalar (y : { n : Int // j.Contains n }) :
    (j.toScalar y).toInteger k = k.fit y.1 (Integer.text y.1) := by
  rw [toScalar]
  cases hsigned : j.signed with
  | true => rw [if_pos rfl, Scalar.toInteger, toInt_ofInt_of_signed hsigned y.2]
  | false =>
      rw [if_neg Bool.false_ne_true, Scalar.toInteger, toNat_ofNat_of_unsigned hsigned y.2]

end IntKind

namespace Slot

variable {j k : IntKind} {slot : Slot}

/-- An integer slot takes a value of any integer kind and the literal of the value alike. -/
theorem set_toScalar_iff (hslot : slot.kind = .int k) (y : { n : Int // j.Contains n })
    {written : Slot} :
    slot.set (j.toScalar y) = .ok written ↔
      slot.set (.text (Integer.text y.1)) = .ok written := by
  rw [set, set, hslot, ofScalar, ofScalar, IntKind.toInteger_toScalar, Scalar.toInteger,
    map_eq_ok, map_eq_ok]
  simp only [IntKind.fit_eq_ok_iff, IntKind.read_text_iff]

/-- A slot takes a value of its own kind as it is, unless the kind is a floating-point one. -/
theorem set_get {value : Slot} (hkind : slot.kind = value.kind)
    (hfloat : value.kind.isFloat = false) : slot.set value.get = .ok value := by
  rw [set, hkind]
  cases value with
  | int k n h =>
      rw [kind, ofScalar, get, IntKind.toInteger_toScalar, map_eq_ok]
      exact ⟨⟨n, h⟩, IntKind.fit_eq_ok_iff.2 rfl, rfl⟩
  | f32 v => cases hfloat
  | f64 v => cases hfloat
  | _ => rfl

end Slot

end TreeSync
