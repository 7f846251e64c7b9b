import TreeSync.Proofs.Scalar.Literals

/-!
# Integers stored in slots

A truth value, a number or a character denotes an integer.  An integer slot stores it unchanged
if its kind contains it, and refuses it otherwise: nothing is ever cut down to a narrower width
or read with another sign.  So a number that has passed through one kind arrives at another kind
as it would have arrived without the detour.

Main definitions and results:

- `Scalar.integer?`: the integer that a scalar denotes.
- `Slot.store`: a slot and the outcome after it was asked to take a scalar.
- `Scalar.convert_convert`: conversions one after the other.
- `Slot.store_integer`: storing in an integer slot.
-/

namespace TreeSync

namespace Scalar

/-- The integer that a scalar denotes: one or zero for a truth value, the code point for a
character. -/
def integer? : Scalar → Option Int
  | bool b => some (if b then 1 else 0)
  | int v => some v.toInt
  | uint v => some v.toNat
  | char c => some c.toNat
  | float _ | text _ => none

/-- The scalar is a number of one of the two integer forms. -/
def IsNumber (s : Scalar) : Prop :=
  (∃ v, s = int v) ∨ ∃ v, s = uint v

variable {s v w : Scalar} {k j : IntKind} {n : Int}

/-- What denotes an integer is asked whether that integer fits. -/
theorem exists_toInteger_eq (h : s.integer? = some n) (k : IntKind) :
    ∃ shown, s.toInteger k = k.fit n shown := by
  cases s with
  | float v => cases h
  | text t => cases h
  | _ =>
      obtain rfl := Option.some.inj h
      exact ⟨_, rfl⟩

/-- A number that does not fit is shown as its canonical literal. -/
theorem IsNumber.toInteger_eq (hs : s.IsNumber) :
    ∃ n, ∀ k : IntKind, s.toInteger k = k.fit n (Integer.text n) := by
  obtain ⟨v, rfl⟩ | ⟨v, rfl⟩ := hs
  · exact ⟨v.toInt, fun _ => rfl⟩
  · exact ⟨v.toNat, fun _ => rfl⟩

/-- A number converted to one integer kind converts to another one as the number itself does. -/
theorem convert_convert (hv : v.IsNumber) (h : v.convert (.int j) = .ok w) :
    w.convert (.int k) = v.convert (.int k) := by
  obtain ⟨n, hfit⟩ := hv.toInteger_eq
  rw [convert, hfit] at h
  obtain ⟨x, hx, rfl⟩ := map_eq_ok.1 h
  rw [convert, convert, hfit, IntKind.toInteger_toScalar, IntKind.fit_eq_ok_iff.1 hx]

end Scalar

namespace IntKind

variable {k : IntKind} {n : Int}

theorem fit_of_contains (h : k.Contains n) (shown : String) : k.fit n shown = .ok ⟨n, h⟩ :=
  fit_eq_ok_iff.2 rfl

theorem fit_of_not_contains (h : ¬ k.Contains n) (shown : String) :
    k.fit n shown = .error (.overflow shown k.name) := by
  rw [fit, dif_neg h]

end IntKind

namespace Slot

/-- A slot after it was asked to take a scalar, and whether it did.  A slot that does not take
the scalar keeps its content. -/
def store (slot : Slot) (s : Scalar) : Slot × Except ConversionError Unit :=
  match slot.set s with
  | .ok written => (written, .ok ())
  | .error err => (slot, .error err)

/-- An integer slot of any kind and with any content takes a scalar that denotes an integer
exactly if the kind contains the integer, and then holds its normal form.  Otherwise the integer
overflows and the content stays.  So conversions of numbers between integer kinds come to the
same with and without a detour. -/
theorem store_integer (k : IntKind) (content : { n : Int // k.Contains n }) :
    (∀ s n, Scalar.integer? s = some n →
      ((∃ written, (int k content.1 content.2).store s = (written, .ok ())) ↔ k.Contains n) ∧
      (∀ written, (int k content.1 content.2).store s = (written, .ok ()) →
        written.kind = .int k ∧ k.Denotes written.get n) ∧
      (¬ k.Contains n → ∃ shown, (int k content.1 content.2).store s =
        (int k content.1 content.2, .error (.overflow shown k.name)))) ∧
    ∀ v : Scalar, v.IsNumber → ∀ j w, v.convert (.int k) = .ok w →
      w.convert (.int j) = v.convert (.int j) := by
  refine ⟨fun s n hs => ?_, fun v hv j w h => Scalar.convert_convert hv h⟩
  obtain ⟨shown, hfit⟩ := Scalar.exists_toInteger_eq hs k
  by_cases hn : k.Contains n
  · have hstore : (int k content.1 content.2).store s = (int k n hn, .ok ()) := by
      rw [store, set, kind, ofScalar, hfit, IntKind.fit_of_contains hn]
      rfl
    have hdenotes : k.Denotes (k.toScalar ⟨n, hn⟩) n := (IntKind.denotes_iff ⟨n, hn⟩).2 rfl
    refine ⟨iff_of_true ⟨_, hstore⟩ hn, fun written h => ?_, fun hout => absurd hn hout⟩
    obtain rfl := (Prod.mk.inj (hstore.symm.trans h)).1
    exact ⟨rfl, hdenotes⟩
  · have hstore : (int k content.1 content.2).store s =
        (int k content.1 content.2, .error (.overflow shown k.name)) := by
      rw [store, set, kind, ofScalar, hfit, IntKind.fit_of_not_contains hn]
      rfl
    have hfails : ∀ written, (int k content.1 content.2).store s ≠ (written, .ok ()) := by
      intro written h
      exact error_ne_ok (Prod.mk.inj (hstore.symm.trans h)).2
    exact ⟨iff_of_false (not_exists.2 hfails) hn, fun written h => absurd h (hfails written),
      fun _ => ⟨shown, hstore⟩⟩

/-- A byte takes two hundred, and minus one overflows. -/
theorem store_integer_byte :
    let byte : Slot := int .u8 7 (by decide)
    (∃ written, byte.store (.int 200) = (written, .ok ()) ∧ IntKind.u8.Denotes written.get 200) ∧
    (∃ shown, byte.store (.int (-1)) = (byte, .error (.overflow shown "u8"))) ∧
    (Scalar.int 200).convert (.int .i16) = .ok (.int 200) := by
  intro byte
  obtain ⟨htakes, hconvert⟩ := store_integer .u8 ⟨7, by decide⟩
  obtain ⟨hiff, hholds, -⟩ := htakes (.int 200) 200 (by decide)
  obtain ⟨written, hwritten⟩ := hiff.2 (by decide)
  refine ⟨⟨written, hwritten, (hholds _ hwritten).2⟩, ?_, ?_⟩
  · exact (htakes (.int (-1)) (-1) (by decide)).2.2 (by decide)
  · exact (hconvert (.int 200) (.inl ⟨_, rfl⟩) .i16 (.uint 200) (by rfl)).symm.trans (by rfl)

end Slot

end TreeSync
