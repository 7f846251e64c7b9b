import TreeSync.Proofs.Number.Literals
import TreeSync.Proofs.Scalar.Lasting

/-!
# Integer literals of a kind

A literal is read at the widest width of its signedness and then checked against the bounds of
the kind, so a kind accepts the integer literals whose value it contains, however long they are,
and the empty text for zero.  What is read is the normal form of the value: one form for all
signed kinds and one for all unsigned kinds.  The literal of a normal form is read as that form
again.

Main definitions and results:

- `IntKind.Spells`: the texts that stand for an integer.
- `IntKind.Denotes`: the normal form of an integer.
- `IntKind.read_eq_ok_iff`: the texts that are read within the bounds of a kind.
- `ScalarKind.read_integer`: reading, and reading what was written.
-/

namespace TreeSync

namespace IntKind

/-- A text that stands for an integer where values of a kind are read.  The empty text stands
for zero. -/
inductive Spells (k : IntKind) : String → Int → Prop where
  | empty : Spells k "" 0
  | literal {text : String} {n : Int} (h : Integer.Literal k.signed text.toList n) :
      Spells k text n

/-- The scalar is the normal form of an integer among the values of a kind. -/
def Denotes (k : IntKind) (s : Scalar) (n : Int) : Prop :=
  if k.signed then ∃ v : Int64, s = .int v ∧ v.toInt = n
  else ∃ v : UInt64, s = .uint v ∧ (v.toNat : Int) = n

variable {k : IntKind} {n : Int} {s : Scalar} {text : String}

/-- Within the bounds of a kind every integer has one normal form. -/
theorem denotes_iff (x : { n : Int // k.Contains n }) : k.Denotes s x.1 ↔ s = k.toScalar x := by
  rw [Denotes, toScalar]
  cases hsigned : k.signed with
  | true =>
      rw [if_pos rfl, if_pos rfl]
      constructor
      · rintro ⟨v, rfl, hv⟩
        rw [← hv, Int64.ofInt_toInt]
      · rintro rfl
        exact ⟨_, rfl, toInt_ofInt_of_signed hsigned x.2⟩
  | false =>
      rw [if_neg Bool.false_ne_true, if_neg Bool.false_ne_true]
      constructor
      · rintro ⟨v, rfl, hv⟩
        rw [← hv, Int.toNat_natCast, UInt64.ofNat_toNat]
      · rintro rfl
        exact ⟨_, rfl, toNat_ofNat_of_unsigned hsigned x.2⟩

/-! ## Reading -/

theorem widest_lo_nonpos (k : IntKind) : k.widest.lo ≤ 0 := by
  cases k <;> decide

theorem widest_hi_nonneg (k : IntKind) : 0 ≤ k.widest.hi := by
  cases k <;> decide

/-- Minus signs are read for the signed kinds. -/
theorem widest_lo_neg (k : IntKind) : decide (k.widest.lo < 0) = k.signed := by
  cases k <;> decide

/-- The empty text is no integer literal, and stands for zero. -/
theorem spells_empty_iff : k.Spells "" n ↔ n = 0 := by
  constructor
  · intro h
    cases h with
    | empty => rfl
    | literal h =>
        cases h with
        | unsigned hdigits => exact absurd rfl hdigits.ne_nil
  · rintro rfl
    exact .empty

/-- Any other text stands for what it is a literal of. -/
theorem spells_iff_literal (hne : text ≠ "") :
    k.Spells text n ↔ Integer.Literal k.signed text.toList n := by
  constructor
  · intro h
    cases h with
    | empty => exact absurd rfl hne
    | literal h => exact h
  · exact .literal

/-- A kind reads the texts that stand for one of its values. -/
theorem read_eq_ok_iff {x : { n : Int // k.Contains n }} :
    k.read text = .ok x ↔ k.Spells text x.1 := by
  rw [read]
  split
  · rename_i hempty
    rw [String.isEmpty_iff.1 hempty, spells_empty_iff, Except.ok.injEq, Subtype.ext_iff, eq_comm]
  · rename_i hne
    -- A value of the kind is a value of the widest kind, so only the literal is in question.
    have hwide : Integer.read k.widest.lo k.widest.hi text.toList = .ok x.1 ↔ _ :=
      Integer.read_eq_ok_iff k.widest_lo_nonpos k.widest_hi_nonneg
    rw [widest_lo_neg, and_iff_left (KeyKind.contains_widest x.2)] at hwide
    rw [spells_iff_literal fun h => hne (String.isEmpty_iff.2 h), ← hwide]
    cases Integer.read k.widest.lo k.widest.hi text.toList with
    | ok n => rw [fit_eq_ok_iff, Except.ok.injEq, eq_comm]
    | error fault =>
        refine iff_of_false (fun h => ?_) error_ne_ok
        simp only at h
        split at h <;> cases h

end IntKind

namespace ScalarKind

/-- An integer kind reads exactly the texts that stand for one of its values, as the normal form
of that value.  Every value of the kind is read back from its canonical literal, and the
canonical literal of what was read is read as the same scalar. -/
theorem read_integer (k : IntKind) :
    (∀ text s, (int k).read text = .ok s ↔
      ∃ n, k.Spells text n ∧ k.Contains n ∧ k.Denotes s n) ∧
    (∀ n, k.Contains n →
      ∃ s, (int k).read (Integer.text n) = .ok s ∧ k.Denotes s n ∧ s.literal = Integer.text n) ∧
    ∀ text s, (int k).read text = .ok s →
      (∃ n, k.Spells text n ∧ s.literal = Integer.text n) ∧ (int k).read s.literal = .ok s := by
  have hread : ∀ text s, (int k).read text = .ok s ↔ ∃ x, k.read text = .ok x ∧ k.toScalar x = s :=
    fun text s => map_eq_ok
  have hback : ∀ x, (int k).read (k.toScalar x).literal = .ok (k.toScalar x) := by
    intro x
    rw [hread, IntKind.literal_toScalar]
    exact ⟨x, IntKind.read_text_iff.2 rfl, rfl⟩
  refine ⟨fun text s => ?_, fun n hn => ?_, fun text s h => ?_⟩
  · rw [hread]
    constructor
    · rintro ⟨x, hx, rfl⟩
      exact ⟨x.1, IntKind.read_eq_ok_iff.1 hx, x.2, (IntKind.denotes_iff x).2 rfl⟩
    · rintro ⟨n, hspells, hn, hdenotes⟩
      exact ⟨⟨n, hn⟩, IntKind.read_eq_ok_iff.2 hspells,
        ((IntKind.denotes_iff ⟨n, hn⟩).1 hdenotes).symm⟩
  · have hliteral := IntKind.literal_toScalar (k := k) ⟨n, hn⟩
    refine ⟨k.toScalar ⟨n, hn⟩, ?_, (IntKind.denotes_iff ⟨n, hn⟩).2 rfl, hliteral⟩
    rw [← hliteral]
    exact hback ⟨n, hn⟩
  · obtain ⟨x, hx, rfl⟩ := (hread text s).1 h
    exact ⟨⟨x.1, IntKind.read_eq_ok_iff.1 hx, IntKind.literal_toScalar x⟩, hback x⟩

/-- A sign and leading zeros make no difference to the value. -/
example : (int .i8).read "-0128" = .ok (.int (-128)) := by rfl

end ScalarKind

end TreeSync
