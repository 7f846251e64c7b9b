import TreeSync.Json.Basic
import TreeSync.Node.MapKey
import TreeSync.Proofs.Entries.Ascending
import TreeSync.Proofs.Number.Reading

/-!
# The order of map keys

Keys that a map admits are values of its key kind.  Both orders of entries decide
between any two of them, and each key is read back from its literal.

Main results:

- `KeyKind.readKey_literal`: a key is read back from its literal.
- `MapOrder.orders`: both orders of entries are strict and total on the keys of
  a kind.
-/

namespace TreeSync

namespace KeyKind

/-- The key is a value of the kind. -/
def Admits : KeyKind → MapKey → Prop
  | bool, .bool _ => True
  | int k, .int n => k.Contains n
  | char, .char _ => True
  | string, .text _ => True
  | _, _ => False

/-- A key that was read is a value of its kind. -/
theorem admits_of_readKey {kind : KeyKind} {literal : String} {key : MapKey}
    (h : kind.readKey literal = .ok key) : kind.Admits key := by
  cases kind with
  | bool =>
      cases hb : (Scalar.text literal).toBool with
      | error e => simp [readKey, hb, Functor.map, Except.map] at h
      | ok b =>
          simp only [readKey, hb, Functor.map, Except.map, Except.ok.injEq] at h
          subst h
          trivial
  | int k =>
      cases hn : k.read literal with
      | error e => simp [readKey, hn, Functor.map, Except.map] at h
      | ok n =>
          simp only [readKey, hn, Functor.map, Except.map, Except.ok.injEq] at h
          subst h
          exact n.2
  | char =>
      cases hc : (Scalar.text literal).toChar with
      | error e => simp [readKey, hc, Functor.map, Except.map] at h
      | ok c =>
          simp only [readKey, hc, Functor.map, Except.map, Except.ok.injEq] at h
          subst h
          trivial
  | string =>
      simp only [readKey, Except.ok.injEq] at h
      subst h
      trivial

theorem contains_widest {k : IntKind} {n : Int} (h : k.Contains n) :
    k.widest.lo ≤ n ∧ n ≤ k.widest.hi := by
  have hlo : k.widest.lo ≤ k.lo := by cases k <;> decide
  have hhi : k.hi ≤ k.widest.hi := by cases k <;> decide
  exact ⟨Int.le_trans hlo h.1, Int.le_trans h.2 hhi⟩

theorem text_ne_empty (n : Int) : (Integer.text n).isEmpty = false := by
  cases n with
  | ofNat m => simp [Integer.text]
  | negSucc m => simp [Integer.text]

/-- A key of a kind is read back from its literal. -/
theorem readKey_literal {kind : KeyKind} {key : MapKey} (h : kind.Admits key) :
    kind.readKey key.literal = .ok key := by
  cases kind with
  | bool =>
      cases key with
      | bool b => cases b <;> rfl
      | _ => exact h.elim
  | int k =>
      cases key with
      | int n =>
          have hc : k.Contains n := h
          obtain ⟨hlo, hhi⟩ := contains_widest hc
          simp [readKey, MapKey.literal, IntKind.read, text_ne_empty, Integer.read_text hlo hhi,
            IntKind.fit, hc, Functor.map, Except.map]
      | _ => exact h.elim
  | char =>
      cases key with
      | char c => simp [readKey, MapKey.literal, Scalar.toChar, Functor.map, Except.map]
      | _ => exact h.elim
  | string =>
      cases key with
      | text s => rfl
      | _ => exact h.elim

/-- Different keys of a kind have different literals. -/
theorem literal_ne {kind : KeyKind} {a b : MapKey} (ha : kind.Admits a) (hb : kind.Admits b)
    (hne : a ≠ b) : a.literal ≠ b.literal := by
  intro h
  have hread := readKey_literal ha
  rw [h, readKey_literal hb] at hread
  exact hne (Except.ok.inj hread).symm

end KeyKind

/-- Of two different texts one stands in front of the other. -/
theorem lt_or_lt_of_text_ne {a b : String} (h : a ≠ b) : a < b ∨ b < a := by
  by_cases hab : a < b
  · exact Or.inl hab
  · by_cases hba : b < a
    · exact Or.inr hba
    · exact absurd (String.le_antisymm (String.not_lt.1 hba) (String.not_lt.1 hab)) h

namespace MapKey

theorem before_irrefl (a : MapKey) : a.before a = false := by
  cases a <;> simp [before]

theorem before_trans {a b c : MapKey} (hab : a.before b = true) (hbc : b.before c = true) :
    a.before c = true := by
  cases a <;> cases b <;> simp only [before, reduceCtorEq] at hab
  all_goals cases c <;> simp only [before, reduceCtorEq] at hbc
  · simp_all
  · exact decide_eq_true (Int.lt_trans (of_decide_eq_true hab) (of_decide_eq_true hbc))
  · exact decide_eq_true (Char.lt_trans (of_decide_eq_true hab) (of_decide_eq_true hbc))
  · exact decide_eq_true (String.lt_trans (of_decide_eq_true hab) (of_decide_eq_true hbc))

/-- The order decides between any two different keys of a kind. -/
theorem before_or_before {kind : KeyKind} {a b : MapKey} (ha : kind.Admits a)
    (hb : kind.Admits b) (hne : a ≠ b) : a.before b = true ∨ b.before a = true := by
  cases kind <;> cases a <;> simp only [KeyKind.Admits] at ha <;> cases b <;>
    simp only [KeyKind.Admits] at hb
  · rename_i x y
    cases x <;> cases y <;> simp_all [before]
  · rename_i k x y
    have hxy : x ≠ y := fun h => hne (h ▸ rfl)
    simp only [before, decide_eq_true_eq]
    omega
  · rename_i x y
    have hxy : x ≠ y := fun h => hne (h ▸ rfl)
    simp only [before, decide_eq_true_eq]
    by_cases hlt : x < y
    · exact Or.inl hlt
    · by_cases hgt : y < x
      · exact Or.inr hgt
      · exact absurd (Char.le_antisymm (Char.not_lt.1 hgt) (Char.not_lt.1 hlt)) hxy
  · rename_i x y
    have hxy : x ≠ y := fun h => hne (h ▸ rfl)
    simpa only [before, decide_eq_true_eq] using lt_or_lt_of_text_ne hxy

end MapKey

namespace MapOrder

/-- Both orders are strict and decide between the keys of a kind. -/
theorem orders (order : MapOrder) (kind : KeyKind) :
    Entries.Orders order.before kind.Admits := by
  cases order with
  | sorted =>
      exact ⟨MapKey.before_irrefl, fun _ _ _ => MapKey.before_trans,
        fun _ _ => MapKey.before_or_before⟩
  | hashed =>
      refine ⟨fun a => ?_, fun a b c hab hbc => ?_, fun a b ha hb hne => ?_⟩
      · simp only [before, String.lt_irrefl, decide_false]
      · simp only [before, decide_eq_true_eq] at hab hbc ⊢
        exact String.lt_trans hab hbc
      · simp only [before, decide_eq_true_eq]
        exact lt_or_lt_of_text_ne (KeyKind.literal_ne ha hb hne)

end MapOrder

namespace Json

/-- The order of member names is strict and total. -/
theorem nameOrders : Entries.Orders nameBefore fun _ => True where
  irrefl a := by simp only [nameBefore, String.lt_irrefl, decide_false]
  trans a b c hab hbc := by
    simp only [nameBefore, decide_eq_true_eq] at hab hbc ⊢
    exact String.lt_trans hab hbc
  total a b _ _ hne := by
    simp only [nameBefore, decide_eq_true_eq]
    exact lt_or_lt_of_text_ne hne

end Json

end TreeSync
