import TreeSync.Proofs.Navigate.Failing
import TreeSync.Proofs.Navigate.Reading
import TreeSync.Proofs.Navigate.Scalars
import TreeSync.Proofs.Scalar.Integers

/-!
# Integers written as values and as literals

An integer can be written as a value of its own kind or as its decimal literal.  The value is
copied or checked against the bounds of the slot, the literal is read first.  For an integer
slot of any width both come to the same: in a field, in an entry that is there or not yet, and
as a new element of a list.  Content addressing is left out, since it compares the value but
not the literal with what a list holds.

Main definitions and results:

- `SameOutcome`: outcomes that leave the same node and fail together.
- `Schema.Interchangeable`: payloads that come to the same in every slot of a type.
- `Schema.interchangeable_integer`: a value and its literal in integer slots.
- `Schema.slotTy`: the type of the slot that a key is for.
- `Schema.sameOutcome_write`: interchangeable payloads at a key.
- `Schema.write_integer`: integers at a key.
-/

namespace TreeSync

open Node

variable {σ ε : Type}

/-! ## Outcomes -/

/-- Of two steps with the same results either both succeed or both fail. -/
theorem ok_or_error {α : Type} {x y : Except ε α} (h : ∀ a, x = .ok a ↔ y = .ok a) :
    (∃ a, x = .ok a ∧ y = .ok a) ∨ ∃ err err', x = .error err ∧ y = .error err' := by
  cases x with
  | ok a => exact .inl ⟨a, rfl, (h a).1 rfl⟩
  | error err =>
      cases y with
      | ok a => cases (h a).2 rfl
      | error err' => exact .inr ⟨err, err', rfl, rfl⟩

/-- Two outcomes leave the same node, and both succeed or both fail. -/
structure SameOutcome (x y : Node σ × Except ε Unit) : Prop where
  /-- The same node is left. -/
  node : x.1 = y.1
  /-- Both succeed or both fail. -/
  ok : x.2.isOk = y.2.isOk

namespace SameOutcome

variable {x y : Node σ × Except ε Unit}

theorem refl (x : Node σ × Except ε Unit) : SameOutcome x x :=
  ⟨rfl, rfl⟩

/-- Failures that leave the same node differ in their texts only. -/
theorem failed (n : Node σ) (err err' : ε) : SameOutcome (n, .error err) (n, .error err') :=
  ⟨rfl, rfl⟩

/-- Around the same outcome of a part the whole comes out the same. -/
theorem around (h : SameOutcome x y) (whole : Node σ → Node σ) :
    SameOutcome (whole x.1, x.2) (whole y.1, y.2) :=
  ⟨congrArg whole h.node, h.ok⟩

theorem putBack (h : SameOutcome x y) (n : Node σ) (a : Address) :
    SameOutcome (n.putBack a x) (n.putBack a y) :=
  h.around (n.replaceAt a)

/-- Either both succeed or both fail. -/
theorem ok_or_error (h : SameOutcome x y) :
    (∃ n, x = (n, .ok ()) ∧ y = (n, .ok ())) ∨
      ∃ n err err', x = (n, .error err) ∧ y = (n, .error err') := by
  obtain ⟨hnode, hok⟩ := h
  obtain ⟨n, s⟩ := x
  obtain ⟨m, t⟩ := y
  obtain rfl : n = m := hnode
  cases s with
  | ok a =>
      cases t with
      | ok b => exact .inl ⟨n, rfl, rfl⟩
      | error err => cases hok
  | error err =>
      cases t with
      | ok b => cases hok
      | error err' => exact .inr ⟨n, err, err', rfl, rfl⟩

end SameOutcome

namespace Schema

variable {S : Schema σ} {o : Options} {loops : Prop} {n c : Node σ} {t : Ty} {k j : IntKind}
  {p q : Payload σ} {key : String} {mode : Mode}

/-! ## Integer slots -/

theorem setScalar_eq_ok {slot : Slot} {s : Scalar} {d : Node σ} :
    setScalar slot s = .ok d ↔ ∃ written, slot.set s = .ok written ∧ scalar written = d := by
  rw [setScalar]
  cases slot.set s <;> simp

/-- A scalar slot takes a scalar as the conversion of its value, also one of its own kind. -/
theorem assign_scalar {slot value : Slot} (hfloat : slot.kind.isFloat = false) :
    (scalar slot : Node σ).assign (scalar value) = setScalar slot value.get := by
  rw [assign.eq_def]
  by_cases hkind : slot.kind = value.kind
  · have hsame : (scalar slot : Node σ).ty = (scalar value : Node σ).ty :=
      congrArg Ty.scalar hkind
    rw [if_pos hsame, setScalar, Slot.set_get hkind (hkind ▸ hfloat)]
  · have hdiffers : (scalar slot : Node σ).ty ≠ (scalar value : Node σ).ty := fun hty =>
      hkind (Ty.scalar.inj hty)
    rw [if_neg hdiffers]
    rfl

/-- Below the layers an integer slot takes an integer of any kind and its literal alike. -/
theorem assign_integer_iff {slot : Slot} (hslot : slot.kind = .int k) {i : Int}
    (h : j.Contains i) (document : Option Document) {d : Node σ} :
    (scalar slot).assign (scalar (.int j i h)) = .ok d ↔
      S.assignLiteral o (scalar slot) (Integer.text i) document = .ok d := by
  have hfloat : slot.kind.isFloat = false := by rw [hslot]; rfl
  rw [assign_scalar hfloat, Slot.get, assignLiteral, setScalar_eq_ok, setScalar_eq_ok]
  simp only [Slot.set_toScalar_iff hslot ⟨i, h⟩]

variable (S o) in
/-- Two payloads come to the same in every slot of a type, and a list receives them as they
are under every key. -/
structure Interchangeable (t : Ty) (p q : Payload σ) : Prop where
  setSlot : ∀ v : Node σ, v.ty = t → SameOutcome (S.setSlot o v p) (S.setSlot o v q)
  orKey : ∀ key, p.orKey key = p ∧ q.orKey key = q

/-- A slot of integers below any layers takes a value of any integer kind and its literal
alike. -/
theorem interchangeable_integer (ht : t.core = .scalar (.int k)) {i : Int} (h : j.Contains i)
    (document : Option Document) :
    S.Interchangeable o t (.typed (.scalar (.int j i h)))
      (.literal (Integer.text i) document) where
  setSlot v hv := by
    have hcore : (S.allocate v).innermost.ty = .scalar (.int k) := by
      rw [ty_innermost_allocate, hv, ht]
    rcases eq_scalar_of_ty hcore with ⟨slot, hslot⟩
    have hkind : slot.kind = .int k := by
      rw [hslot] at hcore
      exact Ty.scalar.inj hcore
    rw [Schema.setSlot, Schema.setSlot]
    simp only [hslot]
    rcases ok_or_error fun d => assign_integer_iff (S := S) (o := o) hkind h document (d := d) with
      ⟨d, hvalue, hliteral⟩ | ⟨err, err', hvalue, hliteral⟩
    · rw [hvalue, hliteral]
      exact .refl _
    · rw [hvalue, hliteral]
      exact .failed _ _ _
  orKey key := by simp [Payload.orKey, KeyKind.text_ne_empty]

/-! ## At a key -/

variable (S o) in
/-- The type of the slot that a key is for: of a field, or of what a map or list holds. -/
def slotTy (n : Node σ) (key : String) : Except NavError Ty :=
  let c := (S.allocate n).innermost
  match c.container with
  | .record type fields => (fun target => target.1.node.ty) <$> writableField o c type fields key
  | .map _ elem _ | .list elem _ => .ok elem
  | .fixed | .leaf => .error (.notContainer c.ty.name)

/-- A new element comes out the same. -/
theorem Interchangeable.appendSlot (h : S.Interchangeable o t p q) (c : Node σ) :
    SameOutcome (S.appendSlot o c t p) (S.appendSlot o c t q) := by
  rw [Schema.appendSlot, Schema.appendSlot]
  rcases (h.setSlot (S.zero t) (S.ty_zero t)).ok_or_error with
    ⟨v, hp, hq⟩ | ⟨v, err, err', hp, hq⟩
  · rw [hp, hq]
    exact .refl _
  · rw [hp, hq]
    exact .failed c err err'

/-- Away from content addressing a list receives interchangeable payloads alike. -/
theorem Interchangeable.writeElement (h : S.Interchangeable o t p q) (hmode : mode ≠ .content)
    (c : Node σ) (items : List (Node σ)) (key : String) :
    SameOutcome (S.writeElement o c t items key p mode)
      (S.writeElement o c t items key q mode) := by
  obtain ⟨hp, hq⟩ := h.orKey key
  cases mode with
  | none => exact .refl _
  | content => exact absurd rfl hmode
  | index | first | last =>
      simp only [Schema.writeElement, hp, hq]
      exact h.appendSlot c

/-- The entry of a map under a key comes out the same, whether it is there or new. -/
theorem Interchangeable.writeEntry (h : S.Interchangeable o t p q) (hc : S.Typed loops c)
    {kind : KeyKind} {entries : List (MapKey × Node σ)} (hmap : c.container = .map kind t entries)
    (key : String) (mode : Mode) :
    SameOutcome (S.writeItem o c key p mode) (S.writeItem o c key q mode) := by
  rw [writeItem, writeItem, hmap]
  simp only
  split
  · exact .refl _
  · rename_i entry hentry
    split
    · rename_i v hv
      have hty := ty_of_entry hc hmap ((child?_entry hmap entry).trans hv)
      exact (h.setSlot v hty).putBack c _
    · rcases (h.setSlot (S.zero t) (S.ty_zero t)).ok_or_error with
        ⟨v, hp, hq⟩ | ⟨v, err, err', hp, hq⟩
      · rw [hp, hq]
        exact .refl _
      · rw [hp, hq]
        exact .failed c err err'

/-- A plain key of a record is for the field itself. -/
theorem rest_of_writableField (hplain : Key.isStructured key = false) {type rest : String}
    {fields : List (Field × Node σ)} {place : Place σ}
    (h : writableField o c type fields key = .ok (place, rest)) : rest = "" := by
  rcases bind_eq_ok.1 h with ⟨-, -, hsplit⟩
  rw [splitField_of_plain hplain] at hsplit
  rcases bind_eq_ok.1 hsplit with ⟨-, ⟨⟩, hplace⟩
  rcases bind_eq_ok.1 hplace with ⟨found, -, heq⟩
  exact (Prod.mk.inj (Except.ok.inj heq)).2.symm

/-- Interchangeable payloads written at a plain key come to the same, unless a list is
addressed by content. -/
theorem sameOutcome_write (hS : S.Sound loops) (hn : S.Typed loops n)
    (hplain : Key.isStructured key = false) (hmode : mode ≠ .content)
    (h : ∀ t, S.slotTy o n key = .ok t → S.Interchangeable o t p q) :
    SameOutcome (S.write o n key p mode) (S.write o n key q mode) := by
  have hc := ((keeps_allocate hS n).typed hn).innermost
  rw [write, write]
  refine .putBack ?_ _ _
  rw [slotTy] at h
  cases hcontainer : (S.allocate n).innermost.container with
  | record type fields =>
      simp only [hcontainer] at h ⊢
      cases hfield : writableField o (S.allocate n).innermost type fields key with
      | error err => exact .refl _
      | ok target =>
          obtain ⟨place, rest⟩ := target
          obtain rfl := rest_of_writableField hplain hfield
          have hslot := h place.node.ty (by rw [hfield]; rfl)
          exact (hslot.setSlot place.node rfl).putBack _ _
  | map kind elem entries =>
      exact (h elem (by rw [hcontainer])).writeEntry hc hcontainer key mode
  | list elem items =>
      simp only [writeItem, hcontainer]
      exact (h elem (by rw [hcontainer])).writeElement hmode _ items key
  | fixed | leaf =>
      simp only [writeItem, hcontainer]
      exact .refl _

/-- An integer of any kind written as a value or as its decimal literal comes to the same
wherever the slot at a key is for integers, of whatever width and below whatever layers: the
containers left are equal, and both writes succeed or both fail. -/
theorem write_integer (hS : S.Sound loops) (hn : S.Typed loops n)
    (hplain : Key.isStructured key = false) (hmode : mode ≠ .content)
    (hslot : ∀ t, S.slotTy o n key = .ok t → ∃ k, t.core = .scalar (.int k)) {i : Int}
    (h : j.Contains i) (document : Option Document) :
    SameOutcome (S.write o n key (.typed (.scalar (.int j i h))) mode)
      (S.write o n key (.literal (Integer.text i) document) mode) := by
  refine sameOutcome_write hS hn hplain hmode fun t ht => ?_
  obtain ⟨k, hk⟩ := hslot t ht
  exact interchangeable_integer hk h document

/-- Limits by name, some of them unknown. -/
def limits (entries : List (MapKey × Node Unit)) : Node Unit :=
  .map .sorted .string (.option (.scalar (.int .u8))) entries

/-- A new limit given as an integer of a wider kind is the one that its literal gives. -/
theorem write_integer_limit :
    let cpu : Node Unit := .present (.scalar (.int .u8 7 (by decide)))
    (empty ()).write {} (limits []) "cpu" (.typed (.scalar (.int .i64 7 (by decide)))) .none =
        (limits [(.text "cpu", cpu)], .ok ()) ∧
      SameOutcome
        ((empty ()).write {} (limits []) "cpu" (.typed (.scalar (.int .i64 7 (by decide)))) .none)
        ((empty ()).write {} (limits []) "cpu" (.literal (Integer.text 7) none) .none) := by
  have htyped : (empty ()).Typed False (limits []) :=
    .map List.Pairwise.nil (fun _ he => by simp at he) (fun _ he => by simp at he)
      fun _ he => by simp at he
  refine ⟨rfl, write_integer (sound_empty ()) htyped (by decide) (by decide) ?_ _ none⟩
  intro t ht
  obtain rfl := Except.ok.inj ht
  exact ⟨.u8, rfl⟩

end Schema

end TreeSync
