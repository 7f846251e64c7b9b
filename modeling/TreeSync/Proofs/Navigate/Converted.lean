import TreeSync.Proofs.Navigate.Payloads
import TreeSync.Proofs.Scalar.Lasting

/-!
# Values put into lists by content

A typed value written into a list without a key is put in unless an equal element is there.
The value is compared as it stands, while the new element holds what the value was converted
to.  So a value whose literal does not outlast the conversion is not found again, and the list
grows with every write of it.

Main definitions and results:

- `Schema.HoldsScalars`: element types that scalars are converted to.
- `Schema.same_of_assign`: when a value equals what it was converted to.
- `Schema.write_present`, `Schema.write_new`: a value that the list has, and one that it lacks.
- `Schema.write_new_again`: when a new element is found again.
- `Schema.write_value_again`: the second write of a value.
-/

namespace TreeSync

open Node

namespace Schema

variable {σ : Type} {S : Schema σ} {o : Options} {loops : Prop} {n m c d item v : Node σ}
  {t elem : Ty} {items : List (Node σ)} {value : Slot}

/-- Documents, or scalars of a kind that is no floating-point one, below any layers. -/
def HoldsScalars (elem : Ty) : Prop :=
  elem.core = .dynamic ∨ ∃ kind, elem.core = .scalar kind ∧ kind.isFloat = false

/-! ## Converted values -/

/-- A value equals what it was converted to exactly if its literal outlasts the conversion. -/
theorem same_of_assign (helem : HoldsScalars elem) (hty : c.ty = elem.core)
    (h : c.assign (.scalar value) = .ok d) :
    d.same (.scalar value) = true ↔ value.KeepsLiteral elem.core := by
  rcases helem with hdynamic | ⟨kind, hscalar, hfloat⟩
  · rw [hdynamic] at hty ⊢
    rcases eq_dynamic_of_ty hty with ⟨old, rfl⟩
    obtain rfl : dynamic (.ofScalar value.get) = d := by
      rw [assign.eq_def, if_neg (by simp [ty])] at h
      exact Except.ok.inj h
    rw [same, Document.same_ofScalar, beq_iff_eq, eq_comm]
    exact Document.literal_ofScalar_iff
  · rw [hscalar] at hty ⊢
    rcases eq_scalar_of_ty hty with ⟨slot, rfl⟩
    have hkind : slot.kind = kind := Ty.scalar.inj hty
    rw [assign_scalar (hkind ▸ hfloat), setScalar_eq_ok] at h
    rcases h with ⟨written, hwritten, rfl⟩
    rw [Slot.set, hkind] at hwritten
    rw [same, beq_iff_eq, ← Slot.literal_ofScalar_iff hfloat hwritten, eq_comm]
    exact Option.some_inj

/-- A new element for a value has the type that the list is for, and equals the value exactly
if the literal of the value outlasts the conversion. -/
theorem same_of_setSlot (hS : S.Sound loops) (helem : HoldsScalars elem)
    (h : S.setSlot o (S.zero elem) (.typed (.scalar value)) = (item, .ok ())) :
    item.ty = elem ∧ (item.same (.scalar value) = true ↔ value.KeepsLiteral elem.core) := by
  have hcarries : S.Carries loops (.typed (.scalar value)) := ⟨.scalar value, rfl⟩
  have hkeeps := keeps_setSlot hS (o := o) hcarries (S.zero elem)
  rw [h] at hkeeps
  refine ⟨hkeeps.ty_eq.trans (S.ty_zero elem), ?_⟩
  rw [setSlot.eq_def] at h
  dsimp only at h
  split at h
  · rename_i d hd
    obtain ⟨rfl, -⟩ := Prod.mk.inj h
    have hcore : (S.allocate (S.zero elem)).innermost.ty = elem.core := by
      rw [ty_innermost_allocate, ty_zero]
    have hbare : d.Bare := by
      have hassigned : S.Keeps loops (S.allocate (S.zero elem)).innermost d :=
        keeps_assign hcarries.1 hcarries.2 hd
      exact (S.bare_innermost_allocate _).of_ty_eq hassigned.ty_eq
    have hwhole : ((S.allocate (S.zero elem)).withCore d).same (.scalar value) =
        d.same (.scalar value) := by
      rw [same_innermost (isAllocated_withCore _ hbare), innermost_withCore _ hbare]
    rw [← same_of_assign helem hcore hd, ← hwhole]
    rfl
  · cases (Prod.mk.inj h).2

/-! ## Writing -/

/-- A typed value is looked for as it stands. -/
theorem duplicate?_typed (S : Schema σ) (o : Options) (elem : Ty) (items : List (Node σ))
    (v : Node σ) : S.duplicate? o elem items "" (.typed v) =
      .ok (items.findIdx? fun item => item.same v) := rfl

/-- A value that an element of the list equals is not written. -/
theorem write_present (hlist : (S.allocate n).innermost.container = .list elem items)
    (hpresent : ∃ item ∈ items, item.same v = true) :
    S.write o n "" (.typed v) .content = (S.allocate n, .ok ()) := by
  have hfound : (items.findIdx? fun item => item.same v).isSome = true := by
    rw [List.findIdx?_isSome, List.any_eq_true]
    exact hpresent
  obtain ⟨i, hi⟩ := Option.isSome_iff_exists.1 hfound
  have hitem : S.writeItem o (S.allocate n).innermost "" (.typed v) .content =
      ((S.allocate n).innermost, .ok ()) := by
    rw [writeItem, hlist]
    simp only [writeElement, duplicate?_typed, hi]
  rw [write, hlist]
  simp only [hitem]
  exact Prod.ext (withCore_innermost _) rfl

/-- A value that no element of the list equals is written as a new element. -/
theorem write_absent (hlist : (S.allocate n).innermost.container = .list elem items)
    (habsent : ¬∃ item ∈ items, item.same v = true) :
    S.write o n "" (.typed v) .content = (S.allocate n).putBack (S.allocate n).coreAddress
      (S.appendSlot o (S.allocate n).innermost elem (.typed v)) := by
  have hnone : (items.findIdx? fun item => item.same v) = none := by
    rw [List.findIdx?_eq_none_iff]
    exact fun item hitem => Bool.eq_false_iff.2 fun hsame => habsent ⟨item, hitem, hsame⟩
  have hitem : S.writeItem o (S.allocate n).innermost "" (.typed v) .content =
      S.appendSlot o (S.allocate n).innermost elem (.typed v) := by
    rw [writeItem, hlist]
    simp only [writeElement, duplicate?_typed, hnone]
  rw [write, hlist]
  simp only [hitem]

/-- What is written as a new element stands behind the others. -/
theorem write_new (hlist : (S.allocate n).innermost.container = .list elem items)
    (habsent : ¬∃ item ∈ items, item.same v = true)
    (hitem : S.setSlot o (S.zero elem) (.typed v) = (item, .ok ())) (hty : item.ty = elem) :
    ∃ m, S.write o n "" (.typed v) .content = (m, .ok ()) ∧ m.isAllocated = true ∧
      m.innermost.container = .list elem (items ++ [item]) := by
  have happend := container_append hlist hty
  have hbare := (S.bare_innermost_allocate n).of_ty_eq happend.2
  refine ⟨(S.allocate n).withCore ((S.allocate n).innermost.append item), ?_,
    isAllocated_withCore _ hbare, ?_⟩
  · rw [write_absent hlist habsent, appendSlot, hitem]
    rfl
  · rw [innermost_withCore _ hbare]
    exact happend.1

/-- A value that was written as a new element is found again exactly if the new element equals
it.  Otherwise there is another new element. -/
theorem write_new_again (hlist : (S.allocate n).innermost.container = .list elem items)
    (habsent : ¬∃ item ∈ items, item.same v = true)
    (hitem : S.setSlot o (S.zero elem) (.typed v) = (item, .ok ())) (hty : item.ty = elem)
    (h : S.write o n "" (.typed v) .content = (m, .ok ())) :
    ∃ again, S.write o m "" (.typed v) .content = (again, .ok ()) ∧
      (again = m ↔ item.same v = true) := by
  obtain ⟨grown, hgrown, halloc, hitems⟩ := write_new hlist habsent hitem hty
  obtain rfl : grown = m := (Prod.mk.inj (hgrown.symm.trans h)).1
  have hself := S.allocate_of_isAllocated halloc
  rw [← hself] at hitems
  by_cases hsame : item.same v = true
  · refine ⟨grown, ?_, iff_of_true rfl hsame⟩
    rw [write_present hitems ⟨item, List.mem_append_right _ List.mem_cons_self, hsame⟩, hself]
  · have habsent' : ¬∃ other ∈ items ++ [item], other.same v = true := by
      rintro ⟨other, hother, hequal⟩
      rcases List.mem_append.1 hother with hold | hnew
      · exact habsent ⟨other, hold, hequal⟩
      · exact hsame (List.mem_singleton.1 hnew ▸ hequal)
    obtain ⟨again, hagain, -, hmore⟩ := write_new hitems habsent' hitem hty
    refine ⟨again, hagain, iff_of_false ?_ hsame⟩
    rintro rfl
    rw [hself, hmore] at hitems
    have hlength := congrArg List.length (Container.list.inj hitems).2
    simp at hlength

/-- A value written without a key and by content a second time leaves the list unchanged
exactly if the list had an equal element to begin with or the literal of the value outlasts
its conversion to the element type.  In every other case the second write succeeds as the
first one did, and the list grows again. -/
theorem write_value_again (hS : S.Sound loops) (helem : HoldsScalars elem)
    (hlist : (S.allocate n).innermost.container = .list elem items)
    (h : S.write o n "" (.typed (.scalar value)) .content = (m, .ok ())) :
    ∃ again, S.write o m "" (.typed (.scalar value)) .content = (again, .ok ()) ∧
      (again = m ↔
        (∃ item ∈ items, item.same (.scalar value) = true) ∨ value.KeepsLiteral elem.core) := by
  by_cases hpresent : ∃ item ∈ items, item.same (.scalar value) = true
  · rw [write_present hlist hpresent] at h
    obtain ⟨rfl, -⟩ := Prod.mk.inj h
    have hself := S.allocate_of_isAllocated (S.isAllocated_allocate n)
    refine ⟨S.allocate n, ?_, iff_of_true rfl (.inl hpresent)⟩
    rw [write_present (by rwa [hself]) hpresent, hself]
  · rw [or_iff_right hpresent]
    cases hslot : S.setSlot o (S.zero elem) (.typed (.scalar value)) with
    | mk item outcome =>
    cases outcome with
    | error err =>
        rw [write_absent hlist hpresent, appendSlot, hslot] at h
        cases (Prod.mk.inj h).2
    | ok done =>
        obtain ⟨hty, hsame⟩ := same_of_setSlot hS helem hslot
        rw [← hsame]
        exact write_new_again hlist hpresent hslot hty h

/-- A list of truth values. -/
def flags (values : List Bool) : Node Unit :=
  .list (.scalar .bool) (values.map fun b => .scalar (.bool b))

/-- A text that spells a truth value is found again. -/
theorem write_value_again_flags :
    let word : Slot := .text "true"
    (empty ()).write {} (flags []) "" (.typed (.scalar word)) .content =
        (flags [true], .ok ()) ∧
      ∃ again, (empty ()).write {} (flags [true]) "" (.typed (.scalar word)) .content =
          (again, .ok ()) ∧
        (again = flags [true] ↔
          (∃ item ∈ ([] : List (Node Unit)), item.same (.scalar word) = true) ∨
            word.KeepsLiteral (.scalar .bool)) := by
  intro word
  have hfirst : (empty ()).write {} (flags []) "" (.typed (.scalar word)) .content =
      (flags [true], .ok ()) := rfl
  exact ⟨hfirst, write_value_again (sound_empty ()) (.inr ⟨.bool, rfl, rfl⟩) rfl hfirst⟩

/-- A number that became a truth value is not found again. -/
theorem flags_grow :
    ¬∀ (value : Slot) (m : Node Unit),
      (empty ()).write {} (flags []) "" (.typed (.scalar value)) .content = (m, .ok ()) →
        (empty ()).write {} m "" (.typed (.scalar value)) .content = (m, .ok ()) := by
  intro hall
  let five : Slot := .int .u8 5 (by decide)
  have hfirst : (empty ()).write {} (flags []) "" (.typed (.scalar five)) .content =
      (flags [true], .ok ()) := rfl
  have habsent : ¬∃ item ∈ [(scalar (.bool true) : Node Unit)], item.same (scalar five) = true := by
    rintro ⟨item, hitem, hsame⟩
    obtain rfl := List.mem_singleton.1 hitem
    rw [same] at hsame
    exact absurd hsame (by decide)
  have hsecond : (empty ()).write {} (flags [true]) "" (.typed (.scalar five)) .content =
      (flags [true, true], .ok ()) := by
    rw [write_absent rfl habsent]
    rfl
  have hsame := (Prod.mk.inj (hsecond.symm.trans (hall five _ hfirst))).1
  simp [flags] at hsame

end Schema

end TreeSync
