import TreeSync.Proofs.Apply.Refinding

/-!
# Making agrees with finding

Making what is missing at a key goes by the rules of finding.  A child that is found with
all its layers is left where it is, and the container with it.  A child that was made is
found from then on, with its layers, unless it was made for a key that describes an element
of a list: whether the new element matches such a key is a matter of its content.

Main results:

- `Schema.findOrCreate_eq`: making below the layers of the container.
- `Schema.find_of_findOrCreate`: what was made is found.
- `Schema.findOrCreate_extends`: making extends finding.
-/

namespace TreeSync

namespace Schema

open Node

variable {σ : Type} {S : Schema σ} {o : Options} {loops : Prop} {n m c d : Node σ}
  {type key : String} {mode : Mode} {a : Address} {place : Place σ}

/-! ## Children that are made -/

/-- A child that is made stands below the layers of the container, with its own layers
allocated. -/
theorem findOrCreate_eq (hS : S.Sound loops) (h : S.findOrCreate o n key mode = (m, .ok a)) :
    ∃ r b child, S.createChild o (S.allocate n).innermost key mode = (r, .ok b) ∧
      r.get? b = some child ∧ (r.replaceAt b (S.allocate child)).Bare ∧
        m = (S.allocate n).withCore (r.replaceAt b (S.allocate child)) ∧
          a = (S.allocate n).coreAddress ++ b ++ (S.allocate child).coreAddress := by
  have hkeeps := keeps_createChild hS (o := o) (S.allocate n).innermost key mode
  rw [findOrCreate] at h
  rcases hmade : S.createChild o (S.allocate n).innermost key mode with ⟨r, _ | b⟩
  · simp [hmade, putBack] at h
  · have hput : (S.allocate n).replaceAt (S.allocate n).coreAddress r = (S.allocate n).withCore r :=
      rfl
    rw [hmade] at hkeeps
    simp only [hmade, putBack, hput, get?_withCore_append] at h
    cases hchild : r.get? b with
    | none => simp [hchild] at h
    | some child =>
        simp only [hchild, withCore_replaceAt_append] at h
        obtain ⟨rfl, ha⟩ := Prod.mk.inj h
        have hty := ty_replaceAt hchild (keeps_allocate hS child).ty_eq
        exact ⟨r, b, child, rfl, hchild,
          (S.bare_innermost_allocate n).of_ty_eq (hty.trans hkeeps.ty_eq), rfl,
          (Except.ok.inj ha).symm⟩

/-! ## Finding what was made -/

/-- A step that makes nothing and stays where it is leads to a record that is a field of
itself. -/
theorem find_of_createChild_nil (hc : S.Typed loops c)
    (h : S.createChild o c key mode = (d, .ok [])) : d = c ∧ S.find o c key mode = .ok ⟨[], c⟩ := by
  by_cases hrecord : ∃ type fields, c.container = .record type fields
  · rcases hrecord with ⟨type, fields, hrecord⟩
    have hcreate := createChild_record hc hrecord o key mode
    cases hslot : S.slotOf? o false type key with
    | error err =>
        rw [hslot] at hcreate
        simp [hcreate] at h
    | ok slot =>
        obtain ⟨i, text⟩ := slot
        rw [hslot] at hcreate
        rcases hcreate with ⟨v, hv, -⟩
        cases hself : v.isEnclosing with
        | false =>
            rcases createChild_slot_address hc hrecord hslot hv hself (congrArg Prod.snd h) with
              ⟨b, hb⟩
            simp at hb
        | true =>
            rw [createChild_enclosing hc hrecord hslot hv hself] at h
            obtain ⟨rfl, hok⟩ := Prod.mk.inj h
            split at hok
            · rename_i hempty
              obtain rfl : text = "" := by simpa using hempty
              exact ⟨rfl, find_enclosing hc hrecord hslot hv hself mode⟩
            · simp at hok
  · rw [createChild_item fun type fields heq => hrecord ⟨type, fields, heq⟩] at h
    rcases exists_step_of_createItem (congrArg Prod.snd h) with ⟨s, hs⟩
    simp at hs

/-- A child that was made is found with all its layers, unless the list that holds it was
addressed by content. -/
theorem find_of_findOrCreate (hS : S.Sound loops) (hn : S.Typed loops n)
    (hcontent : ¬ S.ListByContent o (S.allocate n).innermost key mode)
    (h : S.findOrCreate o n key mode = (m, .ok a)) :
    ∃ place, S.find o m key mode = .ok place ∧ place.node.isAllocated = true ∧
      place.address ++ place.node.coreAddress = a := by
  have hc := ((keeps_allocate hS n).typed hn).innermost
  have hbare := S.bare_innermost_allocate n
  rcases findOrCreate_eq hS h with ⟨r, b, child, hmade, hchild, hafter, rfl, rfl⟩
  have halloc := S.isAllocated_allocate child
  have hfind : S.find o (r.replaceAt b (S.allocate child)) key mode =
      .ok ⟨b, S.allocate child⟩ := by
    by_cases hb : b = []
    · subst hb
      rcases find_of_createChild_nil hc hmade with ⟨rfl, hfind⟩
      obtain rfl := Option.some.inj hchild
      simp only [S.allocate_of_bare hbare, replaceAt]
      exact hfind
    · exact find_made hS hc hbare hcontent hmade hb hchild (keeps_allocate hS child) halloc
  refine ⟨⟨(S.allocate n).coreAddress ++ b, S.allocate child⟩, ?_, halloc, rfl⟩
  rw [find_withCore hafter, hfind]
  rfl

/-- Making extends finding.  A child that is found with all its layers is where making leads,
and the container stays as it is.  Where making leads without addressing a list by content,
finding leads from then on, to a child with all its layers. -/
theorem findOrCreate_extends (hS : S.Sound loops) (hn : S.Typed loops n) (o : Options)
    (key : String) (mode : Mode) :
    (∀ place, S.find o n key mode = .ok place → place.node.isAllocated = true →
      S.findOrCreate o n key mode = (n, .ok (place.address ++ place.node.coreAddress))) ∧
    ∀ m a, ¬ S.ListByContent o (S.allocate n).innermost key mode →
      S.findOrCreate o n key mode = (m, .ok a) →
        ∃ place, S.find o m key mode = .ok place ∧ place.node.isAllocated = true ∧
          place.address ++ place.node.coreAddress = a := by
  refine ⟨fun place hfind halloc => ?_, fun m a hcontent h => find_of_findOrCreate hS hn hcontent h⟩
  rw [findOrCreate_of_find hn hfind, S.allocate_of_isAllocated halloc,
    hn.replaceAt_self (get?_find hfind)]

/-- The last element of a list that is not there is made together with the list.  It is found
then, and making leads to it again. -/
theorem findOrCreate_extends_last :
    let n : Node Unit := .absent (.list (.option (.scalar .string)))
    let m : Node Unit :=
      .present (.list (.option (.scalar .string)) [.present (.scalar (.text ""))])
    (empty ()).findOrCreate {} n "" .last = (m, .ok [.pointee, .element 0, .pointee]) ∧
    (∃ place, (empty ()).find {} m "" .last = .ok place ∧ place.node.isAllocated = true ∧
      place.address ++ place.node.coreAddress = [.pointee, .element 0, .pointee]) ∧
    (empty ()).findOrCreate {} m "" .last = (m, .ok [.pointee, .element 0, .pointee]) := by
  intro n m
  have hmade : (empty ()).findOrCreate {} n "" .last =
      (m, .ok [.pointee, .element 0, .pointee]) := by rfl
  have hn : (empty ()).Typed False n := .absent _
  have hm : (empty ()).Typed False m :=
    .present (.list (List.forall_mem_singleton.2 rfl)
      (List.forall_mem_singleton.2 (.present (.scalar _))))
  have hcontent : ¬ (empty ()).ListByContent {} ((empty ()).allocate n).innermost "" .last := by
    rintro (⟨-, hmode⟩ | ⟨hrecord, -, -, -, -⟩)
    · exact Mode.noConfusion hmode
    · cases hrecord
  have hfind : (empty ()).find {} m "" .last =
      .ok ⟨[.pointee, .element 0], .present (.scalar (.text ""))⟩ := by rfl
  refine ⟨hmade, ?_, ?_⟩
  · exact (findOrCreate_extends (sound_empty ()) hn {} "" .last).2 m _ hcontent hmade
  · exact (findOrCreate_extends (sound_empty ()) hm {} "" .last).1 _ hfind rfl

end Schema

end TreeSync
