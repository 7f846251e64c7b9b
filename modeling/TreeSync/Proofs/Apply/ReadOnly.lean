import TreeSync.Proofs.Apply.Framing
import TreeSync.Proofs.Navigate.Reached

/-!
# Read-only fields

The key of an event does not write read-only fields, with or without text behind
the name.  The segments of its path do lead through them, and fill the layers that
they find there.  So a read-only field of a record on the way of an event is as it
was, unless a segment of the path leads into it.

Main definitions and results:

- `Schema.ReadOnly`: a field that events cannot write.
- `Schema.readOnly_kept`: a read-only field on the way of an event.
- `Schema.readOnly_filled`: a path that leads through one.
-/

namespace TreeSync

namespace Schema

open Node

variable {σ : Type} {S : Schema σ} {o : Options} {e : Event} {n m c d : Node σ}
  {key text type : String} {mode : Mode} {leaf : Bool} {change : Node σ → Node σ → Prop}
  {fields : List (Field × Node σ)} {i j : Nat} {place : Place σ}

/-- A field of a record type that events cannot write. -/
def ReadOnly (S : Schema σ) (type : String) (i : Nat) : Prop :=
  ∃ f, ((S.signature type).map Prod.fst)[i]? = some f ∧ f.writable = false

/-- For writing, a key that leads to a read-only field leads nowhere. -/
theorem slotOf_readOnly (h : S.slotOf? o false type key = .ok (i, text)) {f : Field}
    (hf : ((S.signature type).map Prod.fst)[i]? = some f) (hwritable : f.writable = false) :
    S.slotOf? o true type key = .error (.notSettable f.name type) := by
  rcases bind_eq_ok.1 h with ⟨u, hrequire, h⟩
  rcases bind_eq_ok.1 h with ⟨⟨name, rest⟩, hsplit, h⟩
  rcases bind_eq_ok.1 h with ⟨k, hfield, hslot⟩
  obtain ⟨rfl, -⟩ := Prod.mk.inj (Except.ok.inj hslot)
  have hwrite : S.fieldOf? o true type name = .error (.notSettable f.name type) := by
    rw [fieldOf?] at hfield ⊢
    split at hfield
    · simp at hfield
    · split at hfield
      · simp at hfield
      · rename_i g hg
        obtain rfl := Except.ok.inj hfield
        obtain rfl := Option.some.inj (hf.symm.trans hg)
        rw [hwritable]
        rfl
  rw [slotOf?, hrequire, hsplit]
  simp only [bind, Except.bind, hwrite]

theorem not_readOnly_of_slotOf (h : S.slotOf? o true type key = .ok (i, text)) :
    ¬ S.ReadOnly type i := by
  rintro ⟨f, hf, hwritable⟩
  rw [slotOf_readOnly (slotOf_read h) hf hwritable] at h
  simp at h

/-- An event whose key leads to a read-only field fails and changes nothing. -/
theorem perform_readOnly (hn : S.Typed False n) (hcore : n.core = .ok c)
    (hc : c.container = .record type fields) (h : S.slotOf? o false type e.key = .ok (i, text))
    {f : Field} (hf : ((S.signature type).map Prod.fst)[i]? = some f)
    (hwritable : f.writable = false) :
    S.perform o e n = (n, .error (.navigation (.notSettable f.name type))) := by
  have hready := ready_of_record hc
  obtain rfl := innermost_of_core hcore
  have hperform := perform_field (o := o) (e := e) hn.innermost hc
  rw [slotOf_readOnly h hf hwritable] at hperform
  have hlift := perform_withCore (S := S) (o := o) (e := e) hready.bare (fun _ => hready) n
  rw [withCore_innermost] at hlift
  rw [hlift, hperform, withCore_innermost]

/-! ## Beside the way -/

/-- A key leaves the fields that it does not lead to. -/
theorem KeyChange.child?_field (h : S.KeyChange o e key leaf change c d)
    (hc : c.container = .record type fields)
    (haway : ∀ text, S.slotOf? o leaf type key ≠ .ok (j, text)) :
    d.child? (.field j) = c.child? (.field j) := by
  have hne : ∀ other text others i, c.container = .record other others →
      S.slotOf? o leaf other key = .ok (i, text) → Step.field j ≠ .field i := by
    rintro other text others i hother hslot heq
    obtain ⟨rfl, -⟩ := Container.record.inj (hc.symm.trans hother)
    obtain rfl := Step.field.inj heq
    exact haway text hslot
  cases h with
  | same => rfl
  | field hother leads _ siblings =>
      exact siblings.others _ (hne _ _ _ _ hother leads)
  | suffix hother leads _ siblings =>
      exact siblings.others _ (hne _ _ _ _ hother leads)
  | item hother => exact absurd hc (hother type fields)

/-! ## On the way -/

/-- The entry or element that a key finds is still there, changed as it may be. -/
theorem ItemChange.exists_found (h : S.ItemChange o e key mode false change c d)
    (hfind : S.findItem o c key mode = .ok place) :
    ∃ w, d.get? place.address = some w ∧ (w = place.node ∨ change place.node w) := by
  have hsame := get?_findItem hfind
  cases h with
  | same => exact ⟨_, hsame, .inl rfl⟩
  | entry hmap leads siblings before after changed =>
      rw [findItem_of_map hmap, leads] at hfind
      simp only [bind, Except.bind, before, Except.ok.injEq] at hfind
      subst hfind
      refine ⟨_, ?_, .inr changed⟩
      simp only [Node.get?, after, Option.bind_some]
  | newEntry hmap leads creates siblings before =>
      rw [findItem_of_map hmap, leads] at hfind
      simp [bind, Except.bind, before] at hfind
  | erased hmap leads deletes => simp at deletes
  | element hlist leads before after _ changed =>
      simp only [findItem, hlist, leads, bind, Except.bind, before, Except.ok.injEq] at hfind
      subst hfind
      have hlt := lt_of_locate leads
      refine ⟨_, ?_, .inr changed⟩
      simp only [Node.get?, child?_element after, List.getElem?_set_self hlt, Option.bind_some]
  | appended hlist creates leads =>
      rcases leads with hleaf | leads
      · simp at hleaf
      · simp [findItem, hlist, leads, bind, Except.bind] at hfind
  | removed hlist leads deletes => simp at deletes

/-- The child of a bare node that a segment finds is still there, changed as it may
be. -/
theorem KeyChange.exists_found (hc : S.Typed False c) (hbare : c.Bare)
    (h : S.KeyChange o e key false change c d)
    (hfind : S.find o c key (.ofKey o key) = .ok place) :
    ∃ w, d.get? place.address = some w ∧ (w = place.node ∨ change place.node w) := by
  cases h with
  | same => exact ⟨_, get?_find hfind, .inl rfl⟩
  | @field d type text fields i v w hrecord leads plain siblings before after changed =>
      rw [find_slot hc hrecord leads before (hc.child before).isEnclosing_eq_false,
        if_pos plain] at hfind
      split at hfind
      · obtain rfl := Except.ok.inj hfind
        refine ⟨w, ?_, .inr changed⟩
        simp only [Node.get?, after, Option.bind_some]
      · simp at hfind
  | @suffix d type text fields i v x hrecord leads qualified siblings before after changed =>
      rw [find_slot hc hrecord leads before (hc.child before).isEnclosing_eq_false,
        qualified] at hfind
      simp only [Bool.false_eq_true, if_false] at hfind
      split at hfind
      · simp at hfind
      · rename_i inside hinside
        rcases map_eq_ok.1 hfind with ⟨item, hitem, rfl⟩
        have hopened : S.opened e v = v := by
          have halloc := isAllocated_of_core hinside
          rw [opened_eq_allocate (.inl halloc), S.allocate_of_isAllocated halloc]
        rw [hopened] at after changed
        rw [innermost_of_core hinside] at changed
        rcases changed.exists_found hitem with ⟨w, hw, hchange⟩
        refine ⟨w, ?_, hchange⟩
        rw [Place.under, List.cons_append, Node.get?, after, Option.bind_some,
          get?_withCore_append, hw]
  | item hother changed =>
      rw [find_item hbare hother] at hfind
      exact changed.exists_found hfind

/-- What an event enters below layers that have a value. -/
theorem enters_of_ready (halloc : n.isAllocated = true) (hready : Ready n.innermost) :
    S.opened e n = n ∧ S.enters e n = n.innermost := by
  have hallocate := S.allocate_of_isAllocated halloc
  refine ⟨(opened_eq_allocate (.inl halloc)).trans hallocate, ?_⟩
  rw [enters]
  split
  · rfl
  · rw [innermost_promote, hallocate, hready.entered_eq]

/-- The child that a segment finds is still there, changed as it may be. -/
theorem NodeChange.exists_found (hn : S.Typed False n) (h : S.NodeChange o e key false change n m)
    (hfind : S.find o n key (.ofKey o key) = .ok place) :
    ∃ w, m.get? place.address = some w ∧ (w = place.node ∨ change place.node w) := by
  have halloc : n.isAllocated = true := by
    cases halloc : n.isAllocated with
    | true => rfl
    | false =>
        rcases exists_core_eq_error halloc with ⟨t, ht⟩
        rw [find, ht] at hfind
        simp at hfind
  have hbare := bare_innermost halloc
  rw [← n.withCore_innermost, find_withCore hbare] at hfind
  rcases map_eq_ok.1 hfind with ⟨below, hbelow, rfl⟩
  rcases enters_of_ready (S := S) (e := e) halloc (ready_of_find hbare hbelow) with
    ⟨hopened, henters⟩
  rcases h with ⟨d, rfl, hchange⟩
  rw [henters] at hchange
  rcases hchange.exists_found hn.innermost hbare hbelow with ⟨w, hw, hrest⟩
  refine ⟨w, ?_, hrest⟩
  rw [hopened, Place.under, get?_withCore_append, hw]

/-! ## Events -/

/-- A read-only field of a record along the path is as it was, unless the next
segment leads into it. -/
theorem Framed.get?_readOnly {path : List String} (h : S.Framed o e path n m)
    (hn : S.Typed False n) {k : Nat} (hplace : (S.reached o n path)[k]? = some place)
    (hcore : place.node.core = .ok c) (hc : c.container = .record type fields)
    (hreadOnly : S.ReadOnly type j)
    (haway : ∀ segment text, path[k]? = some segment →
      S.slotOf? o false type segment ≠ .ok (j, text)) :
    m.get? (place.address ++ (place.node.coreAddress ++ [.field j])) =
      n.get? (place.address ++ (place.node.coreAddress ++ [.field j])) := by
  induction k generalizing n m path place with
  | zero =>
      have hfirst : place = ⟨[], n⟩ := by
        cases path with
        | nil => exact (Option.some.inj hplace).symm
        | cons key rest => exact (Option.some.inj hplace).symm
      subst hfirst
      have halloc := isAllocated_of_core hcore
      have hinner := innermost_of_core hcore
      rcases enters_of_ready (S := S) (e := e) halloc (hinner ▸ ready_of_record hc) with
        ⟨hopened, henters⟩
      have hsame : ∀ {key : String} {leaf : Bool} {change : Node σ → Node σ → Prop},
          S.NodeChange o e key leaf change n m →
          (∀ text, S.slotOf? o leaf type key ≠ .ok (j, text)) →
          m.get? (n.coreAddress ++ [.field j]) = n.get? (n.coreAddress ++ [.field j]) := by
        rintro key leaf change ⟨d, rfl, hchange⟩ hne
        rw [henters, hinner] at hchange
        rw [hopened, get?_withCore_append, get?_coreAddress_append hcore, Node.get?, Node.get?,
          hchange.child?_field hc hne]
      cases path with
      | nil => exact hsame h fun text hslot => not_readOnly_of_slotOf hslot hreadOnly
      | cons key rest => exact hsame h fun text => haway key text rfl
  | succ k ih =>
      cases path with
      | nil => simp [reached] at hplace
      | cons key rest =>
          cases hfind : S.find o n key (.ofKey o key) with
          | error err => simp [reached_of_error hfind] at hplace
          | ok first =>
              rw [reached_of_ok hfind, List.getElem?_cons_succ, List.getElem?_map] at hplace
              rcases Option.map_eq_some_iff.1 hplace with ⟨q, hq, rfl⟩
              have hget := get?_find hfind
              rcases NodeChange.exists_found hn h hfind with ⟨w, hw, hchange⟩
              simp only [Place.under, List.append_assoc]
              rw [get?_append, get?_append, hw, hget, Option.bind_some, Option.bind_some]
              rcases hchange with rfl | hchange
              · rfl
              · exact ih hchange (hn.get hget) hq hcore haway

/-- A read-only field of a record on the way of an event is as it was, also if the
key of the event leads to it, unless the next segment of the path leads into it. -/
theorem readOnly_kept (hS : S.Sound False) (hfree : S.OverrideFree) {target : Node σ}
    (htarget : S.Typed False target) (hroot : e.isRoot = false) {k : Nat}
    (hplace : (S.reached o target e.path)[k]? = some place) (hcore : place.node.core = .ok c)
    (hc : c.container = .record type fields) (hreadOnly : S.ReadOnly type j)
    (haway : ∀ segment text, e.path[k]? = some segment →
      S.slotOf? o false type segment ≠ .ok (j, text)) :
    (S.apply o e target).1.get? (place.address ++ (place.node.coreAddress ++ [.field j])) =
      target.get? (place.address ++ (place.node.coreAddress ++ [.field j])) :=
  (apply_framed hS hfree htarget hroot).get?_readOnly htarget hplace hcore hc hreadOnly haway

/-- The offset cannot be made under its own key. -/
theorem readOnly_kept_sensor :
    let target := sensor.zero (.record "Sensor")
    let e : Event := ⟨.create, [], "offset", .map, "", none⟩
    (sensor.apply {} e target).2 = .error (.navigation (.notSettable "offset" "Sensor")) ∧
    (sensor.apply {} e target).1.get? [.field 0] = some (.absent (.record "Offset")) := by
  intro target e
  have hreadOnly : sensor.ReadOnly "Sensor" 0 := ⟨_, rfl, rfl⟩
  refine ⟨by decide +kernel, ?_⟩
  exact readOnly_kept (o := {}) (e := e) sound_sensor overrideFree_sensor
    (typed_zero sound_sensor _) rfl (k := 0) rfl rfl rfl hreadOnly fun segment text h => by simp [e] at h

/-- A path that leads through the offset makes it, although the event then fails. -/
theorem readOnly_filled :
    let target := sensor.zero (.record "Sensor")
    let e : Event := ⟨.create, ["offset"], "unit", .scalar .str, "x", none⟩
    sensor.ReadOnly "Sensor" 0 ∧
    (sensor.apply {} e target).2 = .error (.navigation (.fieldNotFound "unit" "Offset")) ∧
    (sensor.apply {} e target).1.get? [.field 0] ≠ target.get? [.field 0] := by
  intro target e
  have hbefore : (target.get? [.field 0]).map isAllocated = some false := by decide +kernel
  have hafter : ((sensor.apply {} e target).1.get? [.field 0]).map isAllocated = some true := by
    decide +kernel
  refine ⟨⟨_, rfl, rfl⟩, by decide +kernel, fun hsame => ?_⟩
  rw [hsame, hbefore] at hafter
  simp at hafter

end Schema

end TreeSync
