import TreeSync.Proofs.Apply.Locality

/-!
# Deleting from new values

Where new records hold new values in all fields, nothing can be deleted from a
node that was just made: the event fails, or resets what is already new.

Main definitions and results:

- `Schema.ZeroDefaults`: new records hold new values.
- `Schema.Fresh`: a node whose core is new.
- `Schema.walk_delete_fresh`: deleting below a new node changes nothing.
-/

namespace TreeSync

namespace Schema

open Node

variable {σ : Type} {S : Schema σ} {o : Options} {e : Event} {n c v : Node σ} {text : String}
  {mode : Mode}

/-- New records hold new values in all fields. -/
def ZeroDefaults (S : Schema σ) : Prop :=
  ∀ d ∈ S.records, ∀ f ∈ d.fields, f.2 = S.zero f.2.ty

/-- The fields of a new record are the ones of its type, and new. -/
theorem fields_of_eq_zero (hzero : S.ZeroDefaults) {type : String}
    {fields : List (Field × Node σ)} {state : σ}
    (hn : .record type fields state = S.zero (.record type)) :
    fields.map (fun f => (f.1, f.2.ty)) = S.signature type ∧
      ∀ f ∈ fields, f.2 = S.zero f.2.ty := by
  rw [zero] at hn
  cases hd : S.find? type with
  | none =>
      rw [hd] at hn
      obtain ⟨-, rfl, -⟩ := Node.record.inj hn
      rw [signature, hd]
      exact ⟨rfl, List.forall_mem_nil _⟩
  | some d =>
      rw [hd] at hn
      obtain ⟨-, rfl, -⟩ := Node.record.inj hn
      exact ⟨(signature_of_find? hd).symm, hzero d (mem_of_find? hd)⟩

/-- New values are trees. -/
theorem typed_of_eq_zero (hzero : S.ZeroDefaults) (n : Node σ) (hn : n = S.zero n.ty) :
    S.Typed False n := by
  match n with
  | .scalar slot => exact .scalar slot
  | .absent t => exact .absent t
  | .present v => simp [Node.ty, zero] at hn
  | .boxed v =>
      rw [Node.ty, zero] at hn
      exact .boxed (typed_of_eq_zero hzero v (Node.boxed.inj hn))
  | .list elem items =>
      rw [Node.ty, zero] at hn
      obtain ⟨-, rfl⟩ := Node.list.inj hn
      exact .list (List.forall_mem_nil _) (List.forall_mem_nil _)
  | .map order key elem entries =>
      rw [Node.ty, zero] at hn
      obtain ⟨-, -, -, rfl⟩ := Node.map.inj hn
      exact .map List.Pairwise.nil (List.forall_mem_nil _) (List.forall_mem_nil _)
        (List.forall_mem_nil _)
  | .array elem items =>
      rw [Node.ty, zero] at hn
      obtain ⟨-, hitems⟩ := Node.array.inj hn
      have hmem : ∀ v ∈ items, v = S.zero elem := by
        intro v hv
        rw [hitems] at hv
        exact List.eq_of_mem_replicate hv
      refine .array ?_ ?_
      · intro v hv
        rw [hmem v hv, ty_zero]
      · intro v hv
        have := List.sizeOf_lt_of_mem hv
        refine typed_of_eq_zero hzero v ?_
        rw [hmem v hv, ty_zero]
  | .dynamic d =>
      rw [Node.ty, zero] at hn
      obtain rfl := Node.dynamic.inj hn
      exact .dynamic (.leaf rfl)
  | .record type fields state =>
      rcases fields_of_eq_zero hzero hn with ⟨htypes, hfields⟩
      refine .record_of_tree htypes fun f hf => ?_
      have := List.sizeOf_lt_of_mem hf
      have hsize : sizeOf f.2 < sizeOf f := by
        cases f with
        | mk field v =>
            simp only [Prod.mk.sizeOf_spec]
            omega
      exact typed_of_eq_zero hzero f.2 (hfields f hf)
  | .enclosing type =>
      rw [Node.ty, zero] at hn
      cases hd : S.find? type with
      | none => simp [hd] at hn
      | some d => simp [hd, RecordDef.zero] at hn
termination_by sizeOf n
decreasing_by all_goals simp_wf <;> omega

/-- With new values in all fields of new records, new values are trees. -/
theorem ZeroDefaults.sound (hzero : S.ZeroDefaults) : S.Sound False :=
  sound_of_tree fun d hd f hf => typed_of_eq_zero hzero f.2 (hzero d hd f hf)

/-! ## New nodes -/

/-- What stands below the layers is new, or an empty map in the place of a new
document. -/
def Fresh (S : Schema σ) (n : Node σ) : Prop :=
  n.innermost = S.zero n.innermost.ty ∨ n.innermost = .dynamic (.map [])

theorem fresh_zero (S : Schema σ) (t : Ty) : S.Fresh (S.zero t) := by
  induction t with
  | box t ih => exact ih
  | scalar k => exact .inl (by cases k <;> rfl)
  | record name =>
      refine .inl ?_
      have hty := S.ty_zero (.record name)
      rw [zero] at hty ⊢
      cases hd : S.find? name with
      | none => simp [innermost, Node.ty, zero, hd]
      | some d =>
          have hname := S.name_of_find? hd
          simp [innermost, Node.ty, zero, hd, RecordDef.zero, hname]
  | array t k ih => 
      refine .inl ?_
      rw [zero, innermost]
      simp [Node.ty, zero]
      all_goals simp
  | _ => exact .inl rfl

theorem fresh_filled (S : Schema σ) (t : Ty) : S.Fresh (S.filled t) := by
  induction t with
  | option t ih => exact ih
  | box t ih => exact ih
  | _ => exact S.fresh_zero _

/-- Filling a missing layer makes a new node. -/
theorem fresh_allocate (hn : n.isAllocated = false) : S.Fresh (S.allocate n) := by
  induction n using layers_induction with
  | absent t => exact S.fresh_filled t
  | present v ih => exact ih hn
  | boxed v ih => exact ih hn
  | bare n hbare => simp [isAllocated_of_bare hbare] at hn

/-! ## Deleting -/

theorem fresh_of_bare (hc : c.Bare) (h : S.Fresh c) :
    c = S.zero c.ty ∨ c = .dynamic (.map []) := by
  rwa [Fresh, innermost_of_bare hc] at h

/-- A new container holds nothing but the new values of record fields. -/
theorem container_of_fresh (hc : c.Bare) (h : S.Fresh c) :
    (∃ type fields, c.container = .record type fields) ∨ c.container = .leaf ∨
      c.container = .fixed ∨ (∃ elem, c.container = .list elem []) ∨
      ∃ kind elem, c.container = .map kind elem [] := by
  rcases fresh_of_bare hc h with heq | rfl
  · cases c with
    | list elem items =>
        rw [Node.ty, zero] at heq
        obtain ⟨-, rfl⟩ := Node.list.inj heq
        exact .inr (.inr (.inr (.inl ⟨elem, rfl⟩)))
    | map order kind elem entries =>
        rw [Node.ty, zero] at heq
        obtain ⟨-, -, -, rfl⟩ := Node.map.inj heq
        exact .inr (.inr (.inr (.inr ⟨kind, elem, rfl⟩)))
    | record type fields state => exact .inl ⟨type, fields, rfl⟩
    | array elem items => exact .inr (.inr (.inl rfl))
    | dynamic d =>
        rw [Node.ty, zero] at heq
        obtain rfl := Node.dynamic.inj heq
        exact .inr (.inl rfl)
    | _ => exact .inr (.inl rfl)
  · exact .inr (.inr (.inr (.inr ⟨_, _, rfl⟩)))

theorem locate_nil (S : Schema σ) (o : Options) (elem : Ty) (key : String) (mode : Mode) :
    (∃ err, S.locate o elem [] key mode = .error err) ∨ S.locate o elem [] key mode = .ok none := by
  cases mode with
  | none => exact .inl ⟨_, rfl⟩
  | index =>
      rw [locate]
      cases Mode.position? key with
      | none => exact .inl ⟨_, rfl⟩
      | some i => exact .inr rfl
  | content =>
      rw [locate]
      cases Key.require key with
      | error err => exact .inl ⟨err, rfl⟩
      | ok _ =>
          rw [matchIndex]
          cases S.build o elem key with
          | error err => exact .inl ⟨err, rfl⟩
          | ok built =>
              cases constrained key with
              | error err => exact .inl ⟨err, rfl⟩
              | ok names => exact .inr rfl
  | first => exact .inr rfl
  | last => exact .inr rfl

/-- No entry or element of a new container is found. -/
theorem findItem_fresh (hc : c.Bare) (h : S.Fresh c) (text : String) (mode : Mode) :
    ∃ err, S.findItem o c text mode = .error err := by
  rw [findItem]
  rcases container_of_fresh hc h with ⟨type, fields, hcontainer⟩ | hcontainer | hcontainer |
    ⟨elem, hcontainer⟩ | ⟨kind, elem, hcontainer⟩
  · rw [hcontainer]
    exact ⟨_, rfl⟩
  · rw [hcontainer]
    exact ⟨_, rfl⟩
  · rw [hcontainer]
    exact ⟨_, rfl⟩
  · rw [hcontainer]
    rcases S.locate_nil o elem text mode with ⟨err, herr⟩ | hnone
    · simp only [herr]
      exact ⟨_, rfl⟩
    · simp only [hnone]
      exact ⟨_, rfl⟩
  · rw [hcontainer]
    cases Key.require text with
    | error err => exact ⟨_, rfl⟩
    | ok _ =>
        cases hk : kind.decode text with
        | error err => exact ⟨err, by simp [bind, Except.bind, hk]⟩
        | ok k => exact ⟨.entryNotFound text, by simp [bind, Except.bind, hk, Entries.get?]⟩

theorem removeItem_fresh (hc : c.Bare) (h : S.Fresh c) {m : Node σ}
    (hm : S.removeItem o c text mode = .ok m) : m = c := by
  rcases container_of_fresh hc h with ⟨type, fields, hcontainer⟩ | hcontainer | hcontainer |
    ⟨elem, hcontainer⟩ | ⟨kind, elem, hcontainer⟩
  · rw [removeItem, hcontainer] at hm
    simp at hm
  · rw [removeItem, hcontainer] at hm
    simp at hm
  · rw [removeItem, hcontainer] at hm
    simp at hm
  · rw [removeItem, hcontainer] at hm
    rcases S.locate_nil o elem text mode with ⟨err, herr⟩ | hnone
    · simp [herr, bind, Except.bind] at hm
    · simp [hnone, bind, Except.bind] at hm
  · rw [removeItem_of_map hcontainer] at hm
    rcases bind_eq_ok.1 hm with ⟨k, -, heq⟩
    rw [← Except.ok.inj heq]
    refine alterEntry_none hcontainer ?_
    rw [child?_entry hcontainer]
    rfl

/-- The fields of a new record are new. -/
theorem eq_zero_of_field (hzero : S.ZeroDefaults) (hc : c.Bare) (h : S.Fresh c) {i : Nat}
    (hv : c.child? (.field i) = some v) : v = S.zero v.ty := by
  rcases fresh_of_bare hc h with heq | rfl
  · cases c with
    | record type fields state =>
        obtain ⟨f, hf, rfl⟩ := Option.map_eq_some_iff.1 hv
        exact (fields_of_eq_zero hzero heq).2 f (List.mem_of_getElem? hf)
    | dynamic d => cases d <;> simp [child?] at hv
    | _ => simp [child?] at hv
  · simp [child?] at hv

/-- An event that deletes fails below a layer without a value. -/
theorem walk_missing (haction : e.action = .delete) (hn : n.isAllocated = false)
    (path : List String) : ∃ err, S.walk o e n path = (n, .error err) := by
  rcases exists_core_eq_error hn with ⟨t, ht⟩
  cases path with
  | nil =>
      rw [walk, perform_of_delete haction, remove, ht]
      exact ⟨_, rfl⟩
  | cons key rest =>
      rw [walk, haction, enter_delete, find, ht]
      exact ⟨_, rfl⟩

/-- Below a missing layer nothing is deleted. -/
theorem walk_delete_unallocated (haction : e.action = .delete) (hn : n.isAllocated = false)
    (path : List String) : (S.walk o e n path).1 = n := by
  rcases walk_missing (S := S) (o := o) haction hn path with ⟨err, h⟩
  rw [h]

/-- The core of a new node is new. -/
theorem fresh_core {d : Node σ} (h : S.Fresh v) (hd : v.core = .ok d) : S.Fresh d := by
  rw [Fresh, innermost_of_core hd] at h
  rwa [Fresh, innermost_of_bare (bare_of_core hd)]

theorem fresh_of_eq_zero (h : v = S.zero v.ty) : S.Fresh v := by
  rw [h]
  exact S.fresh_zero v.ty

theorem performField_fresh (haction : e.action = .delete) (h : v = S.zero v.ty) (text : String) :
    (S.performField o e text v).1 = v := by
  rw [performField, if_pos haction]
  by_cases htext : text.isEmpty = true
  · simp only [htext, if_true]
    exact h.symm
  · simp only [htext, Bool.false_eq_true, if_false]
    cases hcore : v.core with
    | error t => rfl
    | ok d =>
        cases hitem : S.removeItem o d text .content with
        | error err =>
            simp only [hitem]
            rfl
        | ok m =>
            have hd := fresh_core (fresh_of_eq_zero h) hcore
            simp only [hitem]
            rw [removeItem_fresh (bare_of_core hcore) hd hitem, ← innermost_of_core hcore]
            exact v.withCore_innermost

theorem walkField_fresh (haction : e.action = .delete) (h : S.Fresh v) {rest : List String}
    (hwalk : (S.walk o e v rest).1 = v) (text key : String) :
    (S.walkField o e text key rest v).1 = v := by
  rw [walkField, if_pos haction]
  cases hcore : v.core with
  | error t => rfl
  | ok d =>
      by_cases htext : text.isEmpty = true
      · simpa only [htext, if_true] using hwalk
      · have hd := fresh_core h hcore
        rcases findItem_fresh (o := o) (bare_of_core hcore) hd text .content with ⟨err, herr⟩
        simp only [htext, Bool.false_eq_true, if_false, walkItem, if_pos haction, herr]
        rw [← innermost_of_core hcore]
        exact v.withCore_innermost

/-- Deleting at a new container changes nothing. -/
theorem perform_delete_fresh (hzero : S.ZeroDefaults) (haction : e.action = .delete)
    (hc : S.Typed False c) (hbare : c.Bare) (hfresh : S.Fresh c) : (S.perform o e c).1 = c := by
  by_cases hrecord : ∃ type fields, c.container = .record type fields
  · rcases hrecord with ⟨type, fields, hrecord⟩
    have hperform := perform_field (o := o) (e := e) hc hrecord
    cases hslot : S.slotOf? o true type e.key with
    | error err =>
        rw [hslot] at hperform
        rw [hperform]
    | ok slot =>
        obtain ⟨i, text⟩ := slot
        rw [hslot] at hperform
        rcases hperform with ⟨v, hv, hperform⟩
        have hsame := performField_fresh (o := o) haction
          (eq_zero_of_field hzero hbare hfresh hv) text
        rw [hperform (hc.child hv).isEnclosing_eq_false, putBack_field hv, hsame]
        exact hc.putChild_self hv
  · have hother : ∀ type fields, c.container ≠ .record type fields :=
      fun type fields h => hrecord ⟨type, fields, h⟩
    rw [perform_of_delete haction, remove_item hbare hother]
    cases hitem : S.removeItem o c e.key (.ofKey o e.key) with
    | error err => rfl
    | ok m => exact removeItem_fresh hbare hfresh hitem

/-- A step from a new container finds a new field or nothing. -/
theorem walk_cons_fresh (hzero : S.ZeroDefaults) (haction : e.action = .delete)
    (hc : S.Typed False c) (hbare : c.Bare) (hfresh : S.Fresh c) {key : String}
    {rest : List String}
    (hwalk : ∀ v, S.Typed False v → S.Fresh v → (S.walk o e v rest).1 = v) :
    (S.walk o e c (key :: rest)).1 = c := by
  by_cases hrecord : ∃ type fields, c.container = .record type fields
  · rcases hrecord with ⟨type, fields, hrecord⟩
    have hstep := walk_field hzero.sound (o := o) (e := e) hc hrecord key rest
    cases hslot : S.slotOf? o false type key with
    | error err =>
        rw [hslot] at hstep
        rw [hstep]
    | ok slot =>
        obtain ⟨i, text⟩ := slot
        rw [hslot] at hstep
        rcases hstep with ⟨v, hv, hstep⟩
        have hfield := fresh_of_eq_zero (eq_zero_of_field hzero hbare hfresh hv)
        have hbelow := hwalk v (hc.child hv) hfield
        have hsame := walkField_fresh (o := o) haction hfield hbelow text key
        rw [hstep, putBack_field hv, hsame]
        exact hc.putChild_self hv
  · have hother : ∀ type fields, c.container ≠ .record type fields :=
      fun type fields h => hrecord ⟨type, fields, h⟩
    rcases findItem_fresh (o := o) hbare hfresh key (.ofKey o key) with ⟨err, herr⟩
    rw [walk_delete hc hbare haction, find_item hbare hother, herr]

/-- Deleting below a new node changes nothing. -/
theorem walk_delete_fresh (hzero : S.ZeroDefaults) (haction : e.action = .delete)
    (hn : S.Typed False n) (hfresh : S.Fresh n) (path : List String) :
    (S.walk o e n path).1 = n := by
  induction path generalizing n with
  | nil =>
      by_cases halloc : n.isAllocated = true
      · have hbare := bare_innermost halloc
        have hcore := fresh_core hfresh (core_eq_ok_innermost halloc)
        have hlift := walk_withCore hzero.sound (o := o) (e := e) hbare
          (fun h => absurd haction h) n []
        rw [withCore_innermost] at hlift
        rw [hlift, walk, perform_delete_fresh hzero haction hn.innermost hbare hcore]
        exact n.withCore_innermost
      · exact walk_delete_unallocated haction (Bool.eq_false_iff.2 halloc) []
  | cons key rest ih =>
      by_cases halloc : n.isAllocated = true
      · have hbare := bare_innermost halloc
        have hcore := fresh_core hfresh (core_eq_ok_innermost halloc)
        have hlift := walk_withCore hzero.sound (o := o) (e := e) hbare
          (fun h => absurd haction h) n (key :: rest)
        rw [withCore_innermost] at hlift
        rw [hlift, walk_cons_fresh hzero haction hn.innermost hbare hcore fun v hv h => ih hv h]
        exact n.withCore_innermost
      · exact walk_delete_unallocated haction (Bool.eq_false_iff.2 halloc) (key :: rest)

end Schema

end TreeSync
