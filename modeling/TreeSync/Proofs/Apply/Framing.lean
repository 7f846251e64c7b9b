import TreeSync.Proofs.Apply.Changing

/-!
# What an event leaves alone

On its way an event goes through one container after the other.  In each of them
only the child that the next key leads to changes, whether the event succeeds or
fails.

Main results:

- `Schema.keyChange_walk`, `Schema.keyChange_perform`: one container.
- `Schema.framed_walk`: a walk.
- `Schema.apply_framed`: an event.
-/

namespace TreeSync

namespace Schema

open Node

variable {σ : Type} {S : Schema σ} {o : Options} {e : Event} {n c v : Node σ} {key text : String}
  {leaf : Bool} {change : Node σ → Node σ → Prop} {rest : List String}

/-! ## One step -/

/-- Without text behind the field name a step goes on in the field. -/
theorem walkField_plain (htext : text.isEmpty = true) (e : Event) (key : String)
    (rest : List String) (v : Node σ) :
    (S.walkField o e text key rest v).1 = (S.walk o e v rest).1 := by
  rw [walkField]
  by_cases haction : e.action = .delete
  · rw [if_pos haction]
    cases halloc : v.isAllocated with
    | false =>
        rcases exists_core_eq_error halloc with ⟨t, ht⟩
        rw [ht, walk_delete_unallocated haction halloc]
    | true =>
        rw [core_eq_ok_innermost halloc]
        simp only [if_pos htext]
  · rw [if_neg haction, if_pos htext]

theorem opened_eq_allocate (h : v.isAllocated = true ∨ e.action ≠ .delete) :
    S.opened e v = S.allocate v := by
  rw [opened]
  split
  · rename_i haction
    rcases h with halloc | hne
    · rw [S.allocate_of_isAllocated halloc]
    · exact absurd haction hne
  · rfl

/-- A step from a record changes the field that its key leads to. -/
theorem keyChange_walk_record (hS : S.Sound False) (hc : S.Typed False c) {type : String}
    {fields : List (Field × Node σ)} (hrecord : c.container = .record type fields)
    (hchange : ∀ v, S.Typed False v → change v (S.walk o e v rest).1) (key : String) :
    S.KeyChange o e key false change c (S.walk o e c (key :: rest)).1 := by
  have hwalk := walk_field hS (o := o) (e := e) hc hrecord key rest
  cases hslot : S.slotOf? o false type key with
  | error err =>
      rw [hslot] at hwalk
      rw [hwalk]
      exact .same c
  | ok slot =>
      obtain ⟨i, text⟩ := slot
      rw [hslot] at hwalk
      rcases hwalk with ⟨v, hv, hwalk⟩
      have hty := (keeps_walkField hS (o := o) e text key rest v).ty_eq
      have hsiblings := sameBut_putChild hv hty
      have hafter := child?_putChild hv hty
      rw [hwalk, putBack_field hv]
      cases htext : text.isEmpty with
      | true =>
          refine .field hrecord hslot htext hsiblings hv hafter ?_
          rw [walkField_plain htext]
          exact hchange v (hc.child hv)
      | false =>
          by_cases hopen : v.isAllocated = true ∨ e.action ≠ .delete
          · rw [walkField_allocate htext hopen, ← opened_eq_allocate hopen] at hsiblings hafter ⊢
            refine .suffix hrecord hslot htext hsiblings hv hafter ?_
            rw [opened_eq_allocate hopen]
            have hinner := ((keeps_allocate hS v).typed (hc.child hv)).innermost
            exact itemChange_walkItem hS hinner hchange text .content key
          · rw [not_or, Bool.not_eq_true, not_not] at hopen
            rw [walkField_unallocated hopen.1 hopen.2, hc.putChild_self hv]
            exact .same c

/-- A step from a bare node changes what its key leads to. -/
theorem keyChange_walk (hS : S.Sound False) (hc : S.Typed False c) (hready : Ready c)
    (hchange : ∀ v, S.Typed False v → change v (S.walk o e v rest).1) (key : String) :
    S.KeyChange o e key false change c (S.walk o e c (key :: rest)).1 := by
  by_cases hrecord : ∃ type fields, c.container = .record type fields
  · rcases hrecord with ⟨type, fields, hrecord⟩
    exact keyChange_walk_record hS hc hrecord hchange key
  · have hother : ∀ type fields, c.container ≠ .record type fields :=
      fun type fields h => hrecord ⟨type, fields, h⟩
    rw [walk_item hS hc hready hother]
    exact .item hother (itemChange_walkItem hS hc hchange key _ key)

/-! ## The leaf -/

/-- Behind the name of a field a leaf key leads to an entry or element. -/
theorem itemChange_performField (hS : S.Sound False) (hv : S.Typed False v)
    (htext : text.isEmpty = false) :
    (S.performField o e text v).1 = v ∨
      ∃ x, (S.performField o e text v).1 = (S.opened e v).withCore x ∧
        S.ItemChange o e text .content true (fun v w => w.ty = v.ty) (S.opened e v).innermost x := by
  rw [performField, ofNavigation, opened]
  by_cases haction : e.action = .delete
  · rw [if_pos haction, if_pos haction, htext]
    simp only [Bool.false_eq_true, if_false]
    cases hcore : v.core with
    | error t => exact .inl rfl
    | ok d =>
        rw [innermost_of_core hcore]
        simp only
        cases hremove : S.removeItem o d text .content with
        | error err => exact .inl rfl
        | ok m => exact .inr ⟨m, rfl, itemChange_removeItem haction hremove⟩
  · have hinner := ((keeps_allocate hS v).typed hv).innermost
    right
    rw [if_neg haction, if_neg haction, htext]
    simp only [Bool.false_eq_true, if_false]
    cases e.tag.shape? with
    | some shape => exact ⟨_, rfl, itemChange_shapeItem hS hinner haction text shape .content⟩
    | none =>
        exact ⟨_, rfl, itemChange_writeItem hS hinner haction (S.carries_event False e) text
          .content⟩

/-- The action at a record changes the field that its key leads to. -/
theorem keyChange_perform_record (hS : S.Sound False) (hc : S.Typed False c) {type : String}
    {fields : List (Field × Node σ)} (hrecord : c.container = .record type fields) :
    S.KeyChange o e e.key true (fun v w => w.ty = v.ty) c (S.perform o e c).1 := by
  have hperform := perform_field (o := o) (e := e) hc hrecord
  cases hslot : S.slotOf? o true type e.key with
  | error err =>
      rw [hslot] at hperform
      rw [hperform]
      exact .same c
  | ok slot =>
      obtain ⟨i, text⟩ := slot
      rw [hslot] at hperform
      rcases hperform with ⟨v, hv, hperform⟩
      have hty := (keeps_performField hS (o := o) e text v).ty_eq
      have hsiblings := sameBut_putChild hv hty
      have hafter := child?_putChild hv hty
      rw [hperform (hc.child hv).isEnclosing_eq_false, putBack_field hv]
      cases htext : text.isEmpty with
      | true => exact .field hrecord hslot htext hsiblings hv hafter hty
      | false =>
          rcases itemChange_performField hS (o := o) (e := e) (hc.child hv) htext with
            hsame | ⟨x, hx, hchange⟩
          · rw [hsame, hc.putChild_self hv]
            exact .same c
          · rw [hx] at hsiblings hafter ⊢
            exact .suffix hrecord hslot htext hsiblings hv hafter hchange

/-- The action at a bare node changes what its key leads to. -/
theorem keyChange_perform (hS : S.Sound False) (hc : S.Typed False c) (hready : Ready c) :
    S.KeyChange o e e.key true (fun v w => w.ty = v.ty) c (S.perform o e c).1 := by
  by_cases hrecord : ∃ type fields, c.container = .record type fields
  · rcases hrecord with ⟨type, fields, hrecord⟩
    exact keyChange_perform_record hS hc hrecord
  · have hother : ∀ type fields, c.container ≠ .record type fields :=
      fun type fields h => hrecord ⟨type, fields, h⟩
    refine .item hother ?_
    by_cases haction : e.action = .delete
    · rw [perform_of_delete haction, remove_item hready.bare hother]
      cases hremove : S.removeItem o c e.key (.ofKey o e.key) with
      | error err => exact .same c
      | ok m => exact itemChange_removeItem haction hremove
    · cases hshape : e.tag.shape? with
      | some shape =>
          have hmake := itemChange_shapeItem hS (o := o) hc haction e.key shape (.ofKey o e.key)
          rw [perform_of_shape haction hshape, promote_of_ready hready, materialize,
            S.allocate_of_bare hready.bare, innermost_of_bare hready.bare]
          simp only [putBack_of_bare hready.bare]
          exact hmake
      | none =>
          have hwrite := itemChange_writeItem hS (o := o) hc haction (S.carries_event False e)
            e.key (.ofKey o e.key)
          rw [perform_of_literal haction hshape, promote_of_ready hready, write,
            S.allocate_of_bare hready.bare, innermost_of_bare hready.bare]
          simp only [putBack_of_bare hready.bare]
          exact hwrite

/-! ## Below layers -/

/-- What an event does to a node is decided below its layers. -/
theorem nodeChange_walk (hS : S.Sound False) (hn : S.Typed False n) {path : List String}
    (h : ∀ c, S.Typed False c → Ready c →
      S.KeyChange o e key leaf change c (S.walk o e c path).1) :
    S.NodeChange o e key leaf change n (S.walk o e n path).1 := by
  by_cases haction : e.action = .delete
  · rw [NodeChange, opened, enters, if_pos haction, if_pos haction]
    cases halloc : n.isAllocated with
    | true =>
        have hbare := bare_innermost halloc
        have hlift := walk_withCore hS (o := o) hbare (fun hne => absurd haction hne) n path
        rw [withCore_innermost] at hlift
        refine ⟨_, congrArg Prod.fst hlift, ?_⟩
        by_cases hentered : entered n.innermost = n.innermost
        · exact h _ hn.innermost ⟨hbare, hentered⟩
        · rw [walk_delete_leaf haction hn.innermost hbare hentered]
          exact .same _
    | false =>
        refine ⟨n.innermost, ?_, .same _⟩
        rw [walk_delete_unallocated haction halloc, withCore_innermost]
  · rw [NodeChange, opened, enters, if_neg haction, if_neg haction]
    have hp := ((keeps_promote hS n).typed hn).innermost
    refine ⟨_, ?_, h _ hp (S.ready_innermost_promote n)⟩
    rw [walk_eq_withCore hS hn haction]
    simp only
    rw [promote_eq_withCore,
      withCore_withCore _ (ready_entered (S.bare_innermost_allocate n)).bare]

/-! ## Events -/

/-- A walk changes nothing but what lies on its way. -/
theorem framed_walk (hS : S.Sound False) (e : Event) (path : List String) (n : Node σ)
    (hn : S.Typed False n) : S.Framed o e path n (S.walk o e n path).1 := by
  induction path generalizing n with
  | nil => exact nodeChange_walk hS hn fun c hc hready => keyChange_perform hS hc hready
  | cons key rest ih =>
      exact nodeChange_walk hS hn fun c hc hready =>
        keyChange_walk hS hc hready (fun v hv => ih v hv) key

/-- An event on a tree changes nothing but what lies on its way, whether it succeeds
or fails. -/
theorem apply_framed (hS : S.Sound False) (hfree : S.OverrideFree) {target : Node σ}
    (htarget : S.Typed False target) (hroot : e.isRoot = false) :
    S.Framed o e e.path target (S.apply o e target).1 := by
  rw [apply_of_silent htarget (hfree.silent target) hroot]
  exact framed_walk hS e e.path target htarget

/-- A sensor whose offset events may not write. -/
def sensor : Schema Unit :=
  ((empty ()).declare "Offset"
      [(⟨"value", none, true, by decide, Field.none_ne_empty⟩, .scalar (.int .i32))]
      ()).declare "Sensor"
    [(⟨"offset", none, false, by decide, Field.none_ne_empty⟩, .option (.record "Offset")),
      (⟨"label", none, true, by decide, Field.none_ne_empty⟩, .scalar .string)] ()

theorem sound_sensor : sensor.Sound False := by
  refine sound_of_tree fun d hd f hf => ?_
  rcases List.mem_cons.1 hd with rfl | hd
  · obtain rfl := List.mem_singleton.1 hf
    exact .scalar _
  · obtain rfl := List.mem_singleton.1 hd
    rcases List.mem_cons.1 hf with rfl | hf
    · exact .absent _
    · obtain rfl := List.mem_singleton.1 hf
      exact .scalar _

theorem overrideFree_sensor : sensor.OverrideFree := by
  intro d hd state
  rcases List.mem_cons.1 hd with rfl | hd
  · rfl
  · obtain rfl := List.mem_singleton.1 hd
    rfl

/-- A value that does not fit leaves the offset filled, and changes nothing else. -/
theorem apply_framed_sensor :
    let target := sensor.zero (.record "Sensor")
    let e : Event := ⟨.create, ["offset"], "value", .scalar .int, "much", none⟩
    (sensor.apply {} e target).2.isOk = false ∧
    ((sensor.apply {} e target).1.child? (.field 0)).map isAllocated = some true ∧
    sensor.Framed {} e e.path target (sensor.apply {} e target).1 := by
  intro target e
  refine ⟨by decide +kernel, by decide +kernel, ?_⟩
  exact apply_framed sound_sensor overrideFree_sensor (typed_zero sound_sensor _) rfl

end Schema

end TreeSync
