import TreeSync.Proofs.Apply.Fresh
import TreeSync.Proofs.Apply.Rewriting

/-!
# Records that are fields of themselves

A field of a record that is the record itself stands for it and holds no value of its
own.  New records are made so, building a record from a key keeps such fields, and so
does every event: a step to such a field ends the walk, and writing to it replaces the
whole record.

Main definitions and results:

- `Schema.Looped`: a record whose fields of its own type all stand for it.
- `Schema.looped_build`: records built from keys.
- `Schema.find_enclosing`, `Schema.createChild_enclosing`: steps to such a field.
- `Schema.walk_enclosing`, `Schema.perform_enclosing`: events at such a field.
- `Schema.looped_walk`: events keep them.
-/

namespace TreeSync

namespace Schema

open Node

variable {σ : Type} {S : Schema σ} {o : Options} {loops : Prop} {e : Event} {c d v : Node σ}
  {type key text : String} {i : Nat}

/-- Every field of a record that is the record itself stands for it. -/
def Looped (S : Schema σ) (c : Node σ) : Prop :=
  ∀ type fields, c.container = .record type fields → ∀ i v, S.Itself type i →
    c.child? (.field i) = some v → v.isEnclosing = true

/-- In new records every field that is the record itself stands for it. -/
def LoopedDefaults (S : Schema σ) : Prop :=
  ∀ d ∈ S.records, ∀ f ∈ d.fields, f.2.ty = .record d.name → f.2.isEnclosing = true

/-! ## New and built records -/

theorem looped_zero (hloops : S.LoopedDefaults) (t : Ty) : S.Looped (S.zero t) := by
  intro type fields hrecord i v hself hv
  cases t with
  | record name =>
      rw [zero] at hrecord hv
      cases hfind : S.find? name with
      | none =>
          rw [hfind] at hv
          simp [child?] at hv
      | some d =>
          rw [hfind] at hrecord hv
          obtain ⟨rfl, -⟩ := Container.record.inj hrecord
          rcases Option.map_eq_some_iff.1 hv with ⟨f, hf, rfl⟩
          refine hloops d (mem_of_find? hfind) f (List.mem_of_getElem? hf) ?_
          rw [Itself, S.name_of_find? hfind, signature_of_find? hfind, List.getElem?_map,
            hf] at hself
          rw [S.name_of_find? hfind]
          exact Option.some.inj hself
  | _ => simp [zero, container] at hrecord

/-- What an event enters below missing layers is new. -/
theorem looped_promote (hloops : S.LoopedDefaults) {n : Node σ} (hn : n.isAllocated = false) :
    S.Looped (S.promote n).innermost := by
  rw [innermost_promote]
  rcases fresh_allocate (S := S) hn with hzero | hempty
  · have hlooped := looped_zero hloops (S.allocate n).innermost.ty
    rw [← hzero] at hlooped
    cases hinner : (S.allocate n).innermost with
    | dynamic doc =>
        intro type fields hrecord
        rw [entered] at hrecord
        split at hrecord
        · simp [container] at hrecord
        · rcases eq_record_of_container hrecord with ⟨state, heq⟩
          simp at heq
    | _ => rwa [hinner] at hlooped
  · rw [hempty]
    intro type fields hrecord
    simp [entered, container] at hrecord

theorem allocateChildren_enclosing (ancestors : List Ty) (type : String) :
    S.allocateChildren ancestors (.enclosing type) = .enclosing type := by
  rw [allocateChildren.eq_def]
  split <;> rfl

theorem getElem?_allocateFields (ancestors : List Ty) (fields : List (Field × Node σ)) (i : Nat) :
    (S.allocateFields ancestors fields)[i]? =
      fields[i]?.map fun f => (f.1, S.allocateChildren ancestors f.2) := by
  induction fields generalizing i with
  | nil => simp [allocateFields]
  | cons f rest ih =>
      obtain ⟨f, v⟩ := f
      rw [allocateFields]
      cases i with
      | zero => rfl
      | succ i => exact ih i

theorem looped_prepare (o : Options) {fields : List (Field × Node σ)} {state : σ}
    (h : S.Looped (.record type fields state)) :
    ∃ others, S.prepare o (.record type fields state) = .record type others state ∧
      S.Looped (.record type others state) := by
  rw [prepare]
  split
  · refine ⟨S.allocateFields [.record type] fields, ?_, ?_⟩
    · simp only [allocate, innermost, coreAddress, replaceAt]
      rw [allocateChildren.eq_def]
      simp
    · intro other others hrecord i w hself hw
      obtain ⟨rfl, rfl⟩ := Container.record.inj hrecord
      rw [child?, getElem?_allocateFields, Option.map_map] at hw
      rcases Option.map_eq_some_iff.1 hw with ⟨f, hf, rfl⟩
      have hv : (Node.record type fields state).child? (.field i) = some f.2 := by
        rw [child?, hf, Option.map_some]
      have henclosing := h type fields rfl i f.2 hself hv
      rcases f with ⟨f, v⟩
      cases v with
      | enclosing other => exact congrArg isEnclosing (S.allocateChildren_enclosing _ other)
      | _ => simp [isEnclosing] at henclosing
  · exact ⟨fields, rfl, h⟩

/-- Changing a field that is not the record itself leaves those that are. -/
theorem looped_putField {fields : List (Field × Node σ)} {state : σ}
    (h : S.Looped (.record type fields state)) {i : Nat} {v : Node σ}
    (hv : (Node.record type fields state).child? (.field i) = some v)
    (hne : v.isEnclosing = false) (w : Node σ) :
    S.Looped ((Node.record type fields state).putChild (.field i) w) := by
  intro other others hrecord j u hself hu
  obtain ⟨rfl, -⟩ := Container.record.inj hrecord
  by_cases hij : i = j
  · subst hij
    exact absurd (h type fields rfl i v hself hv) (by simp [hne])
  · rw [child?_putField_of_ne _ hij] at hu
    exact h type fields rfl j u hself hu

mutual

/-- Filling a record with the content of a key keeps the fields that are the record
itself. -/
theorem looped_fill (hS : S.Sound loops) (o : Options) {fields : List (Field × Node σ)}
    {state : σ} (hn : S.Typed loops (.record type fields state))
    (h : S.Looped (.record type fields state))
    (literal : String) {m : Node σ} (hfill : S.fill o (.record type fields state) literal = .ok m) :
    S.Looped m := by
  rcases looped_prepare o h with ⟨others, hprepare, hothers⟩
  have htyped := (keeps_prepare hS o _).typed hn
  rw [fill, hprepare] at hfill
  rcases map_eq_ok.1 hfill with ⟨d, hd, rfl⟩
  simp only [innermost] at hd
  split at hd
  · simp at hd
  · rename_i key hkey
    have := Key.weight_of_decode hkey
    rw [hprepare] at htyped
    exact looped_fillFields hS o htyped hothers key.qualifiers hd
termination_by (literal.length, 1)
decreasing_by exact Prod.Lex.right' _ this (by decide)

theorem looped_fillFields (hS : S.Sound loops) (o : Options) {fields : List (Field × Node σ)}
    {state : σ} (hn : S.Typed loops (.record type fields state))
    (h : S.Looped (.record type fields state))
    (qualifiers : List (String × String)) {m : Node σ}
    (hfill : S.fillFields o (.record type fields state) qualifiers = .ok m) : S.Looped m := by
  match qualifiers with
  | [] =>
      rw [fillFields] at hfill
      exact Except.ok.inj hfill ▸ h
  | (field, value) :: rest =>
      rw [fillFields] at hfill
      split at hfill
      · simp at hfill
      · rename_i place hplace
        split at hfill
        · simp at hfill
        · rename_i child hchild
          have hget := Node.get?_fieldPlace rfl hplace
          have hkeeps := keeps_fill hS o place.node value hchild
          have hafter :
              S.Looped ((Node.record type fields state).replaceAt place.address child) := by
            rcases fieldPlace_eq_ok hplace with ⟨i, f, v, -, hf, -, ⟨t, rfl, rfl⟩ | ⟨hne, rfl⟩⟩
            · exact looped_fill hS o hn h value hchild
            · have hv : (Node.record type fields state).child? (.field i) = some v := by
                rw [child?, hf, Option.map_some]
              have hown : v.isEnclosing = false := by
                cases v with
                | enclosing t => exact absurd rfl (hne t)
                | _ => rfl
              simp only [replaceAt, hv]
              exact looped_putField h hv hown child
          rcases record_of_keeps (hkeeps.replaceAt hget) hn rfl with ⟨hnext, others, hrecord⟩
          rcases eq_record_of_container hrecord with ⟨next, heq⟩
          rw [heq] at hfill hafter hnext
          exact looped_fillFields hS o hnext hafter rest hfill
termination_by (Key.weight qualifiers, 0)
decreasing_by
  all_goals
    simp only [Key.weight]
    refine Prod.Lex.left _ _ ?_
    omega

end

theorem looped_build (hS : S.Sound loops) (hloops : S.LoopedDefaults) {m : Node σ}
    (h : S.build o (.record type) key = .ok m) : S.Looped m := by
  rcases eq_record_of_ty (S.isEnclosing_zero (.record type)) (S.ty_zero (.record type)) with
    ⟨fields, state, heq⟩
  have htyped := typed_zero hS (.record type)
  have hlooped := looped_zero hloops (.record type)
  rw [heq] at htyped hlooped
  rw [build, heq] at h
  exact looped_fill hS o htyped hlooped key h

/-! ## Events at the record itself -/

section Enclosing

variable {fields : List (Field × Node σ)}

theorem fieldPlace_enclosing (hc : S.Typed loops c) (hrecord : c.container = .record type fields)
    {write : Bool} {name : String} (hi : S.fieldOf? o write type name = .ok i)
    (hv : c.child? (.field i) = some v) (hself : v.isEnclosing = true) :
    c.fieldPlace o write type fields name = .ok ⟨[], c⟩ := by
  have hplace := fieldPlace_record hc hrecord o write name
  rw [hi] at hplace
  rcases hplace with ⟨u, hu, hplace⟩
  obtain rfl := Option.some.inj (hv.symm.trans hu)
  rw [hplace, if_pos hself]

/-- A field that is the record around it is found where the record is. -/
theorem find_enclosing (hc : S.Typed loops c) (hrecord : c.container = .record type fields)
    (hslot : S.slotOf? o false type key = .ok (i, "")) (hv : c.child? (.field i) = some v)
    (hself : v.isEnclosing = true) (mode : Mode) : S.find o c key mode = .ok ⟨[], c⟩ := by
  rcases bind_eq_ok.1 hslot with ⟨u, hrequire, hkey⟩
  rcases bind_eq_ok.1 hkey with ⟨⟨name, rest⟩, hsplit, hfield⟩
  rcases bind_eq_ok.1 hfield with ⟨j, hj, heq⟩
  obtain ⟨rfl, rfl⟩ := Prod.mk.inj (Except.ok.inj heq)
  have hbare := (ready_of_record hrecord).bare
  have hplace := fieldPlace_enclosing hc hrecord hj hv hself
  rw [find, core_of_bare hbare]
  simp only [hrecord, hrequire, hsplit, hplace, isAllocated_of_bare hbare,
    coreAddress_of_bare hbare, bind, Except.bind]
  rfl

/-- A creating step to a field that is the record itself makes nothing. -/
theorem createChild_enclosing (hc : S.Typed loops c) (hrecord : c.container = .record type fields)
    (hslot : S.slotOf? o false type key = .ok (i, text)) (hv : c.child? (.field i) = some v)
    (hself : v.isEnclosing = true) (mode : Mode) :
    S.createChild o c key mode =
      (c, if text.isEmpty then .ok [] else .error (.fieldNotFound "" type)) := by
  rcases bind_eq_ok.1 hslot with ⟨u, hrequire, hkey⟩
  rcases bind_eq_ok.1 hkey with ⟨⟨name, rest⟩, hsplit, hfield⟩
  rcases bind_eq_ok.1 hfield with ⟨j, hj, heq⟩
  obtain ⟨rfl, rfl⟩ := Prod.mk.inj (Except.ok.inj heq)
  have hplace := fieldPlace_enclosing hc hrecord hj hv hself
  have hbare := (ready_of_record hrecord).bare
  rw [createChild]
  simp only [hrecord, hrequire, hsplit, hplace, bind, Except.bind, pure, Except.pure]
  split
  · rfl
  · simp only [S.allocate_of_bare hbare, innermost_of_bare hbare, createItem, hrecord,
      coreAddress_of_bare hbare]
    rfl

/-- A creating step that leads nowhere else leads to a field that is the record
itself. -/
theorem exists_enclosing_of_enter (hS : S.Sound loops) (hc : S.Typed loops c) (hready : Ready c)
    (haction : e.action ≠ .delete) {m : Node σ} (h : S.enter o e.action c key = (m, .ok [])) :
    m = c ∧ ∃ type fields i text v, c.container = .record type fields ∧
      S.slotOf? o false type key = .ok (i, text) ∧ c.child? (.field i) = some v ∧
        v.isEnclosing = true := by
  have hkeeps := keeps_createChild hS (o := o) c key (.ofKey o key)
  rcases enter_create_eq_ok hready haction h with ⟨r, b, child, hmade, hchild, rfl, hb⟩
  obtain ⟨rfl, -⟩ := List.append_eq_nil_iff.1 hb.symm
  obtain rfl := Option.some.inj hchild
  rw [hmade] at hkeeps
  rw [replaceAt, S.allocate_of_bare (hready.bare.of_ty_eq hkeeps.ty_eq)]
  by_cases hrecord : ∃ type fields, c.container = .record type fields
  · rcases hrecord with ⟨type, fields, hrecord⟩
    have hcreate := createChild_record hc hrecord o key (.ofKey o key)
    cases hslot : S.slotOf? o false type key with
    | error err =>
        rw [hslot] at hcreate
        simp [hcreate] at hmade
    | ok slot =>
        obtain ⟨i, text⟩ := slot
        rw [hslot] at hcreate
        rcases hcreate with ⟨v, hv, -⟩
        cases hself : v.isEnclosing with
        | false =>
            rcases createChild_slot_address hc hrecord hslot hv hself (congrArg Prod.snd hmade)
              with ⟨b, hb⟩
            simp at hb
        | true =>
            rw [createChild_enclosing hc hrecord hslot hv hself] at hmade
            exact ⟨(Prod.mk.inj hmade).1.symm, type, fields, i, text, v, hrecord, hslot, hv, hself⟩
  · rw [createChild_item fun type fields heq => hrecord ⟨type, fields, heq⟩] at hmade
    rcases exists_step_of_createItem (congrArg Prod.snd hmade) with ⟨s, hs⟩
    simp at hs

/-- A step to a field that is the record itself ends the walk. -/
theorem walk_enclosing (hc : S.Typed loops c) (hrecord : c.container = .record type fields)
    (haction : e.action ≠ .delete) (hslot : S.slotOf? o false type key = .ok (i, text))
    (hv : c.child? (.field i) = some v) (hself : v.isEnclosing = true) (rest : List String) :
    ∃ err, S.walk o e c (key :: rest) = (c, .error err) := by
  have hready := ready_of_record hrecord
  rw [walk, enter_create hready haction, createChild_enclosing hc hrecord hslot hv hself]
  by_cases htext : text.isEmpty = true
  · simp only [if_pos htext, Node.get?, S.allocate_of_bare hready.bare, replaceAt, List.nil_append,
      coreAddress_of_bare hready.bare, isAllocated_of_bare hready.bare, true_and, if_true]
    exact ⟨_, rfl⟩
  · simp only [if_neg htext]
    exact ⟨_, rfl⟩

/-- A key that leads to the record itself has the whole record written. -/
theorem perform_enclosing (hc : S.Typed loops c) (hrecord : c.container = .record type fields)
    (haction : e.action ≠ .delete) (hslot : S.slotOf? o true type e.key = .ok (i, text))
    (hv : c.child? (.field i) = some v) (hself : v.isEnclosing = true) :
    S.perform o e c = S.performField o e text c := by
  rcases bind_eq_ok.1 hslot with ⟨u, hrequire, hkey⟩
  rcases bind_eq_ok.1 hkey with ⟨⟨name, rest⟩, hsplit, hfield⟩
  rcases bind_eq_ok.1 hfield with ⟨j, hj, heq⟩
  obtain ⟨rfl, rfl⟩ := Prod.mk.inj (Except.ok.inj heq)
  have hplace : writableField o c type fields e.key = .ok (⟨[], c⟩, rest) := by
    rw [writableField, hrequire, hsplit]
    simp only [bind, Except.bind, fieldPlace_enclosing hc hrecord hj hv hself]
    rfl
  exact perform_field_create hrecord haction hplace

/-- Nothing is written below the record itself. -/
theorem performField_record (hrecord : c.container = .record type fields)
    (haction : e.action ≠ .delete) (htext : text.isEmpty = false) :
    S.performField o e text c = (c, .error (.navigation (.fieldNotFound "" type))) := by
  have hbare := (ready_of_record hrecord).bare
  rw [performField_of_ne haction, htext, S.allocate_of_bare hbare, innermost_of_bare hbare,
    putBack_of_bare hbare, putItem]
  cases e.tag.shape? with
  | some shape =>
      simp only [shapeItem, hrecord]
      rfl
  | none =>
      simp only [writeItem, hrecord]
      rfl

/-! ## Events keep such fields -/

/-- Writing a whole record leaves it, or makes it anew from a key. -/
theorem put_record (hS : S.Sound loops) (hloops : S.LoopedDefaults)
    (hrecord : c.container = .record type fields) :
    (S.put o e c).1 = c ∨ S.Looped (S.put o e c).1 := by
  rcases eq_record_of_container hrecord with ⟨state, rfl⟩
  rw [put]
  cases e.tag.shape? with
  | some shape => cases shape <;> exact .inl rfl
  | none =>
      simp only [setSlot, allocate, innermost, assignLiteral, coreAddress]
      by_cases hempty : e.value.isEmpty = true
      · simp only [if_pos hempty, replaceAt, true_or]
      · simp only [if_neg hempty]
        split
        · rename_i d hd
          split at hd
          · exact .inr (looped_build hS hloops hd)
          · simp at hd
        · exact .inl rfl

theorem looped_perform (hS : S.Sound loops) (hloops : S.LoopedDefaults) (hc : S.Typed loops c)
    (h : S.Looped c) (hrecord : c.container = .record type fields) (haction : e.action ≠ .delete)
    (hslot : S.slotOf? o false type e.key = .ok (i, text)) (hv : c.child? (.field i) = some v)
    (hself : v.isEnclosing = true) : S.Looped (S.perform o e c).1 := by
  have hperform := perform_field (o := o) (e := e) hc hrecord
  cases hwrite : S.slotOf? o true type e.key with
  | error err =>
      rw [hwrite] at hperform
      rw [hperform]
      exact h
  | ok slot =>
      obtain rfl := Except.ok.inj (hslot.symm.trans (slotOf_read hwrite))
      rw [perform_enclosing hc hrecord haction hwrite hv hself]
      cases htext : text.isEmpty with
      | false =>
          rw [performField_record hrecord haction htext]
          exact h
      | true =>
          rw [performField_of_ne haction, htext]
          change S.Looped (S.put o e c).1
          rcases put_record hS (o := o) (e := e) hloops hrecord with hsame | hanew
          · rw [hsame]
            exact h
          · exact hanew

/-- A creating event at or below a record keeps the fields that are the record itself. -/
theorem looped_walk (hS : S.Sound loops) (hloops : S.LoopedDefaults) (hc : S.Typed loops c)
    (h : S.Looped c) (hrecord : c.container = .record type fields) (haction : e.action ≠ .delete)
    (path : List String) : S.Looped (S.walk o e c path).1 := by
  obtain ⟨segment, hhead⟩ : ∃ segment, (path ++ [e.key]).head? = some segment := by
    cases path with
    | nil => exact ⟨e.key, rfl⟩
    | cons key rest => exact ⟨key, rfl⟩
  by_cases hself : ∃ i text, S.slotOf? o false type segment = .ok (i, text) ∧ S.Itself type i
  · rcases hself with ⟨i, text, hslot, hself⟩
    have hfind := find_record hc hrecord o segment (.ofKey o segment)
    rw [hslot] at hfind
    rcases hfind with ⟨v, hv, -⟩
    have hv' := h type fields hrecord i v hself hv
    cases path with
    | nil =>
        obtain rfl := Option.some.inj hhead
        exact looped_perform hS hloops hc h hrecord haction hslot hv hv'
    | cons key rest =>
        obtain rfl := Option.some.inj hhead
        rcases walk_enclosing hc hrecord haction hslot hv hv' rest with ⟨err, hwalk⟩
        rw [hwalk]
        exact h
  · intro other others hafter j w hj hw
    rcases record_of_keeps (keeps_walk hS (o := o) e c path) hc hrecord with ⟨-, fields', hafter'⟩
    obtain ⟨rfl, -⟩ := Container.record.inj (hafter.symm.trans hafter')
    rw [child?_walk_of_ne hc hrecord hhead] at hw
    · exact h other fields hrecord j w hj hw
    · intro i text hslot
      refine ⟨fun hi => hself ⟨i, text, hslot, hi⟩, ?_⟩
      rintro rfl
      exact hself ⟨i, text, hslot, hj⟩

end Enclosing

end Schema

end TreeSync
