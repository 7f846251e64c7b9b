import TreeSync.Proofs.Apply.Frames
import TreeSync.Proofs.Navigate.Positions
import TreeSync.Proofs.Node.Siblings

/-!
# What a key may change

In a container only the child that a key leads to changes; a list may also have
got one element behind the others, or have lost the one that was to be deleted.
Every step into a map or a list, and every action on an entry or element, stays
within that.

Main definitions and results:

- `Schema.ItemChange`, `Schema.KeyChange`: what a key may change in a container.
- `Schema.Framed`: what an event may change along a path.
- `Schema.itemChange_walkItem`: a step into an entry or element.
- `Schema.itemChange_removeItem`, `Schema.itemChange_writeItem` and
  `Schema.itemChange_shapeItem`: the actions.
-/

namespace TreeSync

namespace Schema

open Node

variable {σ : Type}

/-! ## The frame -/

/-- The layers that an event goes through, all with a value unless it deletes. -/
def opened (S : Schema σ) (e : Event) (n : Node σ) : Node σ :=
  if e.action = .delete then n else S.allocate n

/-- The container that an event enters below the layers.  Unless it deletes, it
makes an empty map of a dynamic leaf. -/
def enters (S : Schema σ) (e : Event) (n : Node σ) : Node σ :=
  if e.action = .delete then n.innermost else (S.promote n).innermost

/-- What an event may change in a map or a list by a key that leads to an entry or
element, where `change` says what becomes of that one.  At the leaf the entry or
element itself may be deleted. -/
inductive ItemChange (S : Schema σ) (o : Options) (e : Event) (key : String) (mode : Mode)
    (leaf : Bool) (change : Node σ → Node σ → Prop) : Node σ → Node σ → Prop where
  /-- Nothing. -/
  | same (c : Node σ) : ItemChange S o e key mode leaf change c c
  /-- The entry. -/
  | entry {c d : Node σ} {kind : KeyKind} {elem : Ty} {entries : List (MapKey × Node σ)}
      {k : MapKey} {v w : Node σ} (container : c.container = .map kind elem entries)
      (leads : entryKey kind key = .ok k) (siblings : SameBut (.entry k) c d)
      (before : c.child? (.entry k) = some v) (after : d.child? (.entry k) = some w)
      (changed : change v w) : ItemChange S o e key mode leaf change c d
  /-- A new entry. -/
  | newEntry {c d : Node σ} {kind : KeyKind} {elem : Ty} {entries : List (MapKey × Node σ)}
      {k : MapKey} {w : Node σ} (container : c.container = .map kind elem entries)
      (leads : entryKey kind key = .ok k) (creates : e.action ≠ .delete)
      (siblings : SameBut (.entry k) c d) (before : c.child? (.entry k) = none)
      (after : d.child? (.entry k) = some w) (changed : change (S.zero elem) w) :
      ItemChange S o e key mode leaf change c d
  /-- The entry is erased. -/
  | erased {c d : Node σ} {kind : KeyKind} {elem : Ty} {entries : List (MapKey × Node σ)}
      {k : MapKey} (container : c.container = .map kind elem entries)
      (leads : entryKey kind key = .ok k) (deletes : leaf = true ∧ e.action = .delete)
      (siblings : SameBut (.entry k) c d) (after : d.child? (.entry k) = none) :
      ItemChange S o e key mode leaf change c d
  /-- The element. -/
  | element {c d : Node σ} {elem : Ty} {items : List (Node σ)} {i : Nat} {v w : Node σ}
      (container : c.container = .list elem items)
      (leads : S.locate o elem items key mode = .ok (some i)) (before : items[i]? = some v)
      (after : d.container = .list elem (items.set i w)) (ty_eq : d.ty = c.ty)
      (changed : change v w) : ItemChange S o e key mode leaf change c d
  /-- One more element behind the others, a new one or one that the key describes. -/
  | appended {c d : Node σ} {elem : Ty} {items : List (Node σ)} {v w : Node σ}
      (container : c.container = .list elem items) (creates : e.action ≠ .delete)
      (leads : leaf = true ∨ S.locate o elem items key mode = .ok none)
      (new : v = S.zero elem ∨ S.build o elem key = .ok v)
      (after : d.container = .list elem (items ++ [w])) (ty_eq : d.ty = c.ty)
      (changed : change v w) : ItemChange S o e key mode leaf change c d
  /-- The element is taken out. -/
  | removed {c d : Node σ} {elem : Ty} {items : List (Node σ)} {i : Nat}
      (container : c.container = .list elem items)
      (leads : S.locate o elem items key mode = .ok (some i))
      (deletes : leaf = true ∧ e.action = .delete)
      (after : d.container = .list elem (items.eraseIdx i)) (ty_eq : d.ty = c.ty) :
      ItemChange S o e key mode leaf change c d

/-- What an event may change in a container by the next key of its address.  Text
behind the name of a field leads into the list or map that the field holds; at the
leaf the field must be writable. -/
inductive KeyChange (S : Schema σ) (o : Options) (e : Event) (key : String) (leaf : Bool)
    (change : Node σ → Node σ → Prop) : Node σ → Node σ → Prop where
  /-- Nothing. -/
  | same (c : Node σ) : KeyChange S o e key leaf change c c
  /-- The field. -/
  | field {c d : Node σ} {type text : String} {fields : List (Field × Node σ)} {i : Nat}
      {v w : Node σ} (container : c.container = .record type fields)
      (leads : S.slotOf? o leaf type key = .ok (i, text)) (plain : text.isEmpty = true)
      (siblings : SameBut (.field i) c d) (before : c.child? (.field i) = some v)
      (after : d.child? (.field i) = some w) (changed : change v w) :
      KeyChange S o e key leaf change c d
  /-- An entry or element of what the field holds. -/
  | suffix {c d : Node σ} {type text : String} {fields : List (Field × Node σ)} {i : Nat}
      {v x : Node σ} (container : c.container = .record type fields)
      (leads : S.slotOf? o leaf type key = .ok (i, text)) (qualified : text.isEmpty = false)
      (siblings : SameBut (.field i) c d) (before : c.child? (.field i) = some v)
      (after : d.child? (.field i) = some ((S.opened e v).withCore x))
      (changed : ItemChange S o e text .content leaf change (S.opened e v).innermost x) :
      KeyChange S o e key leaf change c d
  /-- An entry or element. -/
  | item {c d : Node σ} (container : ∀ type fields, c.container ≠ .record type fields)
      (changed : ItemChange S o e key (.ofKey o key) leaf change c d) :
      KeyChange S o e key leaf change c d

/-- What an event may change below the layers of a node. -/
def NodeChange (S : Schema σ) (o : Options) (e : Event) (key : String) (leaf : Bool)
    (change : Node σ → Node σ → Prop) (n m : Node σ) : Prop :=
  ∃ d, m = (S.opened e n).withCore d ∧ S.KeyChange o e key leaf change (S.enters e n) d

/-- What an event may change along the rest of its path: in each container the one
child that the next segment leads to, and in the last one what the key leads to,
which keeps its type. -/
def Framed (S : Schema σ) (o : Options) (e : Event) : List String → Node σ → Node σ → Prop
  | [] => S.NodeChange o e e.key true fun v w => w.ty = v.ty
  | key :: rest => S.NodeChange o e key false (Framed S o e rest)

variable {S : Schema σ} {o : Options} {e : Event} {n c v : Node σ} {key text : String}
  {mode : Mode} {leaf : Bool} {change : Node σ → Node σ → Prop} {rest : List String}

/-! ## Steps -/

section List

variable {elem : Ty} {items : List (Node σ)}

/-- A step into an element changes that one only, or appends one. -/
theorem itemChange_walkItem_list (hS : S.Sound False) (hc : S.Typed False c)
    (h : c.container = .list elem items)
    (hchange : ∀ v, S.Typed False v → change v (S.walk o e v rest).1) (text : String) (mode : Mode)
    (key : String) :
    S.ItemChange o e text mode false change c (S.walkItem o e c text mode key rest).1 := by
  have hput : ∀ i v, S.locate o elem items text mode = .ok (some i) → items[i]? = some v →
      S.ItemChange o e text mode false change c
        (c.putBack [.element i] (S.walk o e v rest)).1 := by
    intro i v hlocate hv
    have hchild : c.child? (.element i) = some v := by
      rw [child?_element h, hv]
    have hwalk := (keeps_walk hS (o := o) e v rest).ty_eq
    have hafter := container_putElement h i (hwalk.trans (ty_of_element hc h hv))
    simp only [putBack, replaceAt, hchild]
    exact .element h hlocate hv hafter.1 hafter.2 (hchange v (hc.child hchild))
  rw [walkItem]
  by_cases haction : e.action = .delete
  · simp only [if_pos haction, findItem, h]
    cases hlocate : S.locate o elem items text mode with
    | error err => exact .same c
    | ok position =>
        cases position with
        | none => exact .same c
        | some i =>
            rcases exists_of_locate hlocate with ⟨v, hv⟩
            simp only [bind, Except.bind, hv, Functor.map, Except.map, Node.get?,
              child?_element h, Option.bind_some]
            exact hput i v hlocate hv
  · simp only [if_neg haction, createItem, h]
    rcases locateOrAppend_cases hS (o := o) c elem items text mode with
      ⟨err, hmade⟩ | ⟨i, hlocate, hmade⟩ | ⟨v, hlocate, hnew, hty, hv, hmade⟩
    · rw [hmade]
      exact .same c
    · rcases exists_of_locate hlocate with ⟨v, hv⟩
      simp only [hmade, Functor.map, Except.map, Node.get?, child?_element h, hv,
        Option.bind_some]
      exact hput i v hlocate hv
    · have hwalk := (keeps_walk hS (o := o) e v rest).ty_eq
      have hafter := container_putAppended h hty (hwalk.trans hty)
      simp only [hmade, Functor.map, Except.map, Node.get?, child?_append h hty,
        Option.bind_some, putBack, replaceAt]
      exact .appended h haction (.inr hlocate) hnew hafter.1 hafter.2 (hchange v hv)

end List

/-- No key leads anywhere in what is neither a map nor a list. -/
theorem walkItem_of_other (hmap : ∀ kind elem entries, c.container ≠ .map kind elem entries)
    (hlist : ∀ elem items, c.container ≠ .list elem items) (text : String) (mode : Mode)
    (key : String) (rest : List String) : (S.walkItem o e c text mode key rest).1 = c := by
  rw [walkItem, findItem, createItem]
  cases hc : c.container with
  | map kind elem entries => exact absurd hc (hmap kind elem entries)
  | list elem items => exact absurd hc (hlist elem items)
  | _ => split <;> simp_all [Functor.map, Except.map]

/-- A step into an entry or element changes that one only. -/
theorem itemChange_walkItem (hS : S.Sound False) (hc : S.Typed False c)
    (hchange : ∀ v, S.Typed False v → change v (S.walk o e v rest).1) (text : String) (mode : Mode)
    (key : String) :
    S.ItemChange o e text mode false change c (S.walkItem o e c text mode key rest).1 := by
  cases hcontainer : c.container with
  | map kind elem entries =>
      cases hk : entryKey kind text with
      | error err =>
          rw [walkItem_of_error hcontainer hk]
          exact .same c
      | ok k =>
          rw [walkItem_entry hS hcontainer hk]
          simp only [changeEntry]
          have hsiblings := fun value => sameBut_alterEntry hcontainer k value
          cases hv : c.child? (.entry k) with
          | some v =>
              have hty := ty_of_entry hc hcontainer hv
              have hwalk := (keeps_walk hS (o := o) e v rest).ty_eq
              refine .entry hcontainer hk (hsiblings _) hv ?_ (hchange v (hc.child hv))
              exact child?_putEntry hcontainer (admits_of_entryKey hk) (hwalk.trans hty)
          | none =>
              rw [walkEntry]
              by_cases haction : e.action = .delete
              · rw [if_pos haction, alterEntry_none hcontainer hv]
                exact .same c
              · rw [if_neg haction]
                have hwalk := (keeps_walk hS (o := o) e (S.zero elem) rest).ty_eq
                refine .newEntry hcontainer hk haction (hsiblings _) hv ?_
                  (hchange _ (typed_zero hS elem))
                exact child?_putEntry hcontainer (admits_of_entryKey hk)
                  (hwalk.trans (S.ty_zero elem))
  | list elem items => exact itemChange_walkItem_list hS hc hcontainer hchange text mode key
  | _ =>
      rw [walkItem_of_other]
      · exact .same c
      · simp [hcontainer]
      · simp [hcontainer]

/-! ## Actions -/

/-- Removing takes out the entry or element. -/
theorem itemChange_removeItem (haction : e.action = .delete) {m : Node σ}
    (h : S.removeItem o c text mode = .ok m) : S.ItemChange o e text mode true change c m := by
  cases hcontainer : c.container with
  | map kind elem entries =>
      rw [removeItem_of_map hcontainer] at h
      rcases bind_eq_ok.1 h with ⟨k, hk, hm⟩
      obtain rfl := Except.ok.inj hm
      exact .erased hcontainer hk ⟨rfl, haction⟩ (sameBut_alterEntry hcontainer k none)
        (child?_eraseEntry hcontainer k)
  | list elem items =>
      simp only [removeItem, hcontainer] at h
      rcases bind_eq_ok.1 h with ⟨position, hlocate, hm⟩
      cases position with
      | none => simp at hm
      | some i =>
          obtain rfl := Except.ok.inj hm
          have hafter := container_eraseItem hcontainer i
          exact .removed hcontainer hlocate ⟨rfl, haction⟩ hafter.1 hafter.2
  | _ => simp [removeItem, hcontainer] at h

/-- Writing or shaping an entry keeps its type. -/
theorem itemChange_slotEntry (hc : S.Typed False c) {kind : KeyKind} {elem : Ty}
    {entries : List (MapKey × Node σ)} (hcontainer : c.container = .map kind elem entries)
    {k : MapKey} (hk : entryKey kind text = .ok k) (haction : e.action ≠ .delete)
    {act : Node σ → Node σ × Except NavError Unit} (hact : ∀ v, (act v).1.ty = v.ty) :
    S.ItemChange o e text mode leaf (fun v w => w.ty = v.ty) c
      (changeEntry c k (slotEntry act (S.zero elem))).1 := by
  have hsiblings := fun value => sameBut_alterEntry hcontainer k value
  simp only [changeEntry]
  cases hv : c.child? (.entry k) with
  | some v =>
      have hty := ty_of_entry hc hcontainer hv
      refine .entry hcontainer hk (hsiblings _) hv ?_ (hact v)
      exact child?_putEntry hcontainer (admits_of_entryKey hk) ((hact v).trans hty)
  | none =>
      have hzero := hact (S.zero elem)
      simp only [slotEntry]
      rcases hresult : act (S.zero elem) with ⟨w, _ | _⟩
      · simp only [alterEntry_none hcontainer hv]
        exact .same c
      · rw [hresult] at hzero
        refine .newEntry hcontainer hk haction (hsiblings _) hv ?_ hzero
        exact child?_putEntry hcontainer (admits_of_entryKey hk) (hzero.trans (S.ty_zero elem))

section LeafList

variable {elem : Ty} {items : List (Node σ)}

theorem itemChange_append (hc : c.container = .list elem items) (haction : e.action ≠ .delete)
    (hnew : v = S.zero elem ∨ S.build o elem text = .ok v) (hv : v.ty = elem) {w : Node σ}
    (hw : w.ty = v.ty) :
    S.ItemChange o e text mode true (fun v w => w.ty = v.ty) c (c.append w) := by
  have hafter := container_append hc (hw.trans hv)
  exact .appended hc haction (.inl rfl) hnew hafter.1 hafter.2 hw

theorem itemChange_appendSlot (hS : S.Sound False) (hc : c.container = .list elem items)
    (haction : e.action ≠ .delete) {payload : Payload σ} (hp : S.Carries False payload) :
    S.ItemChange o e text mode true (fun v w => w.ty = v.ty) c
      (S.appendSlot o c elem payload).1 := by
  have hslot := keeps_setSlot hS (o := o) hp (S.zero elem)
  rw [appendSlot]
  split
  · rename_i item heq
    rw [heq] at hslot
    exact itemChange_append hc haction (.inl rfl) (S.ty_zero elem) hslot.ty_eq
  · exact .same c

/-- Writing under a key appends an element or changes nothing. -/
theorem itemChange_writeElement (hS : S.Sound False) (hc : c.container = .list elem items)
    (haction : e.action ≠ .delete) {payload : Payload σ} (hp : S.Carries False payload)
    (listMode : Mode) :
    S.ItemChange o e text mode true (fun v w => w.ty = v.ty) c
      (S.writeElement o c elem items text payload listMode).1 := by
  rw [writeElement.eq_def]
  split
  · exact .same c
  · split
    · exact .same c
    · exact .same c
    · split
      · exact itemChange_appendSlot hS hc haction hp
      · split
        · exact .same c
        · rename_i item hitem
          exact itemChange_append hc haction (.inr hitem) (typed_build hS hitem).1 rfl
  · exact itemChange_appendSlot hS hc haction (carries_orKey hp text)

/-- Shaping under a key changes the element that it leads to, appends one or
changes nothing. -/
theorem itemChange_shapeElement (hS : S.Sound False) (htyped : S.Typed False c)
    (hc : c.container = .list elem items) (haction : e.action ≠ .delete) (shape : Shape) :
    S.ItemChange o e text mode true (fun v w => w.ty = v.ty) c
      (S.shapeItem o c text shape mode).1 := by
  have hshape := fun v => (keeps_shapeSlot hS v shape).ty_eq
  simp only [shapeItem, hc]
  by_cases hempty : text.isEmpty = true
  · rw [if_pos hempty]
    have hzero := hshape (S.zero elem)
    split
    · rename_i item heq
      rw [heq] at hzero
      exact itemChange_append hc haction (.inl rfl) (S.ty_zero elem) hzero
    · exact .same c
  · rw [if_neg hempty]
    rcases locateOrAppend_cases hS (o := o) c elem items text mode with
      ⟨err, hmade⟩ | ⟨i, hlocate, hmade⟩ | ⟨v, hlocate, hnew, hty, hv, hmade⟩
    · rw [hmade]
      exact .same c
    · rcases exists_of_locate hlocate with ⟨v, hv⟩
      have hafter := container_putElement hc i ((hshape v).trans (ty_of_element htyped hc hv))
      simp only [hmade, child?_element hc, hv, putBack, replaceAt]
      exact .element hc hlocate hv hafter.1 hafter.2 (hshape v)
    · have hafter := container_putAppended hc hty ((hshape v).trans hty)
      simp only [hmade, child?_append hc hty, putBack, replaceAt]
      exact .appended hc haction (.inl rfl) hnew hafter.1 hafter.2 (hshape v)

end LeafList

theorem itemChange_writeItem (hS : S.Sound False) (hc : S.Typed False c)
    (haction : e.action ≠ .delete) {payload : Payload σ} (hp : S.Carries False payload)
    (text : String) (mode : Mode) :
    S.ItemChange o e text mode true (fun v w => w.ty = v.ty) c
      (S.writeItem o c text payload mode).1 := by
  cases hcontainer : c.container with
  | map kind elem entries =>
      rw [writeItem_of_map hcontainer]
      cases hk : entryKey kind text with
      | error err => exact .same c
      | ok k =>
          exact itemChange_slotEntry hc hcontainer hk haction fun v =>
            (keeps_setSlot hS hp v).ty_eq
  | list elem items =>
      simp only [writeItem, hcontainer]
      exact itemChange_writeElement hS hcontainer haction hp mode
  | _ =>
      simp only [writeItem, hcontainer]
      exact .same c

theorem itemChange_shapeItem (hS : S.Sound False) (hc : S.Typed False c)
    (haction : e.action ≠ .delete) (text : String) (shape : Shape) (mode : Mode) :
    S.ItemChange o e text mode true (fun v w => w.ty = v.ty) c
      (S.shapeItem o c text shape mode).1 := by
  cases hcontainer : c.container with
  | map kind elem entries =>
      rw [shapeItem_of_map hcontainer]
      cases hk : entryKey kind text with
      | error err => exact .same c
      | ok k =>
          exact itemChange_slotEntry hc hcontainer hk haction fun v =>
            (keeps_shapeSlot hS v shape).ty_eq
  | list elem items => exact itemChange_shapeElement hS hc hcontainer haction shape
  | _ =>
      simp only [shapeItem, hcontainer]
      exact .same c

end Schema

end TreeSync
