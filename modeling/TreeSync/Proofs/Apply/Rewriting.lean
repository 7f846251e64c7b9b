import TreeSync.Proofs.Apply.Locality
import TreeSync.Proofs.Apply.Visiting
import TreeSync.Proofs.Navigate.Positions
import TreeSync.Proofs.Node.Siblings

/-!
# Writing the same twice

What an event writes into a slot, or makes there, is settled by its first success:
doing it again changes nothing and succeeds again.  The same holds for an entry of a
map, and for an element of a list that its key finds again.

Main definitions and results:

- `Idempotent`: an action that its first success settles.
- `Schema.put` and `Schema.putItem`: what a creating event does at its leaf.
- `Schema.idempotent_put`: slots.
- `Schema.putItem_again`: entries and elements.
-/

namespace TreeSync

open Node

variable {σ ε : Type}

/-- An action that its first success settles. -/
def Idempotent (act : Node σ → Node σ × Except ε Unit) : Prop :=
  ∀ n m, act n = (m, .ok ()) → act m = (m, .ok ())

namespace Schema

variable {S : Schema σ} {o : Options} {loops : Prop} {e : Event} {c d n m : Node σ}
  {text : String} {mode : Mode}

/-! ## Slots -/

/-- A change of the bare part below the layers of a slot is settled by its first
success if the change is. -/
theorem idempotent_slot {act : Node σ → Node σ × Except NavError Unit}
    (change : Node σ → Except NavError (Node σ))
    (hact : ∀ n, act n =
      match change (S.allocate n).innermost with
      | .ok c => ((S.allocate n).withCore c, .ok ())
      | .error err => (S.allocate n, .error err))
    (hbare : ∀ c d, c.Bare → change c = .ok d → d.Bare)
    (hchange : ∀ c d, change c = .ok d → change d = .ok d) : Idempotent act := by
  intro n m h
  rw [hact] at h
  cases hc : change (S.allocate n).innermost with
  | error err => simp [hc] at h
  | ok c =>
      rw [hc] at h
      obtain ⟨rfl, -⟩ := Prod.mk.inj h
      have hcore := hbare _ _ (S.bare_innermost_allocate n) hc
      rw [hact, S.allocate_of_isAllocated (isAllocated_withCore _ hcore),
        innermost_withCore _ hcore, hchange _ _ hc]
      exact Prod.ext (withCore_withCore _ hcore c) rfl

theorem setScalar_again {slot : Slot} {s : Scalar} (h : Node.setScalar slot s = .ok d) :
    ∃ written, d = .scalar written ∧ Node.setScalar written s = .ok d := by
  rw [Node.setScalar] at h
  split at h
  · rename_i written hwritten
    obtain rfl := Except.ok.inj h
    refine ⟨written, rfl, ?_⟩
    have hkind := kind_of_ofScalar hwritten
    rw [Slot.set] at hwritten
    rw [Node.setScalar, Slot.set, hkind, hwritten]
  · simp at h

/-- A literal that was written can be written again. -/
theorem assignLiteral_again (hS : S.Sound loops) {document : Option Document}
    (h : S.assignLiteral o c text document = .ok d) :
    S.assignLiteral o d text document = .ok d := by
  cases c with
  | record type fields state =>
      rw [assignLiteral] at h
      split at h
      · rename_i hempty
        obtain rfl := Except.ok.inj h
        rw [assignLiteral, if_pos hempty]
      · rename_i hempty
        split at h
        · rename_i hstructured
          -- The record is built anew from the literal, whatever it was before.
          have hbuild := h
          rcases eq_record_of_ty (isEnclosing_build hS h) (typed_build hS h).1 with
            ⟨others, state, rfl⟩
          rw [assignLiteral, if_neg hempty, if_pos hstructured]
          exact hbuild
        · simp at h
  | scalar slot =>
      rcases setScalar_again h with ⟨written, rfl, hagain⟩
      exact hagain
  | dynamic doc =>
      obtain rfl := Except.ok.inj h
      rfl
  | list elem items | map order key elem entries =>
      have hsame := h
      rw [assignLiteral] at h
      split at h
      · obtain rfl := Except.ok.inj h
        exact hsame
      · simp at h
  | _ => simp [assignLiteral] at h

theorem idempotent_setSlot (hS : S.Sound loops) (o : Options) (text : String)
    {document : Option Document} (hdoc : ∀ d, document = some d → d.Ordered) :
    Idempotent (S.setSlot o · (.literal text document)) := by
  refine idempotent_slot (S := S) (S.assignLiteral o · text document) (fun n => ?_)
    (fun c d hc h => hc.of_ty_eq (keeps_assignLiteral hS hdoc h).ty_eq)
    (fun c d h => assignLiteral_again hS h)
  rw [setSlot]
  cases S.assignLiteral o (S.allocate n).innermost text document <;> rfl

/-- A container of a shape has the shape. -/
theorem shaped_again {shape : Shape} (h : c.shaped shape = .ok d) : d.shaped shape = .ok d := by
  have hsame := h
  rw [Node.shaped.eq_def] at h
  split at h
  · rename_i doc
    obtain rfl := Except.ok.inj h
    cases shape <;> cases doc <;> rfl
  all_goals first | (obtain rfl := Except.ok.inj h; exact hsame) | simp at h

theorem idempotent_shapeSlot (S : Schema σ) (shape : Shape) :
    Idempotent (S.shapeSlot · shape) := by
  have hbare : ∀ c d : Node σ, c.Bare → c.shaped shape = .ok d → d.Bare := fun c d hc h =>
    hc.of_ty_eq (show S.Keeps True c d from keeps_shaped h).ty_eq
  refine idempotent_slot (S := S) (·.shaped shape) (fun n => ?_) hbare fun c d h => shaped_again h
  rw [shapeSlot]
  cases (S.allocate n).innermost.shaped shape <;> rfl

/-- What a creating event does to the slot that its key leads to. -/
def put (S : Schema σ) (o : Options) (e : Event) (v : Node σ) : Node σ × Except NavError Unit :=
  match e.tag.shape? with
  | some shape => S.shapeSlot v shape
  | none => S.setSlot o v (.literal e.value (some (e.tag.document e.value)))

theorem keeps_put (hS : S.Sound loops) (v : Node σ) : S.Keeps loops v (S.put o e v).1 := by
  rw [put]
  split
  · exact keeps_shapeSlot hS v _
  · exact keeps_setSlot hS (S.carries_event loops e) v

theorem idempotent_put (hS : S.Sound loops) (o : Options) (e : Event) : Idempotent (S.put o e) := by
  unfold put
  cases e.tag.shape? with
  | some shape => exact idempotent_shapeSlot S shape
  | none => exact idempotent_setSlot hS o e.value (S.carries_event loops e)

/-! ## Entries and elements -/

/-- What a creating event does to the entry or element that a text addresses. -/
def putItem (S : Schema σ) (o : Options) (e : Event) (c : Node σ) (text : String) (mode : Mode) :
    Node σ × Except NavError Unit :=
  match e.tag.shape? with
  | some shape => S.shapeItem o c text shape mode
  | none => S.writeItem o c text (.literal e.value (some (e.tag.document e.value))) mode

theorem keeps_putItem (hS : S.Sound loops) (c : Node σ) (text : String) (mode : Mode) :
    S.Keeps loops c (S.putItem o e c text mode).1 := by
  rw [putItem]
  split
  · exact keeps_shapeItem hS c text _ mode
  · exact keeps_writeItem hS (S.carries_event loops e) c text mode

/-- Nothing is written into what is neither a map nor a list. -/
theorem items_of_putItem (h : S.putItem o e c text mode = (d, .ok ())) :
    (∃ kind elem entries, c.container = .map kind elem entries) ∨
      ∃ elem items, c.container = .list elem items := by
  cases hc : c.container with
  | map kind elem entries => exact .inl ⟨kind, elem, entries, rfl⟩
  | list elem items => exact .inr ⟨elem, items, rfl⟩
  | _ =>
      rw [putItem] at h
      split at h
      · simp [shapeItem, hc] at h
      · simp [writeItem, hc] at h

section Map

variable {kind : KeyKind} {elem : Ty} {entries : List (MapKey × Node σ)}

theorem putItem_of_map (h : c.container = .map kind elem entries) :
    S.putItem o e c text mode =
      match entryKey kind text with
      | .error err => (c, .error err)
      | .ok k => changeEntry c k (slotEntry (S.put o e) (S.zero elem)) := by
  unfold putItem put
  cases e.tag.shape? with
  | some shape => exact shapeItem_of_map h
  | none => exact writeItem_of_map h

/-- A successful action on an entry leaves its result under the key. -/
theorem exists_changeEntry (hc : S.Typed loops c) (hmap : c.container = .map kind elem entries)
    {act : Node σ → Node σ × Except NavError Unit} (hact : ∀ v, (act v).1.ty = v.ty) {k : MapKey}
    (h : changeEntry c k (slotEntry act (S.zero elem)) = (d, .ok ())) :
    ∃ v w, act v = (w, .ok ()) ∧ w.ty = elem ∧ d = c.putChild (.entry k) w := by
  rw [changeEntry] at h
  cases hv : c.child? (.entry k) with
  | some v =>
      rw [hv] at h
      obtain ⟨rfl, hok⟩ := Prod.mk.inj h
      refine ⟨v, (act v).1, Prod.ext rfl hok, (hact v).trans ?_, rfl⟩
      exact ty_of_entry hc hmap hv
  | none =>
      rw [hv, slotEntry] at h
      rcases hfresh : act (S.zero elem) with ⟨w, _ | _⟩
      · simp [hfresh] at h
      · rw [hfresh] at h
        obtain ⟨rfl, -⟩ := Prod.mk.inj h
        have hw := hact (S.zero elem)
        rw [hfresh] at hw
        exact ⟨_, w, hfresh, hw.trans (S.ty_zero elem), rfl⟩

theorem putItem_map_again (hS : S.Sound loops) (hc : S.Typed loops c)
    (hmap : c.container = .map kind elem entries)
    (h : S.putItem o e c text mode = (d, .ok ())) :
    S.putItem o e d text mode = (d, .ok ()) ∧ Ready d := by
  have hkeeps := keeps_putItem hS (o := o) (e := e) c text mode
  rw [h] at hkeeps
  rw [putItem_of_map hmap] at h
  cases hk : entryKey kind text with
  | error err => simp [hk] at h
  | ok k =>
      simp only [hk] at h
      rcases exists_changeEntry hc hmap (fun v => (keeps_put hS v).ty_eq) h with
        ⟨v, w, hw, hty, rfl⟩
      rcases container_putEntry hmap k w with ⟨others, hothers⟩
      have hchild := child?_putEntry hmap (admits_of_entryKey hk) hty
      refine ⟨?_, ready_of_map hothers⟩
      rw [putItem_of_map hothers, hk]
      simp only [changeEntry, hchild, slotEntry, idempotent_put hS o e v w hw]
      exact Prod.ext ((hkeeps.typed hc).putChild_self hchild) rfl

end Map

section List

variable {elem : Ty} {items : List (Node σ)}

/-- A list that finds an element by its content is not written into again. -/
theorem writeItem_of_find {place : Place σ} {value : String}
    {document : Option Document} (hlist : c.container = .list elem items)
    (hfind : S.findItem o c text .content = .ok place) :
    S.writeItem o c text (.literal value document) .content = (c, .ok ()) := by
  rw [findItem, hlist] at hfind
  rcases bind_eq_ok.1 hfind with ⟨position, hlocate, hget⟩
  cases position with
  | none => simp at hget
  | some i =>
      have hduplicate : S.duplicate? o elem items text (.literal value document) = .ok (some i) :=
        hlocate
      simp only [writeItem, hlist, writeElement, hduplicate]

theorem ready_of_list (h : c.container = .list elem items) : Ready c := by
  rcases eq_list_of_container h with rfl | ⟨-, others, -, rfl⟩
  · exact ⟨Kind.noConfusion, rfl⟩
  · exact ⟨Kind.noConfusion, rfl⟩

/-- A key that leads to an element by its content has text. -/
theorem isEmpty_of_createItem (hlist : c.container = .list elem items) {a : Address}
    (h : (S.createItem o c text .content).2 = .ok a) : text.isEmpty = false := by
  rw [Bool.eq_false_iff]
  intro hempty
  simp [createItem, hlist, locateOrAppend, locate, Key.require, hempty, bind, Except.bind,
    Functor.map, Except.map] at h

/-- The element that a creating step leads to. -/
theorem exists_element_of_createItem (hS : S.Sound loops) (hlist : c.container = .list elem items)
    {a : Address} (h : (S.createItem o c text mode).2 = .ok a) :
    ∃ m i others, S.locateOrAppend o c elem items text mode = (m, .ok i) ∧ a = [.element i] ∧
      m.container = .list elem others ∧ i < others.length := by
  rw [createItem, hlist] at h
  rcases map_eq_ok.1 h with ⟨i, hi, rfl⟩
  rcases locateOrAppend_cases hS (o := o) c elem items text mode with
    ⟨err, herr⟩ | ⟨j, hj, hfound⟩ | ⟨v, -, -, hty, -, hmade⟩
  · simp [herr] at hi
  · rw [hfound] at hi
    obtain rfl := Except.ok.inj hi
    exact ⟨c, j, items, hfound, rfl, hlist, lt_of_locate hj⟩
  · rw [hmade] at hi
    obtain rfl := Except.ok.inj hi
    refine ⟨_, _, _, hmade, rfl, (container_append hlist hty).1, ?_⟩
    rw [List.length_append]
    exact Nat.lt_succ_self _

/-- What is written into a list by content stays as it is if it is found again. -/
theorem writeItem_list_again (hS : S.Sound loops) (hlist : c.container = .list elem items)
    {value : String} {document : Option Document}
    (h : S.writeItem o c text (.literal value document) .content = (d, .ok ()))
    {place : Place σ} (hfind : S.findItem o d text .content = .ok place) :
    S.writeItem o d text (.literal value document) .content = (d, .ok ()) ∧ Ready d := by
  have hd : ∃ others, d.container = .list elem others := by
    simp only [writeItem, hlist, writeElement] at h
    split at h
    · simp at h
    · obtain ⟨rfl, -⟩ := Prod.mk.inj h
      exact ⟨items, hlist⟩
    · split at h
      · simp at h
      · rename_i v hv
        obtain ⟨rfl, -⟩ := Prod.mk.inj h
        exact ⟨_, (container_append hlist (typed_build hS hv).1).1⟩
  rcases hd with ⟨others, hd⟩
  exact ⟨writeItem_of_find hd hfind, ready_of_list hd⟩

/-- A container is made at the element that a text describes. -/
theorem shapeItem_of_list (hlist : c.container = .list elem items) (hempty : text.isEmpty = false)
    (shape : Shape) :
    S.shapeItem o c text shape .content =
      match S.locateOrAppend o c elem items text .content with
      | (m, .error err) => (m, .error err)
      | (m, .ok i) =>
          match m.child? (.element i) with
          | some v => m.putBack [.element i] (S.shapeSlot v shape)
          | none => (m, .error (.entryNotFound text)) := by
  rw [shapeItem, hlist]
  exact if_neg (Bool.eq_false_iff.1 hempty)

theorem shapeItem_list_again (hS : S.Sound loops) (hc : S.Typed loops c)
    (hlist : c.container = .list elem items) {shape : Shape}
    (h : S.shapeItem o c text shape .content = (d, .ok ()))
    {place : Place σ} (hfind : S.findItem o d text .content = .ok place)
    (hsame : (S.createItem o c text .content).2 = .ok place.address) :
    S.shapeItem o d text shape .content = (d, .ok ()) ∧ Ready d := by
  have hempty := isEmpty_of_createItem hlist hsame
  have hkeeps := keeps_shapeItem hS (o := o) c text shape .content
  rcases exists_element_of_createItem hS hlist hsame with ⟨m, i, others, hmade, haddress, hm, hi⟩
  have hv : m.child? (.element i) = some others[i] := by
    rw [child?_element hm, List.getElem?_eq_getElem hi]
  have hslot := keeps_shapeSlot hS others[i] shape
  rw [h] at hkeeps
  rw [shapeItem_of_list hlist hempty, hmade] at h
  simp only [hv, putBack, replaceAt] at h
  obtain ⟨rfl, hok⟩ := Prod.mk.inj h
  have hm' := keeps_locateOrAppend hS (o := o) hlist text .content
  rw [hmade] at hm'
  have hafter := container_putElement hm i
    (hslot.ty_eq.trans (ty_of_element (hm'.typed hc) hm (List.getElem?_eq_getElem hi)))
  have hchild := child?_putChild hv hslot.ty_eq
  have hagain : S.shapeSlot (S.shapeSlot others[i] shape).1 shape =
      ((S.shapeSlot others[i] shape).1, .ok ()) :=
    idempotent_shapeSlot S shape _ _ (Prod.ext rfl hok)
  refine ⟨?_, ready_of_list hafter.1⟩
  have hfound : S.locateOrAppend o (m.putChild (.element i) (S.shapeSlot others[i] shape).1) elem
      (others.set i (S.shapeSlot others[i] shape).1) text .content =
        (m.putChild (.element i) (S.shapeSlot others[i] shape).1, .ok i) := by
    have hfound := createItem_of_find hfind
    rw [createItem, hafter.1, haddress] at hfound
    obtain ⟨hnode, hposition⟩ := Prod.mk.inj hfound
    rcases map_eq_ok.1 hposition with ⟨j, hj, hij⟩
    obtain rfl : j = i := Step.element.inj (List.cons.inj hij).1
    exact Prod.ext hnode hj
  rw [shapeItem_of_list hafter.1 hempty, hfound]
  simp only [hchild, hagain]
  exact putBack_self (hkeeps.typed hc) (by simp only [Node.get?, hchild, Option.bind_some]) _

theorem putItem_list_again (hS : S.Sound loops) (hc : S.Typed loops c)
    (hlist : c.container = .list elem items) (h : S.putItem o e c text .content = (d, .ok ()))
    {place : Place σ} (hfind : S.findItem o d text .content = .ok place)
    (hsame : (S.createItem o c text .content).2 = .ok place.address) :
    S.putItem o e d text .content = (d, .ok ()) ∧ Ready d := by
  unfold putItem at h ⊢
  cases htag : e.tag.shape? with
  | some shape =>
      rw [htag] at h
      exact shapeItem_list_again hS hc hlist h hfind hsame
  | none =>
      rw [htag] at h
      exact writeItem_list_again hS hlist h hfind

end List

/-- What was written into a map or a list can be written again, and changes nothing.
A list must find the element again that the key led to. -/
theorem putItem_again (hS : S.Sound loops) (hc : S.Typed loops c)
    (h : S.putItem o e c text mode = (d, .ok ()))
    (hlist : ∀ elem items, c.container = .list elem items → mode = .content ∧
      ∃ place, S.findItem o d text .content = .ok place ∧
        (S.createItem o c text .content).2 = .ok place.address) :
    S.putItem o e d text mode = (d, .ok ()) ∧ Ready d := by
  rcases items_of_putItem h with ⟨kind, elem, entries, hmap⟩ | ⟨elem, items, hitems⟩
  · exact putItem_map_again hS hc hmap h
  · rcases hlist elem items hitems with ⟨rfl, place, hfind, hsame⟩
    exact putItem_list_again hS hc hitems h hfind hsame

/-! ## Leaves -/

theorem performField_of_ne (haction : e.action ≠ .delete) (text : String) (v : Node σ) :
    S.performField o e text v =
      ofNavigation (if text.isEmpty then S.put o e v
        else (S.allocate v).putBack (S.allocate v).coreAddress
          (S.putItem o e (S.allocate v).innermost text .content)) := by
  rw [performField, if_neg haction, put, putItem]
  cases e.tag.shape? with
  | some shape => rfl
  | none => rfl

/-- A creating event writes the entry or element under its key. -/
theorem perform_item (haction : e.action ≠ .delete) (hready : Ready c)
    (hrecord : ∀ type fields, c.container ≠ .record type fields) :
    S.perform o e c = ofNavigation (S.putItem o e c e.key (.ofKey o e.key)) := by
  rw [putItem]
  cases htag : e.tag.shape? with
  | some shape =>
      rw [perform_of_shape haction htag, promote_of_ready hready, materialize,
        S.allocate_of_bare hready.bare, innermost_of_bare hready.bare]
      simp only [putBack_of_bare hready.bare]
  | none =>
      rw [perform_of_literal haction htag, promote_of_ready hready, write,
        S.allocate_of_bare hready.bare, innermost_of_bare hready.bare]
      simp only [putBack_of_bare hready.bare]

/-- A navigation outcome that succeeds. -/
theorem ofNavigation_eq_ok {r : Node σ × Except NavError Unit}
    (h : ofNavigation r = (m, .ok ())) : r = (m, .ok ()) := by
  obtain ⟨rfl, hok⟩ := Prod.mk.inj h
  refine Prod.ext rfl ?_
  cases hr : r.2 with
  | error err => simp [hr, Except.mapError] at hok
  | ok u => rfl

end Schema

end TreeSync
