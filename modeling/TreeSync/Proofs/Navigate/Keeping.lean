import TreeSync.Navigate.Materialize
import TreeSync.Navigate.Remove
import TreeSync.Proofs.Schema.Building

/-!
# Navigation keeps nodes well typed

No step, write, shaping or removal changes the type of the node it works on, and
a well-typed node stays well typed, also where it is left half-way.

Main results:

- `Schema.keeps_findOrCreate`, `Schema.keeps_promote`: steps.
- `Schema.keeps_write`, `Schema.keeps_materialize`, `Schema.keeps_remove`: leaves.
-/

namespace TreeSync

namespace Schema

open Node

variable {σ : Type} {S : Schema σ} {o : Options} {loops : Prop} {c n v : Node σ}

/-! ## Entries and items -/

/-- A new or changed entry of the right type keeps a map what it is. A map of a document takes
documents under texts only. -/
theorem keeps_putEntry {kind : KeyKind} {elem : Ty} {entries : List (MapKey × Node σ)}
    (hc : c.container = .map kind elem entries) {key : MapKey} (hkey : kind.Admits key)
    (hty : v.ty = elem) (hv : S.Typed loops v) : S.Keeps loops c (c.putChild (.entry key) v) := by
  cases c with
  | map order kind elem entries =>
      obtain ⟨rfl, rfl, -⟩ : kind = _ ∧ elem = _ ∧ entries = _ := by simpa [container] using hc
      exact ⟨rfl, fun hn => hn.putEntry hkey hty hv, id⟩
  | dynamic d =>
      cases d with
      | map others =>
          obtain ⟨rfl, rfl, -⟩ :
              KeyKind.string = _ ∧ Ty.dynamic = _ ∧ documentEntries others = _ := by
            simpa [container] using hc
          rcases eq_dynamic_of_ty hty with ⟨d, rfl⟩
          cases key with
          | text k =>
              refine ⟨rfl, fun hn => .dynamic ?_, id⟩
              exact (S.ordered_of_typed hn).put k (S.ordered_of_typed hv)
          | _ => exact hkey.elim
      | _ => simp [container] at hc
  | _ => simp [container] at hc

/-- A map without one of its entries is still a map of its type. -/
theorem keeps_eraseEntry (key : MapKey) : S.Keeps loops c (c.eraseEntry key) := by
  cases c with
  | map order kind elem entries =>
      refine ⟨rfl, fun hn => ?_, id⟩
      have hsub := Entries.erase_sublist key entries
      cases hn with
      | map ascending admits types hall =>
          exact .map (ascending.erase key) (fun e he => admits e (hsub.mem he))
            (fun e he => types e (hsub.mem he)) fun e he => hall e (hsub.mem he)
  | dynamic d =>
      cases d with
      | map others =>
          cases key with
          | text k => exact ⟨rfl, fun hn => .dynamic ((S.ordered_of_typed hn).erase k), id⟩
          | _ => exact .refl _
      | _ => exact .refl _
  | _ => exact .refl _

/-- A list takes one more item of its type. -/
theorem keeps_append {elem : Ty} {items : List (Node σ)} (hc : c.container = .list elem items)
    (hty : v.ty = elem) (hv : S.Typed loops v) : S.Keeps loops c (c.append v) := by
  cases c with
  | list elem items =>
      obtain ⟨rfl, -⟩ : elem = _ ∧ items = _ := by simpa [container] using hc
      refine ⟨rfl, fun hn => ?_, id⟩
      cases hn with
      | list types hall =>
          refine .list ?_ ?_
          all_goals
            intro w hw
            rcases List.mem_append.1 hw with hw | hw
          · exact types w hw
          · rw [List.mem_singleton.1 hw]
            exact hty
          · exact hall w hw
          · rw [List.mem_singleton.1 hw]
            exact hv
  | dynamic d =>
      cases d with
      | seq others =>
          obtain ⟨rfl, -⟩ : Ty.dynamic = _ ∧ others.map dynamic = _ := by simpa [container] using hc
          rcases eq_dynamic_of_ty hty with ⟨d, rfl⟩
          refine ⟨rfl, fun hn => .dynamic (.seq ?_), id⟩
          intro w hw
          rcases List.mem_append.1 hw with hw | hw
          · exact (S.ordered_of_typed hn).item hw
          · rw [List.mem_singleton.1 hw]
            exact S.ordered_of_typed hv
      | _ => simp [container] at hc
  | _ => simp [container] at hc

theorem keeps_eraseItem (i : Nat) : S.Keeps loops c (c.eraseItem i) := by
  cases c with
  | list elem items =>
      refine ⟨rfl, fun hn => ?_, id⟩
      have hsub := List.eraseIdx_sublist items i
      cases hn with
      | list types hall =>
          exact .list (fun w hw => types w (hsub.mem hw)) fun w hw => hall w (hsub.mem hw)
  | dynamic d =>
      cases d with
      | seq others =>
          refine ⟨rfl, fun hn => .dynamic (.seq ?_), id⟩
          intro w hw
          exact (S.ordered_of_typed hn).item ((List.eraseIdx_sublist others i).mem hw)
      | _ => exact .refl _
  | _ => exact .refl _

/-- A key that a map can read is one that it admits. -/
theorem admits_of_decode {kind : KeyKind} {literal : String} {key : MapKey}
    (h : kind.decode literal = .ok key) : kind.Admits key := by
  rw [KeyKind.decode] at h
  split at h
  · rename_i k hk
    exact Except.ok.inj h ▸ KeyKind.admits_of_readKey hk
  · simp at h

/-! ## Steps -/

/-- An element that is not found is appended as a new or built one of the type of the list. -/
theorem keeps_locateOrAppend (hS : S.Sound loops) {elem : Ty} {items : List (Node σ)}
    (hc : c.container = .list elem items) (key : String) (mode : Mode) :
    S.Keeps loops c (S.locateOrAppend o c elem items key mode).1 := by
  rw [locateOrAppend]
  split
  · exact .refl c
  · exact .refl c
  · split
    · exact .refl c
    · split
      · exact .refl c
      · rename_i item hitem
        split at hitem
        · obtain rfl := Except.ok.inj hitem
          exact keeps_append hc (ty_zero elem) (typed_zero hS elem)
        · rcases typed_build hS hitem with ⟨hty, htyped⟩
          exact keeps_append hc hty htyped

/-- Looking for an entry or element and making it if it is missing keeps the container well
typed, also where a key is refused half-way. -/
theorem keeps_createItem (hS : S.Sound loops) (c : Node σ) (key : String) (mode : Mode) :
    S.Keeps loops c (S.createItem o c key mode).1 := by
  rw [createItem]
  split
  · rename_i kind elem entries hc
    split
    · exact .refl c
    · rename_i k hk
      rcases bind_eq_ok.1 hk with ⟨-, -, hdecode⟩
      split
      · exact .refl c
      · exact keeps_putEntry hc (admits_of_decode hdecode) (ty_zero elem) (typed_zero hS elem)
  · rename_i elem items hc
    exact keeps_locateOrAppend hS hc key mode
  all_goals exact .refl c

/-- The same with the fields of a record, of which none is made. -/
theorem keeps_createChild (hS : S.Sound loops) (c : Node σ) (key : String) (mode : Mode) :
    S.Keeps loops c (S.createChild o c key mode).1 := by
  rw [createChild]
  split
  · rename_i type fields hc
    simp only
    split
    · exact .refl c
    · rename_i place rest htarget
      rcases bind_eq_ok.1 htarget with ⟨-, -, htarget⟩
      rcases bind_eq_ok.1 htarget with ⟨⟨name, text⟩, -, hplace⟩
      rcases bind_eq_ok.1 hplace with ⟨field, hfield, heq⟩
      obtain ⟨rfl, rfl⟩ := Prod.mk.inj (Except.ok.inj heq)
      split
      · exact .refl c
      · have hinside := keeps_createItem hS (o := o) (S.allocate field.node).innermost text .content
        have hchild := (keeps_allocate hS field.node).trans hinside.withCore
        exact hchild.replaceAt (get?_fieldPlace hc hfield)
  · exact keeps_createItem hS c key mode

/-- A step that makes what is missing keeps the node well typed, with the layers that it
allocates. -/
theorem keeps_findOrCreate (hS : S.Sound loops) (n : Node σ) (key : String) (mode : Mode) :
    S.Keeps loops n (S.findOrCreate o n key mode).1 := by
  have hallocate := keeps_allocate hS n
  have hchild := keeps_createChild hS (o := o) (S.allocate n).innermost key mode
  have hm := hallocate.trans hchild.withCore
  rw [findOrCreate]
  simp only [putBack]
  split
  · rename_i m err heq
    exact (Prod.mk.inj heq).1 ▸ hm
  · rename_i m a heq
    obtain rfl := (Prod.mk.inj heq).1
    split
    · exact hm
    · rename_i child hchild
      exact hm.trans ((keeps_allocate hS child).replaceAt hchild)

/-- A dynamic leaf that becomes an empty map stays dynamic. -/
theorem keeps_promote (hS : S.Sound loops) (n : Node σ) : S.Keeps loops n (S.promote n) := by
  have hallocate := keeps_allocate hS n
  rw [promote]
  split
  · rename_i d hd
    split
    · have hempty : S.Typed loops (.dynamic (.map [])) := .dynamic Document.ordered_emptyMap
      refine hallocate.trans (Keeps.withCore (.of_typed ?_ hempty rfl))
      rw [hd]
      rfl
    · exact hallocate
  · exact hallocate

/-! ## Removing -/

/-- Taking out an entry or element needs no well-typed defaults. -/
theorem keeps_removeItem {key : String} {mode : Mode} {m : Node σ}
    (h : S.removeItem o c key mode = .ok m) : S.Keeps loops c m := by
  rw [removeItem] at h
  split at h
  · rcases bind_eq_ok.1 h with ⟨-, -, h⟩
    rcases bind_eq_ok.1 h with ⟨k, -, hm⟩
    exact Except.ok.inj hm ▸ keeps_eraseEntry k
  · rcases bind_eq_ok.1 h with ⟨position, -, hm⟩
    split at hm
    · exact Except.ok.inj hm ▸ keeps_eraseItem _
    · simp at hm
  all_goals simp at h

/-- The field that a key addresses for writing stands at its address. -/
theorem get?_writableField {type : String} {fields : List (Field × Node σ)} {key text : String}
    {place : Place σ} (hc : c.container = .record type fields)
    (h : writableField o c type fields key = .ok (place, text)) :
    c.get? place.address = some place.node := by
  rcases bind_eq_ok.1 h with ⟨-, -, h⟩
  rcases bind_eq_ok.1 h with ⟨⟨name, rest⟩, -, hplace⟩
  rcases bind_eq_ok.1 hplace with ⟨field, hfield, heq⟩
  obtain ⟨rfl, -⟩ := Prod.mk.inj (Except.ok.inj heq)
  exact get?_fieldPlace hc hfield

/-- A removal may reset a field, which is then as well typed as new values are. -/
theorem keeps_remove (hS : S.Sound loops) {key : String} {mode : Mode} {m : Node σ}
    (h : S.remove o n key mode = .ok m) : S.Keeps loops n m := by
  rw [remove] at h
  split at h
  · simp at h
  · rename_i c hcore
    rcases map_eq_ok.1 h with ⟨d, hd, rfl⟩
    clear h
    obtain rfl := innermost_of_core hcore
    refine Keeps.withCore ?_
    split at hd
    · rename_i type fields hc
      rcases bind_eq_ok.1 hd with ⟨⟨place, text⟩, hplace, hrest⟩
      clear hd
      have hget := get?_writableField hc hplace
      simp only at hrest
      split at hrest
      · obtain rfl := Except.ok.inj hrest
        exact (keeps_reset hS place.node).replaceAt hget
      · split at hrest
        · simp at hrest
        · rename_i inside hinside
          rcases bind_eq_ok.1 hrest with ⟨x, hx, heq⟩
          obtain rfl := Except.ok.inj heq
          obtain rfl := innermost_of_core hinside
          exact (keeps_removeItem hx).withCore.replaceAt hget
    · exact keeps_removeItem hd

/-! ## Writing -/

/-- What a payload carries is well typed, and a value of its own. -/
def Carries (S : Schema σ) (loops : Prop) : Payload σ → Prop
  | .literal _ document => ∀ d, document = some d → d.Ordered
  | .typed value => S.Typed loops value ∧ value.isEnclosing = false

/-- A slot keeps its kind whatever is stored in it. -/
theorem keeps_setScalar {slot : Slot} {s : Scalar} {m : Node σ}
    (h : Node.setScalar slot s = .ok m) : S.Keeps loops (.scalar slot) m := by
  rw [Node.setScalar] at h
  split at h
  · rename_i written hwritten
    obtain rfl := Except.ok.inj h
    exact .of_typed (congrArg Ty.scalar (kind_of_ofScalar hwritten)) (.scalar written) rfl
  · simp at h

theorem ordered_ofScalar (s : Scalar) : (Document.ofScalar s).Ordered := by
  cases s with
  | uint n =>
      rw [Document.ofScalar]
      split <;> exact .leaf rfl
  | _ => exact .leaf rfl

/-- Assigning a typed value to a node without layers keeps its type, since values of another
type are converted or refused. -/
theorem keeps_assign {m : Node σ} (hv : S.Typed loops v) (hne : v.isEnclosing = false)
    (h : c.assign v = .ok m) : S.Keeps loops c m := by
  rw [assign.eq_def] at h
  split at h
  · rename_i hty
    exact Except.ok.inj h ▸ .of_typed hty.symm hv hne
  · split at h
    · exact keeps_setScalar h
    · simp at h
    · exact Except.ok.inj h ▸ .of_typed rfl (.dynamic (ordered_ofScalar _)) rfl
    · simp at h
    · simp at h

/-- Assigning a literal keeps the type too. A document that comes with the literal is only used
in dynamic slots. -/
theorem keeps_assignLiteral (hS : S.Sound loops) {text : String} {document : Option Document}
    (hdoc : ∀ d, document = some d → d.Ordered) {m : Node σ}
    (h : S.assignLiteral o c text document = .ok m) : S.Keeps loops c m := by
  rw [assignLiteral.eq_def] at h
  split at h
  · split at h
    · exact Except.ok.inj h ▸ .refl _
    · split at h
      · rcases typed_build hS h with ⟨hty, htyped⟩
        exact .of_typed hty htyped (isEnclosing_build hS h)
      · simp at h
  · exact keeps_setScalar h
  · refine Except.ok.inj h ▸ .of_typed rfl (.dynamic ?_) rfl
    cases document with
    | none => exact .leaf rfl
    | some d => exact hdoc d rfl
  · split at h
    · exact Except.ok.inj h ▸ .refl _
    · simp at h
  · split at h
    · exact Except.ok.inj h ▸ .refl _
    · simp at h
  all_goals simp at h

/-- A written slot keeps its type, with all layers allocated where the payload is refused. -/
theorem keeps_setSlot (hS : S.Sound loops) {payload : Payload σ} (hp : S.Carries loops payload)
    (n : Node σ) : S.Keeps loops n (S.setSlot o n payload).1 := by
  have hallocate := keeps_allocate hS n
  rw [setSlot.eq_def]
  cases payload with
  | literal text document =>
      cases hm : S.assignLiteral o (S.allocate n).innermost text document with
      | error e => simpa only [hm] using hallocate
      | ok m =>
          simp only [hm]
          exact hallocate.trans (keeps_assignLiteral hS hp hm).withCore
  | typed value =>
      cases hm : (S.allocate n).innermost.assign value with
      | error e => simpa only [hm] using hallocate
      | ok m =>
          simp only [hm]
          exact hallocate.trans (keeps_assign hp.1 hp.2 hm).withCore

theorem keeps_appendSlot (hS : S.Sound loops) {payload : Payload σ} (hp : S.Carries loops payload)
    {elem : Ty} {items : List (Node σ)} (hc : c.container = .list elem items) :
    S.Keeps loops c (S.appendSlot o c elem payload).1 := by
  have hslot := keeps_setSlot hS (o := o) hp (S.zero elem)
  rw [appendSlot]
  split
  · rename_i item heq
    rw [heq] at hslot
    exact keeps_append hc (hslot.ty_eq.trans (ty_zero elem)) (hslot.typed (typed_zero hS elem))
  · exact .refl c

theorem carries_orKey {payload : Payload σ} (hp : S.Carries loops payload) (key : String) :
    S.Carries loops (payload.orKey key) := by
  cases payload with
  | literal text document =>
      rw [Payload.orKey]
      split
      · intro d hd
        simp at hd
      · exact hp
  | typed value => exact hp

/-- Writing below a list key sets, appends or refuses an element. -/
theorem keeps_writeElement (hS : S.Sound loops) {payload : Payload σ}
    (hp : S.Carries loops payload) {elem : Ty} {items : List (Node σ)}
    (hc : c.container = .list elem items) (key : String) (mode : Mode) :
    S.Keeps loops c (S.writeElement o c elem items key payload mode).1 := by
  rw [writeElement.eq_def]
  split
  · exact .refl c
  · split
    · exact .refl c
    · exact .refl c
    · split
      · exact keeps_appendSlot hS hp hc
      · split
        · exact .refl c
        · rename_i item hitem
          rcases typed_build hS hitem with ⟨hty, htyped⟩
          exact keeps_append hc hty htyped
  · exact keeps_appendSlot hS (carries_orKey hp key) hc

theorem keeps_writeItem (hS : S.Sound loops) {payload : Payload σ} (hp : S.Carries loops payload)
    (c : Node σ) (key : String) (mode : Mode) :
    S.Keeps loops c (S.writeItem o c key payload mode).1 := by
  rw [writeItem]
  split
  · rename_i kind elem entries hc
    split
    · exact .refl c
    · rename_i k hk
      rcases bind_eq_ok.1 hk with ⟨-, -, hdecode⟩
      split
      · rename_i v hv
        refine Keeps.putBack ?_ (keeps_setSlot hS hp v)
        simp [get?, child?_entry hc, hv]
      · have hslot := keeps_setSlot hS (o := o) hp (S.zero elem)
        split
        · rename_i v heq
          rw [heq] at hslot
          exact keeps_putEntry hc (admits_of_decode hdecode) (hslot.ty_eq.trans (ty_zero elem))
            (hslot.typed (typed_zero hS elem))
        · exact .refl c
  · rename_i elem items hc
    exact keeps_writeElement hS hp hc key mode
  all_goals exact .refl c

/-- A write keeps the node well typed, whether it succeeds or fails half-way. -/
theorem keeps_write (hS : S.Sound loops) {payload : Payload σ} (hp : S.Carries loops payload)
    (n : Node σ) (key : String) (mode : Mode) :
    S.Keeps loops n (S.write o n key payload mode).1 := by
  rw [write]
  refine (keeps_allocate hS n).trans (Keeps.putBack (get?_coreAddress _) ?_)
  split
  · rename_i type fields hc
    split
    · exact .refl _
    · rename_i place text hplace
      refine Keeps.putBack (get?_writableField hc hplace) ?_
      split
      · exact keeps_setSlot hS hp place.node
      · exact (keeps_allocate hS place.node).trans
          (Keeps.putBack (get?_coreAddress _) (keeps_writeItem hS hp _ text .content))
  · exact keeps_writeItem hS hp _ key mode

/-! ## Shaping -/

/-- A node that serves as a container of a shape keeps its type. -/
theorem keeps_shaped {shape : Shape} {m : Node σ} (h : c.shaped shape = .ok m) :
    S.Keeps loops c m := by
  rw [Node.shaped.eq_def] at h
  split at h
  · rename_i d
    refine Except.ok.inj h ▸ ⟨rfl, fun hn => .dynamic ?_, id⟩
    have hd := S.ordered_of_typed hn
    cases shape with
    | map =>
        cases d with
        | map entries => exact hd
        | _ => exact Document.ordered_emptyMap
    | seq =>
        cases d with
        | seq items => exact hd
        | _ => exact .seq (List.forall_mem_nil _)
  all_goals first | exact Except.ok.inj h ▸ .refl _ | simp at h

/-- A shaped slot keeps its type, with all layers allocated where the shape is refused. -/
theorem keeps_shapeSlot (hS : S.Sound loops) (n : Node σ) (shape : Shape) :
    S.Keeps loops n (S.shapeSlot n shape).1 := by
  have hallocate := keeps_allocate hS n
  rw [shapeSlot]
  split
  · rename_i m hm
    exact hallocate.trans (keeps_shaped hm).withCore
  · exact hallocate

/-- Shaping an entry or element keeps the container well typed. An element that was built for a
shape which does not fit is well typed as well. -/
theorem keeps_shapeItem (hS : S.Sound loops) (c : Node σ) (key : String) (shape : Shape)
    (mode : Mode) : S.Keeps loops c (S.shapeItem o c key shape mode).1 := by
  rw [shapeItem]
  split
  · rename_i kind elem entries hc
    split
    · exact .refl c
    · rename_i k hk
      rcases bind_eq_ok.1 hk with ⟨-, -, hdecode⟩
      split
      · rename_i v hv
        refine Keeps.putBack ?_ (keeps_shapeSlot hS v shape)
        simp [get?, child?_entry hc, hv]
      · have hslot := keeps_shapeSlot hS (S.zero elem) shape
        split
        · rename_i v heq
          rw [heq] at hslot
          exact keeps_putEntry hc (admits_of_decode hdecode) (hslot.ty_eq.trans (ty_zero elem))
            (hslot.typed (typed_zero hS elem))
        · exact .refl c
  · rename_i elem items hc
    split
    · have hslot := keeps_shapeSlot hS (S.zero elem) shape
      split
      · rename_i item heq
        rw [heq] at hslot
        exact keeps_append hc (hslot.ty_eq.trans (ty_zero elem)) (hslot.typed (typed_zero hS elem))
      · exact .refl c
    · have happend := keeps_locateOrAppend hS (o := o) hc key mode
      split
      · rename_i d err heq
        rw [heq] at happend
        exact happend
      · rename_i d i heq
        rw [heq] at happend
        split
        · rename_i item hitem
          refine happend.trans (Keeps.putBack ?_ (keeps_shapeSlot hS item shape))
          simp [get?, hitem]
        · exact happend
  all_goals exact .refl c

/-- Shaping a child keeps the node well typed, whether it succeeds or fails half-way. -/
theorem keeps_materialize (hS : S.Sound loops) (n : Node σ) (key : String) (shape : Shape)
    (mode : Mode) : S.Keeps loops n (S.materialize o n key shape mode).1 := by
  rw [materialize]
  refine (keeps_allocate hS n).trans (Keeps.putBack (get?_coreAddress _) ?_)
  split
  · rename_i type fields hc
    split
    · exact .refl _
    · rename_i place text hplace
      refine Keeps.putBack (get?_writableField hc hplace) ?_
      split
      · exact keeps_shapeSlot hS place.node shape
      · exact (keeps_allocate hS place.node).trans
          (Keeps.putBack (get?_coreAddress _) (keeps_shapeItem hS _ text shape .content))
  · exact keeps_shapeItem hS _ key shape mode

end Schema

end TreeSync
