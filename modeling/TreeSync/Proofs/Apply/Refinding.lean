import TreeSync.Proofs.Apply.ContentKeys
import TreeSync.Proofs.Apply.Looping

/-!
# Keys that find what they made

A key that leads to a field, to an entry or to a position of a list leads there again,
whatever stands there by then.  A key that describes an element of a list by its
content does so only while the element matches.

Main definitions and results:

- `Schema.ByContent`, `Schema.ListByContent`: a key that describes an element of a list,
  as the key or the call says.
- `Schema.FindsAgain`: a key that finds again what it led to.
- `Schema.findItem_made`, `Schema.find_made`: what was made is found.
- `Schema.find_replaceAt`: what was found is found, unless it is an element of a list.
- `Schema.findsAgain_of_step`: keys that do not describe an element.
- `Schema.enter_of_findsAgain`: a step along a key that finds again makes nothing.
- `Schema.Describes.findsAgain`: keys that describe an element, as long as an event
  leaves the fields that they name.
-/

namespace TreeSync

namespace Schema

open Node

variable {σ : Type} {S : Schema σ} {o : Options} {loops : Prop} {e : Event}
  {n m c d u v x : Node σ} {type key text : String} {mode : Mode} {a b : Address} {i : Nat}

/-- A key describes an element of a list by its content: at the list, or behind the
name of the record field that holds it. -/
inductive ByContent (S : Schema σ) (o : Options) (c : Node σ) (key : String) : Prop where
  | element {elem : Ty} {items : List (Node σ)} (list : c.container = .list elem items)
      (mode : Mode.ofKey o key = .content)
  | suffix {type text : String} {fields : List (Field × Node σ)} {i : Nat} {v : Node σ} {elem : Ty}
      {items : List (Node σ)} (record : c.container = .record type fields)
      (slot : S.slotOf? o false type key = .ok (i, text)) (behind : text.isEmpty = false)
      (field : c.child? (.field i) = some v)
      (list : (S.allocate v).innermost.container = .list elem items)

/-- A step in some mode addresses a list by content: at the list, or behind the name of the
record field that holds it. -/
inductive ListByContent (S : Schema σ) (o : Options) (c : Node σ) (key : String) (mode : Mode) :
    Prop where
  | element {elem : Ty} {items : List (Node σ)} (list : c.container = .list elem items)
      (content : mode = .content)
  | suffix {type text : String} {fields : List (Field × Node σ)} {i : Nat} {v : Node σ} {elem : Ty}
      {items : List (Node σ)} (record : c.container = .record type fields)
      (slot : S.slotOf? o false type key = .ok (i, text)) (behind : text.isEmpty = false)
      (field : c.child? (.field i) = some v)
      (list : (S.allocate v).innermost.container = .list elem items)

theorem byContent_of_listByContent (h : S.ListByContent o c key (.ofKey o key)) :
    S.ByContent o c key := by
  rcases h with ⟨hlist, hmode⟩ | ⟨hrecord, hslot, hbehind, hv, hlist⟩
  · exact .element hlist hmode
  · exact .suffix hrecord hslot hbehind hv hlist

/-- A key finds in the second node what the step of an event along it leads to in the
first one. -/
def FindsAgain (S : Schema σ) (o : Options) (e : Event) (n m : Node σ) (key : String) : Prop :=
  ∃ place, S.find o m key (.ofKey o key) = .ok place ∧
    (S.enter o e.action n key).2 = .ok (place.address ++ place.node.coreAddress)

/-- A key that is the name of a field describes no element. -/
theorem not_byContent_field {fields : List (Field × Node σ)}
    (hrecord : c.container = .record type fields)
    (hslot : S.slotOf? o false type key = .ok (i, "")) : ¬ S.ByContent o c key := by
  rintro (⟨hlist, -⟩ | ⟨hother, hbehind, hempty, -, -⟩)
  · simp [hrecord] at hlist
  · obtain ⟨rfl, -⟩ := Container.record.inj (hrecord.symm.trans hother)
    obtain ⟨-, rfl⟩ := Prod.mk.inj (Except.ok.inj (hslot.symm.trans hbehind))
    simp at hempty

/-! ## Below layers -/

/-- A creating step works below the layers of the promoted node. -/
theorem enter_eq_withCore (hS : S.Sound loops) (haction : e.action ≠ .delete) (n : Node σ)
    (key : String) :
    S.enter o e.action n key =
      ((S.promote n).withCore (S.enter o e.action (S.promote n).innermost key).1,
        ((S.promote n).coreAddress ++ ·) <$>
          (S.enter o e.action (S.promote n).innermost key).2) := by
  have hready := S.ready_innermost_promote n
  have hstep : S.enter o e.action ((S.promote n).withCore (S.promote n).innermost) key = _ :=
    enter_withCore hS hready.bare (fun _ => hready) (S.promote n) key
  rw [withCore_innermost] at hstep
  rw [← hstep, enter_promote haction]

/-- A creating step that led somewhere led there below the layers. -/
theorem enter_eq_ok (hS : S.Sound loops) (haction : e.action ≠ .delete)
    (h : S.enter o e.action n key = (m, .ok a)) :
    ∃ r b, S.enter o e.action (S.promote n).innermost key = (r, .ok b) ∧ r.Bare ∧
      m = (S.promote n).withCore r ∧ a = (S.promote n).coreAddress ++ b := by
  have hkeeps := keeps_enter hS (o := o) e.action (S.promote n).innermost key
  rw [enter_eq_withCore hS haction] at h
  rcases hstep : S.enter o e.action (S.promote n).innermost key with ⟨r, _ | b⟩
  · simp [hstep, Functor.map, Except.map] at h
  · rw [hstep] at h hkeeps
    obtain ⟨rfl, hab⟩ := Prod.mk.inj h
    exact ⟨r, b, rfl, (S.ready_innermost_promote n).bare.of_ty_eq hkeeps.ty_eq, rfl,
      (Except.ok.inj hab).symm⟩

/-- A creating step fills the layers of the node and of the child. -/
theorem isAllocated_enter (hS : S.Sound loops) (haction : e.action ≠ .delete) (n : Node σ)
    (key : String) : (S.enter o e.action n key).1.isAllocated = true := by
  have hkeeps := keeps_enter hS (o := o) e.action (S.promote n).innermost key
  rw [enter_eq_withCore hS haction]
  exact isAllocated_withCore _ ((S.ready_innermost_promote n).bare.of_ty_eq hkeeps.ty_eq)

theorem bare_of_enter (hS : S.Sound loops) (haction : e.action ≠ .delete)
    (h : S.enter o e.action n key = (m, .ok a)) (hu : m.get? a = some u) : u.Bare := by
  rw [enter_of_ne haction, findOrCreate] at h
  split at h
  · simp at h
  · rename_i r b heq
    simp only at h
    split at h
    · simp at h
    · rename_i child hchild
      obtain ⟨rfl, hab⟩ := Prod.mk.inj h
      obtain rfl := Except.ok.inj hab
      rw [get?_replaceAt_append hchild (keeps_allocate hS child).ty_eq, get?_coreAddress] at hu
      obtain rfl := Option.some.inj hu
      exact S.bare_innermost_allocate child

/-- What finds again below the layers finds again in the node, and conversely. -/
theorem findsAgain_withCore (hS : S.Sound loops) (haction : e.action ≠ .delete) (n : Node σ)
    (hd : d.Bare) (key : String) :
    S.FindsAgain o e n ((S.promote n).withCore d) key ↔
      S.FindsAgain o e (S.promote n).innermost d key := by
  rw [FindsAgain, FindsAgain, enter_eq_withCore hS haction n, find_withCore hd]
  constructor
  · rintro ⟨place, hplace, henter⟩
    rcases map_eq_ok.1 hplace with ⟨below, hbelow, rfl⟩
    rcases map_eq_ok.1 henter with ⟨b, hb, heq⟩
    rw [Place.under, List.append_assoc] at heq
    exact ⟨below, hbelow, hb.trans (congrArg Except.ok (List.append_cancel_left heq))⟩
  · rintro ⟨below, hbelow, henter⟩
    refine ⟨below.under (S.promote n).coreAddress, by rw [hbelow]; rfl, ?_⟩
    rw [henter, Place.under, List.append_assoc]
    rfl

/-! ## Finding what was made -/

/-- Where an element is depends on the list only by its content or its length. -/
theorem locate_of_length (hmode : mode ≠ .content) {elem : Ty} {items others : List (Node σ)}
    (h : others.length = items.length) :
    S.locate o elem others key mode = S.locate o elem items key mode := by
  have hempty : others.isEmpty = items.isEmpty := by
    cases others <;> cases items <;> simp_all
  cases mode with
  | content => exact absurd rfl hmode
  | _ => simp only [locate, h, hempty]

/-- A list finds the element that was made for a position. -/
theorem locate_made (hS : S.Sound loops) (hmode : mode ≠ .content) {elem : Ty}
    {items others : List (Node σ)} (hlist : c.container = .list elem items)
    (hmade : S.locateOrAppend o c elem items text mode = (m, .ok i))
    (hm : m.container = .list elem others) :
    S.locate o elem others text mode = .ok (some i) := by
  rcases locateOrAppend_cases hS (o := o) c elem items text mode with
    ⟨err, herr⟩ | ⟨j, hj, hfound⟩ | ⟨v, hnone, -, hty, -, happend⟩
  · simp [herr] at hmade
  · obtain ⟨rfl, hij⟩ := Prod.mk.inj (hfound.symm.trans hmade)
    obtain rfl := Except.ok.inj hij
    obtain ⟨-, rfl⟩ := Container.list.inj (hlist.symm.trans hm)
    exact hj
  · obtain ⟨rfl, hij⟩ := Prod.mk.inj (happend.symm.trans hmade)
    obtain rfl := Except.ok.inj hij
    obtain ⟨-, rfl⟩ := Container.list.inj ((container_append hlist hty).1.symm.trans hm)
    cases mode with
    | content => exact absurd rfl hmode
    | none => simp [locate] at hnone
    | index => simp [locateOrAppend, hnone] at hmade
    | first =>
        cases items with
        | nil => rfl
        | cons item rest => simp [locate] at hnone
    | last =>
        cases items with
        | nil => rfl
        | cons item rest => simp [locate] at hnone

/-- An entry or an element that a step made, or found, is found, whatever was put
there since. -/
theorem findItem_made (hS : S.Sound loops) (hc : S.Typed loops c)
    (hlist : ∀ elem items, c.container = .list elem items → mode ≠ .content)
    (hmade : S.createItem o c text mode = (m, .ok a)) (hu : m.get? a = some u) (hx : x.ty = u.ty) :
    S.findItem o (m.replaceAt a x) text mode = .ok ⟨a, x⟩ := by
  have hm := (keeps_createItem hS (o := o) c text mode).typed hc
  rw [hmade] at hm
  cases hcontainer : c.container with
  | map kind elem entries =>
      rw [createItem_of_map hcontainer] at hmade
      cases hk : entryKey kind text with
      | error err => simp [hk] at hmade
      | ok k =>
          obtain ⟨rfl, others, hothers⟩ :
              a = [.entry k] ∧ ∃ others, m.container = .map kind elem others := by
            simp only [hk] at hmade
            split at hmade
            · obtain ⟨rfl, ha⟩ := Prod.mk.inj hmade
              exact ⟨(Except.ok.inj ha).symm, entries, hcontainer⟩
            · obtain ⟨rfl, ha⟩ := Prod.mk.inj hmade
              exact ⟨(Except.ok.inj ha).symm, container_putEntry hcontainer k _⟩
          have hchild : m.child? (.entry k) = some u := by simpa [Node.get?] using hu
          have hxty : x.ty = elem := hx.trans (ty_of_entry hm hothers hchild)
          rcases container_putEntry hothers k x with ⟨after, hafter⟩
          simp only [replaceAt, hchild]
          rw [findItem_of_map hafter, hk]
          simp only [bind, Except.bind, child?_putEntry hothers (admits_of_entryKey hk) hxty]
  | list elem items =>
      have hmode := hlist elem items hcontainer
      rcases exists_element_of_createItem hS hcontainer (congrArg Prod.snd hmade) with
        ⟨m', i, others, happend, rfl, hothers, hi⟩
      obtain rfl : m' = m := by
        rw [createItem, hcontainer] at hmade
        simp only [happend] at hmade
        exact (Prod.mk.inj hmade).1
      have hchild : m'.child? (.element i) = some u := by simpa [Node.get?] using hu
      have hitem : others[i]? = some u := (child?_element hothers i).symm.trans hchild
      have hafter := container_putElement hothers i (hx.trans (ty_of_element hm hothers hitem))
      have hlocate : S.locate o elem (others.set i x) text mode = .ok (some i) := by
        rw [locate_of_length hmode List.length_set]
        exact locate_made hS hmode hcontainer happend hothers
      simp only [replaceAt, hchild]
      simp only [findItem, hafter.1, hlocate, bind, Except.bind, List.getElem?_set_self hi]
  | _ => simp [createItem, hcontainer] at hmade

/-- What a step made at a field, or found there, is found. -/
theorem find_made_slot (hS : S.Sound loops) (hc : S.Typed loops c)
    {fields : List (Field × Node σ)} (hrecord : c.container = .record type fields)
    (hslot : S.slotOf? o false type key = .ok (i, text)) (hv : c.child? (.field i) = some v)
    (hne : v.isEnclosing = false) (hcontent : ¬ S.ListByContent o c key mode)
    (hmade : S.createChild o c key mode = (m, .ok a)) (hu : m.get? a = some u)
    (hx : S.Keeps loops u x) (halloc : x.isAllocated = true) :
    S.find o (m.replaceAt a x) key mode = .ok ⟨a, x⟩ := by
  have hfound : ∀ {w}, S.Keeps loops v w → ∃ others, S.Typed loops (c.putChild (.field i) w) ∧
      (c.putChild (.field i) w).container = .record type others ∧
      (c.putChild (.field i) w).child? (.field i) = some w ∧ w.isEnclosing = false := by
    intro w hw
    rcases record_of_keeps (Keeps.putChild hv hw) hc hrecord with ⟨htyped, others, hothers⟩
    refine ⟨others, htyped, hothers, child?_putChild hv hw.ty_eq, ?_⟩
    rw [Bool.eq_false_iff]
    exact fun hself => by simp [hw.enclosing hself] at hne
  rw [createChild_slot hc hrecord hslot hv hne] at hmade
  by_cases htext : text.isEmpty = true
  · rw [if_pos htext] at hmade
    obtain ⟨rfl, ha⟩ := Prod.mk.inj hmade
    obtain rfl := Except.ok.inj ha
    obtain rfl : v = u := by simpa [Node.get?, hv] using hu
    rcases hfound hx with ⟨others, htyped, hothers, hchild, hself⟩
    simp only [replaceAt, hv]
    rw [find_slot htyped hothers hslot hchild hself, if_pos htext, if_pos halloc]
  · rw [if_neg htext] at hmade
    obtain ⟨rfl, ha⟩ := Prod.mk.inj hmade
    rcases map_eq_ok.1 ha with ⟨b, hb, rfl⟩
    have hopened := keeps_allocate hS v
    have hitem := keeps_createItem hS (o := o) (S.allocate v).innermost text .content
    rcases hinside : S.createItem o (S.allocate v).innermost text .content with ⟨inside, r⟩
    simp only [hinside] at hitem hb hu
    subst hb
    rw [get?_putField hv (hopened.trans hitem.withCore).ty_eq] at hu
    have hafter := hitem.trans (Keeps.replaceAt hu hx)
    have hbare : (inside.replaceAt b x).Bare :=
      (S.bare_innermost_allocate v).of_ty_eq hafter.ty_eq
    have hput : (c.putChild (.field i) ((S.allocate v).withCore inside)).replaceAt
        (.field i :: (S.allocate v).coreAddress ++ b) x =
          c.putChild (.field i) ((S.allocate v).withCore (inside.replaceAt b x)) := by
      have hput := putBack_putField hv (hopened.trans hitem.withCore).ty_eq (r := (x, ()))
        (hopened.trans hafter.withCore).ty_eq
      rw [putBack_field hv] at hput
      exact congrArg Prod.fst hput
    rcases hfound (hopened.trans hafter.withCore) with ⟨others, htyped, hothers, hchild, hself⟩
    have hmade := findItem_made hS ((hopened.typed (hc.child hv)).innermost)
      (fun elem items hlist =>
        absurd (.suffix hrecord hslot (Bool.eq_false_iff.2 htext) hv hlist) hcontent)
      hinside hu hx.ty_eq
    rw [hput, find_slot htyped hothers hslot hchild hself, if_neg htext,
      core_eq_ok_innermost (isAllocated_withCore _ hbare)]
    simp only [innermost_withCore _ hbare, coreAddress_withCore _ hbare, hmade]
    rfl

/-- What a step made, or found, is found, unless it addresses a list by content. -/
theorem find_made (hS : S.Sound loops) (hc : S.Typed loops c) (hbare : c.Bare)
    (hcontent : ¬ S.ListByContent o c key mode)
    (hmade : S.createChild o c key mode = (m, .ok a)) (ha : a ≠ [])
    (hu : m.get? a = some u) (hx : S.Keeps loops u x) (halloc : x.isAllocated = true) :
    S.find o (m.replaceAt a x) key mode = .ok ⟨a, x⟩ := by
  by_cases hrecord : ∃ type fields, c.container = .record type fields
  · rcases hrecord with ⟨type, fields, hrecord⟩
    have hcreate := createChild_record hc hrecord o key mode
    cases hslot : S.slotOf? o false type key with
    | error err =>
        rw [hslot] at hcreate
        simp [hcreate] at hmade
    | ok slot =>
        obtain ⟨i, text⟩ := slot
        rw [hslot] at hcreate
        rcases hcreate with ⟨v, hv, -⟩
        cases hself : v.isEnclosing with
        | false => exact find_made_slot hS hc hrecord hslot hv hself hcontent hmade hu hx halloc
        | true =>
            rw [createChild_enclosing hc hrecord hslot hv hself] at hmade
            split at hmade
            · exact absurd (Except.ok.inj (Prod.mk.inj hmade).2).symm ha
            · simp at hmade
  · have hitems : ∀ type fields, c.container ≠ .record type fields :=
      fun type fields heq => hrecord ⟨type, fields, heq⟩
    rw [createChild_item hitems] at hmade
    have hfound := findItem_made hS hc
      (fun elem items hlist hmode => hcontent (.element hlist hmode)) hmade hu hx.ty_eq
    have hkeeps := keeps_createItem hS (o := o) c key mode
    rw [hmade] at hkeeps
    rw [find_item (hbare.of_ty_eq (hkeeps.trans (Keeps.replaceAt hu hx)).ty_eq), hfound]
    intro type fields heq
    simp [findItem, heq] at hfound

theorem element_of_findItem {elem : Ty} {items : List (Node σ)} {place : Place σ}
    (hlist : c.container = .list elem items) (h : S.findItem o c text mode = .ok place) :
    ∃ i, place.address = [.element i] := by
  rw [findItem, hlist] at h
  rcases bind_eq_ok.1 h with ⟨position, -, hget⟩
  cases position with
  | none => simp at hget
  | some i =>
      simp only at hget
      split at hget
      · exact ⟨i, congrArg Place.address (Except.ok.inj hget).symm⟩
      · simp at hget

/-- A step that addresses a list by content leads to an element of it. -/
theorem element_of_find (hc : S.Typed False c) (hbare : c.Bare) {place : Place σ}
    (hcontent : S.ListByContent o c key mode) (h : S.find o c key mode = .ok place) :
    ∃ i, Step.element i ∈ place.address := by
  rcases hcontent with ⟨hlist, -⟩ | ⟨hrecord, hslot, hbehind, hv, hlist⟩
  · rw [find_item hbare (by simp [hlist])] at h
    rcases element_of_findItem hlist h with ⟨i, hi⟩
    exact ⟨i, by simp [hi]⟩
  · have hown := (hc.child hv).isEnclosing_eq_false
    rw [find_slot hc hrecord hslot hv hown, if_neg (Bool.eq_false_iff.1 hbehind)] at h
    split at h
    · simp at h
    · rename_i d hd
      rcases map_eq_ok.1 h with ⟨below, hbelow, rfl⟩
      rw [S.allocate_of_isAllocated (isAllocated_of_core hd), innermost_of_core hd] at hlist
      rcases element_of_findItem hlist hbelow with ⟨i, hi⟩
      exact ⟨i, by simp [Place.under, hi]⟩

/-- A key that leads to no element of a list leads to the same place after a change of what
stands there. -/
theorem find_replaceAt (hS : S.Sound False) (hn : S.Typed False n) {place : Place σ}
    (h : S.find o n key mode = .ok place) (hlist : ∀ i, Step.element i ∉ place.address)
    (hw : S.Keeps False place.node x) (halloc : x.isAllocated = true) :
    S.find o (n.replaceAt place.address x) key mode = .ok ⟨place.address, x⟩ := by
  have hbare := bare_innermost (isAllocated_of_find h)
  rw [← n.withCore_innermost, find_withCore hbare] at h
  rcases map_eq_ok.1 h with ⟨below, hbelow, rfl⟩
  have hcontent : ¬ S.ListByContent o n.innermost key mode := by
    intro hcontent
    rcases element_of_find hn.innermost hbare hcontent hbelow with ⟨i, hi⟩
    exact hlist i (by simp [Place.under, hi])
  have hfound := find_made hS hn.innermost hbare hcontent
    (createChild_of_find hn.innermost hbare hbelow) (find_address_ne hn.innermost hbare hbelow)
    (get?_find hbelow) hw halloc
  have hafter : (n.innermost.replaceAt below.address x).Bare :=
    hbare.of_ty_eq (Keeps.replaceAt (get?_find hbelow) hw).ty_eq
  have hput : n.replaceAt (n.coreAddress ++ below.address) x =
      n.withCore (n.innermost.replaceAt below.address x) := by
    rw [← withCore_replaceAt_append, withCore_innermost]
  rw [Place.under, hput, find_withCore hafter, hfound]
  rfl

/-! ## Steps -/

theorem findsAgain_bare (hS : S.Sound loops) (hc : S.Typed loops c) (hready : Ready c)
    (haction : e.action ≠ .delete) (hcontent : ¬ S.ByContent o c key)
    (henter : S.enter o e.action c key = (m, .ok a)) (ha : a ≠ []) (hu : m.get? a = some u)
    (hx : S.Keeps loops u x) : S.FindsAgain o e c (m.replaceAt a x) key := by
  have hmade := keeps_createChild hS (o := o) c key (.ofKey o key)
  rcases enter_create_eq_ok hready haction henter with ⟨r, b, child, hcreate, hget, rfl, rfl⟩
  rw [hcreate] at hmade
  have hopened := keeps_allocate hS child
  rw [get?_replaceAt_append hget hopened.ty_eq, get?_coreAddress] at hu
  obtain rfl := Option.some.inj hu
  have hbelow := hopened.trans hx.withCore
  have hbare : x.Bare := (S.bare_innermost_allocate child).of_ty_eq hx.ty_eq
  have hb : b ≠ [] := by
    rintro rfl
    obtain rfl := Option.some.inj hget
    have hchild := hready.bare.of_ty_eq hmade.ty_eq
    rw [S.allocate_of_bare hchild] at ha
    exact ha (coreAddress_of_bare hchild)
  have hput : (r.replaceAt b (S.allocate child)).replaceAt
      (b ++ (S.allocate child).coreAddress) x =
        r.replaceAt b ((S.allocate child).withCore x) :=
    replaceAt_replaceAt_append hget hopened.ty_eq hbelow.ty_eq
  refine ⟨⟨b, (S.allocate child).withCore x⟩, ?_, ?_⟩
  · rw [hput]
    have haway := mt byContent_of_listByContent hcontent
    exact find_made hS hc hready.bare haway hcreate hb hget hbelow
      (isAllocated_withCore _ hbare)
  · rw [congrArg Prod.snd henter, coreAddress_withCore _ hbare]

/-- A key that does not describe an element of a list finds again what it led to,
unless it came back to where it was. -/
theorem findsAgain_of_step (hS : S.Sound loops) (hn : S.Typed loops n)
    (haction : e.action ≠ .delete) (hcontent : ¬ S.ByContent o (S.promote n).innermost key)
    (henter : S.enter o e.action n key = (m, .ok a)) (hu : m.get? a = some u)
    (haway : a ++ u.coreAddress ≠ m.coreAddress) (hx : S.Keeps loops u x) :
    S.FindsAgain o e n (m.replaceAt a x) key := by
  have hready := S.ready_innermost_promote n
  have hc := ((keeps_promote hS n).typed hn).innermost
  rcases enter_eq_ok hS haction henter with ⟨r, b, hstep, hbare, rfl, rfl⟩
  rw [get?_withCore_append] at hu
  have hb : b ≠ [] := by
    rintro rfl
    obtain rfl := Option.some.inj hu
    rw [coreAddress_withCore _ hbare, coreAddress_of_bare hbare, List.append_nil] at haway
    exact haway (List.append_nil _)
  rw [withCore_replaceAt_append,
    findsAgain_withCore hS haction n (hbare.of_ty_eq (ty_replaceAt hu hx.ty_eq))]
  exact findsAgain_bare hS hc hready haction hcontent hstep hb hu hx

/-- A node that is bare below its layers is allocated. -/
theorem isAllocated_of_bare_innermost (h : n.innermost.Bare) : n.isAllocated = true :=
  isAllocated_of_get n.get?_coreAddress h

/-- A step along a key that finds again makes nothing and leads to the same place. -/
theorem enter_of_findsAgain (hm : S.Typed loops m) (haction : e.action ≠ .delete)
    (h : S.FindsAgain o e n m key) (henter : (S.enter o e.action n key).2 = .ok a)
    (hx : m.get? a = some x) (hbare : x.Bare) :
    S.enter o e.action m key = (m, .ok a) := by
  rcases h with ⟨place, hfind, hsame⟩
  obtain rfl := Except.ok.inj (henter.symm.trans hsame)
  have hget := get?_find hfind
  rw [get?_append, hget] at hx
  obtain rfl := Option.some.inj ((get?_coreAddress place.node).symm.trans hx)
  rw [enter_of_find hm haction hfind,
    S.allocate_of_isAllocated (isAllocated_of_bare_innermost hbare), hm.replaceAt_self hget]

/-! ## Entries and elements -/

/-- Of addresses that go on differently below one item each, the items are the same. -/
theorem eq_of_step_append {s t : Step} {p q : Address} (ha : a = [s]) (hb : b = [t])
    (h : a ++ p = b ++ q) : a = b := by
  subst ha hb
  exact congrArg ([·]) (List.cons.inj h).1

/-- An entry or element that is found again is the one that the key led to. -/
theorem findsAgain_item (hready : Ready c) (haction : e.action ≠ .delete)
    (hc : ∀ type fields, c.container ≠ .record type fields) (hd : d.Bare)
    (hrecord : ∀ type fields, d.container ≠ .record type fields)
    (h : S.FindsAgain o e c d key) :
    ∃ place, S.findItem o d key (.ofKey o key) = .ok place ∧
      (S.createItem o c key (.ofKey o key)).2 = .ok place.address := by
  rcases h with ⟨place, hfind, henter⟩
  rw [find_item hd hrecord] at hfind
  rw [enter_create hready haction, createChild_item hc] at henter
  refine ⟨place, hfind, ?_⟩
  rcases hmade : S.createItem o c key (.ofKey o key) with ⟨m, _ | a⟩
  · simp [hmade] at henter
  · rcases exists_step_of_findItem hfind with ⟨s, hs⟩
    rcases exists_step_of_createItem (congrArg Prod.snd hmade) with ⟨t, ht⟩
    simp only [hmade] at henter
    split at henter
    · simp at henter
    · exact congrArg Except.ok (eq_of_step_append ht hs (Except.ok.inj henter))

/-- The same behind the name of a field. -/
theorem findsAgain_suffix (hc : S.Typed loops c) (hd : S.Typed loops d)
    (haction : e.action ≠ .delete) {fields others : List (Field × Node σ)}
    (hrecord : c.container = .record type fields) (hafter : d.container = .record type others)
    (hslot : S.slotOf? o false type key = .ok (i, text)) (htext : text.isEmpty = false)
    (hv : c.child? (.field i) = some v) (hne : v.isEnclosing = false)
    (hx : d.child? (.field i) = some ((S.allocate v).withCore x)) (hbare : x.Bare)
    (hself : ((S.allocate v).withCore x).isEnclosing = false) (h : S.FindsAgain o e c d key) :
    ∃ place, S.findItem o x text .content = .ok place ∧
      (S.createItem o (S.allocate v).innermost text .content).2 = .ok place.address := by
  rcases h with ⟨place, hfind, henter⟩
  rw [find_slot hd hafter hslot hx hself, htext,
    core_eq_ok_innermost (isAllocated_withCore _ hbare)] at hfind
  simp only [Bool.false_eq_true, if_false, innermost_withCore _ hbare,
    coreAddress_withCore _ hbare] at hfind
  rcases map_eq_ok.1 hfind with ⟨below, hbelow, rfl⟩
  refine ⟨below, hbelow, ?_⟩
  rw [enter_create (ready_of_record hrecord) haction, createChild_slot hc hrecord hslot hv hne,
    htext] at henter
  rcases hmade : S.createItem o (S.allocate v).innermost text .content with ⟨m, _ | a⟩
  · simp [hmade, Functor.map, Except.map] at henter
  · rcases exists_step_of_findItem hbelow with ⟨s, hs⟩
    rcases exists_step_of_createItem (congrArg Prod.snd hmade) with ⟨t, ht⟩
    simp only [hmade, Bool.false_eq_true, if_false, Functor.map, Except.map] at henter
    split at henter
    · simp at henter
    · have heq := Except.ok.inj henter
      rw [Place.under, List.append_assoc, List.append_assoc] at heq
      exact congrArg Except.ok (eq_of_step_append ht hs (List.append_cancel_left heq))

/-! ## Keys that describe an element -/

/-- Steps through layers down to a bare node are those through all layers. -/
theorem eq_coreAddress_of_pointee (hlayers : ∀ s ∈ a, s = .pointee) (hu : n.get? a = some u)
    (hbare : u.Bare) : a = n.coreAddress := by
  induction a generalizing n with
  | nil =>
      obtain rfl := Option.some.inj hu
      exact (coreAddress_of_bare hbare).symm
  | cons s below ih =>
      obtain rfl := hlayers s List.mem_cons_self
      rcases Option.bind_eq_some_iff.1 hu with ⟨v, hv, hbelow⟩
      have hrest := ih (fun s hs => hlayers s (List.mem_cons_of_mem _ hs)) hbelow
      cases n with
      | present x =>
          obtain rfl := Option.some.inj hv
          rw [hrest, coreAddress]
      | boxed x =>
          obtain rfl := Option.some.inj hv
          rw [hrest, coreAddress]
      | dynamic doc => cases doc <;> simp [child?] at hv
      | _ => simp [child?] at hv

/-- A creating step along a key leads to a record that matches it. -/
theorem Describes.record_of_enter (hS : S.Sound loops) {owner field : String} {elem : Ty}
    {parsed : Key} {built u : Node σ} {fields : List (Field × Node σ)} {a : Address}
    (h : S.Describes o elem type text parsed built) (hf : S.ListField o owner field i elem)
    (hc : S.Typed loops c) (hrecord : c.container = .record owner fields)
    (haction : e.action ≠ .delete) (henter : S.enter o e.action c (field ++ text) = (m, .ok a))
    (hu : m.get? a = some u) : ∃ others, u.container = .record type others := by
  rcases enter_create_eq_ok (ready_of_record hrecord) haction henter with
    ⟨r, b, child, hmade, hget, rfl, rfl⟩
  rcases createChild_content_key hS hf h hc hrecord hmade with ⟨-, -, -, hchild⟩
  rcases h.record_of_agrees (hchild child hget).1 (hchild child hget).2 with ⟨halloc, hinner⟩
  rw [get?_replaceAt_append hget (keeps_allocate hS child).ty_eq, get?_coreAddress,
    S.allocate_of_isAllocated halloc] at hu
  obtain rfl := Option.some.inj hu
  exact hinner

/-- A key finds again what its step led to if it finds a node whose layers the step
went through. -/
theorem findsAgain_of_address (hS : S.Sound loops) (haction : e.action ≠ .delete)
    (henter : S.enter o e.action n key = (m, .ok a)) (hu : m.get? a = some u) (hx : x.ty = u.ty)
    {place : Place σ} (hfind : S.find o (m.replaceAt a x) key (.ofKey o key) = .ok place)
    (ha : a = place.address ++ b) (hlayers : ∀ s ∈ b, s = .pointee) :
    S.FindsAgain o e n (m.replaceAt a x) key := by
  have hthere := get?_replaceAt_append hu hx []
  rw [List.append_nil, ha, get?_append, ← ha, get?_find hfind] at hthere
  have hbare : x.Bare := (bare_of_enter hS haction henter hu).of_ty_eq hx
  refine ⟨place, hfind, ?_⟩
  rw [henter, ha, eq_coreAddress_of_pointee hlayers hthere hbare]

section Field

variable {owner field segment : String} {elem : Ty} {parsed : Key} {built : Node σ}
  {fields : List (Field × Node σ)} {rest : List String}

/-- After an event that goes on in a field which a key does not name, the key finds an
element at the old position. -/
theorem Describes.exists_find_walk (hS : S.Sound loops)
    (h : S.Describes o elem type text parsed built) (hf : S.ListField o owner field i elem)
    (hc : S.Typed loops c) (hrecord : c.container = .record owner fields)
    (hv : c.child? (.field i) = some v) (haction : e.action ≠ .delete)
    (hhead : (rest ++ [e.key]).head? = some segment) (hother : ¬ S.Names o type parsed segment) :
    ∃ item : Place σ,
      item.address = [.element
        (Settled.position (agrees o (parsed.qualifiers.map Prod.fst) built) (S.items v))] ∧
      S.find o (S.walk o e c ((field ++ text) :: rest)).1 (field ++ text)
          (.ofKey o (field ++ text)) =
        .ok (item.under (.field i :: (S.allocate v).coreAddress)) := by
  rcases hf.exists_child hc hrecord with ⟨u, hu, hlist, hown⟩
  obtain rfl := Option.some.inj (hv.symm.trans hu)
  have hinner := exists_items (S := S) hlist
  have hitems := ((keeps_allocate hS v).typed (hc.child hv)).innermost
  rw [hinner] at hitems
  rcases h.settled_walkItem hS hitems hhead hother (field ++ text) with
    ⟨after, hafter, hsettled, hthere⟩
  have hchanged := walkField_allocate (S := S) (o := o) h.bracketed.isEmpty_eq (.inr haction)
    (v := v) (field ++ text) rest
  have hkeeps := keeps_walkField hS (o := o) e text (field ++ text) rest v
  rw [hinner, hafter] at hchanged
  rw [hchanged] at hkeeps
  rcases record_of_keeps (Keeps.putChild hv hkeeps) hc hrecord with ⟨htyped, others, hothers⟩
  have hbare : (Node.list elem after : Node σ).Bare := Kind.noConfusion
  have hself : ((S.allocate v).withCore (.list elem after)).isEnclosing = false := by
    rw [Bool.eq_false_iff]
    exact fun hloop => by simp [hkeeps.enclosing hloop] at hown
  have hfound := h.findItem_list after
  rw [hsettled.findIdx, if_pos (hthere haction)] at hfound
  rcases map_eq_ok.1 hfound with ⟨item, hitem, haddress⟩
  refine ⟨item, haddress, ?_⟩
  rw [walk_content_key hS hf h hc hrecord hv hown, putBack_field hv, hchanged,
    find_slot htyped hothers (hf.slotOf_append h.bracketed) (child?_putChild hv hkeeps.ty_eq) hself,
    h.bracketed.isEmpty_eq, core_eq_ok_innermost (isAllocated_withCore _ hbare)]
  simp only [Bool.false_eq_true, if_false, innermost_withCore _ hbare,
    coreAddress_withCore _ hbare, hitem]
  rfl

/-- A key behind the name of a list field finds its element again after an event that
goes on in a field which the key does not name. -/
theorem Describes.findsAgain (hS : S.Sound loops) (h : S.Describes o elem type text parsed built)
    (hf : S.ListField o owner field i elem) (hc : S.Typed loops c)
    (hrecord : c.container = .record owner fields) (haction : e.action ≠ .delete)
    (hhead : (rest ++ [e.key]).head? = some segment) (hother : ¬ S.Names o type parsed segment)
    (hok : S.walk o e c ((field ++ text) :: rest) = (d, .ok ())) :
    S.FindsAgain o e c d (field ++ text) := by
  rcases hf.exists_child hc hrecord with ⟨v, hv, -⟩
  rcases h.exists_find_walk hS hf hc hrecord hv haction hhead hother with ⟨item, haddress, hfind⟩
  rw [hok] at hfind
  rcases walk_cons_eq_ok hok with ⟨r, a, child, w, henter, hget, -, hw, rfl⟩
  have hkeeps := keeps_walk hS (o := o) e child rest
  rw [hw] at hkeeps
  rcases enter_content_key hS hf h hc hrecord henter with ⟨⟨u, below, hu, ha, hlayers⟩, -⟩
  obtain rfl := Option.some.inj (hv.symm.trans hu)
  refine findsAgain_of_address hS haction henter hget hkeeps.ty_eq hfind ?_ hlayers
  rw [ha, Place.under, haddress, itemsAt, hv]
  simp

end Field

end Schema

end TreeSync
