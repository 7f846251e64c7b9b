import TreeSync.Proofs.Apply.Refinding

/-!
# Events that arrive twice

An event that creates makes what is missing on its way, so the same event finds it
when it arrives again and writes what is already there.  Only list elements can be
lost: one that is described by its content may no longer match its key after the
event, and then a second one is appended.  As long as every content key finds the
element again that it led to, the second event changes nothing.

Main definitions and results:

- `Schema.Lasting`: content keys that find their elements after the event.
- `Schema.Appends`: events that always append.
- `Schema.Describes.lasting`: an event that leaves the fields which its key names.
- `Schema.perform_again`, `Schema.walk_again`: the leaf and the way.
- `Schema.enter_plain`: a plain key, which may be lost.
- `Schema.apply_again`: one event twice.
-/

namespace TreeSync

namespace Schema

open Node

variable {σ : Type} {S : Schema σ} {o : Options} {loops : Prop} {e : Event}
  {n m c d v w : Node σ} {type key text : String} {i : Nat} {rest path : List String}

/-- Every key of an event that describes an element of a list finds after the event
the element that it led to. -/
def Lasting (S : Schema σ) (o : Options) (e : Event) (n : Node σ) (path : List String) : Prop :=
  ∀ i v key, (S.visited o e.action n path)[i]? = some v → (path ++ [e.key])[i]? = some key →
    S.ByContent o (S.promote v).innermost key →
      S.FindsAgain o e v (S.walk o e v (path.drop i)).1 key

/-- The event ends at a list that its key does not describe an element of: the key is
empty or a position. -/
def Appends (S : Schema σ) (o : Options) (e : Event) (n : Node σ) (path : List String) : Prop :=
  ∃ v elem items, (S.visited o e.action n path)[path.length]? = some v ∧
    (S.promote v).innermost.container = .list elem items ∧
      (e.key.isEmpty = true ∨ Mode.ofKey o e.key = .index)

/-! ## Keys on the way -/

theorem lasting_succ {child : Node σ} {a : Address} (h : S.Lasting o e n (key :: rest))
    (henter : S.enter o e.action n key = (m, .ok a)) (hchild : m.get? a = some child) :
    S.Lasting o e child rest := by
  intro i v segment hv hsegment
  rw [← visited_succ henter hchild] at hv
  exact h (i + 1) v segment hv hsegment

theorem appends_succ {child : Node σ} {a : Address}
    (henter : S.enter o e.action n key = (m, .ok a)) (hchild : m.get? a = some child)
    (h : S.Appends o e child rest) : S.Appends o e n (key :: rest) := by
  rcases h with ⟨v, elem, items, hv, hlist, hkey⟩
  refine ⟨v, elem, items, ?_, hlist, hkey⟩
  rw [List.length_cons, visited_succ henter hchild]
  exact hv

theorem lasting_nil (h : S.ByContent o (S.promote n).innermost e.key →
    S.FindsAgain o e n (S.perform o e n).1 e.key) : S.Lasting o e n [] := by
  intro i v key hv hkey hcontent
  cases i with
  | zero =>
      obtain rfl := Option.some.inj ((visited_zero n []).symm.trans hv)
      obtain rfl := Option.some.inj hkey
      exact h hcontent
  | succ i => simp at hkey

theorem lasting_cons {child : Node σ} {a : Address}
    (henter : S.enter o e.action n key = (m, .ok a)) (hchild : m.get? a = some child)
    (h : S.ByContent o (S.promote n).innermost key →
      S.FindsAgain o e n (S.walk o e n (key :: rest)).1 key)
    (hrest : S.Lasting o e child rest) : S.Lasting o e n (key :: rest) := by
  intro i v segment hv hsegment hcontent
  cases i with
  | zero =>
      obtain rfl := Option.some.inj ((visited_zero n _).symm.trans hv)
      obtain rfl := Option.some.inj hsegment
      exact h hcontent
  | succ i =>
      rw [visited_succ henter hchild] at hv
      exact hrest i v segment hv hsegment hcontent

/-- An event that writes a field of the element which a key describes, other than the
fields that the key names, finds the element again. -/
theorem Describes.lasting (hS : S.Sound loops) {owner field : String} {elem : Ty}
    {parsed : Key} {built : Node σ} {fields : List (Field × Node σ)} {j : Nat}
    (h : S.Describes o elem type text parsed built) (hf : S.ListField o owner field i elem)
    (hc : S.Typed loops c) (hrecord : c.container = .record owner fields)
    (haction : e.action ≠ .delete) (hleaf : S.slotOf? o false type e.key = .ok (j, ""))
    (hother : ¬ S.Names o type parsed e.key) (hok : (S.walk o e c [field ++ text]).2 = .ok ()) :
    S.Lasting o e c [field ++ text] := by
  have hfound : S.FindsAgain o e c (S.walk o e c [field ++ text]).1 (field ++ text) :=
    h.findsAgain hS hf hc hrecord haction rfl hother (Prod.ext rfl hok)
  rcases walk_cons_eq_ok (Prod.ext rfl hok) with ⟨m, a, child, -, henter, hchild, -, -, -⟩
  rcases h.record_of_enter hS hf hc hrecord haction henter hchild with ⟨others, hothers⟩
  have hready := ready_of_record hothers
  refine lasting_cons henter hchild (fun _ => hfound) (lasting_nil fun hcontent => ?_)
  rw [promote_of_ready hready, innermost_of_bare hready.bare] at hcontent
  exact absurd hcontent (not_byContent_field hothers hleaf)

/-- A key of a list that is neither empty nor a position describes its content. -/
theorem ofKey_of_not_appends (h : ¬ S.Appends o e n []) {elem : Ty} {items : List (Node σ)}
    (hlist : (S.promote n).innermost.container = .list elem items) :
    Mode.ofKey o e.key = .content := by
  have hempty : e.key.isEmpty = false := by
    rw [Bool.eq_false_iff]
    exact fun hempty => h ⟨n, elem, items, visited_zero n [], hlist, .inl hempty⟩
  have hindex : Mode.ofKey o e.key ≠ .index :=
    fun hindex => h ⟨n, elem, items, visited_zero n [], hlist, .inr hindex⟩
  rw [Mode.ofKey, hempty] at hindex ⊢
  simp only [Bool.false_eq_true, if_false] at hindex ⊢
  split
  · rfl
  · rename_i hplain
    rw [if_neg hplain] at hindex
    split
    · rename_i hposition
      exact absurd (if_pos hposition) hindex
    · rfl

/-! ## The leaf -/

/-- What was written into a field can be written again, and changes nothing. -/
theorem performField_again (hS : S.Sound loops) (hv : S.Typed loops v)
    (haction : e.action ≠ .delete) (h : S.performField o e text v = (w, .ok ()))
    (hlist : text.isEmpty = false → ∀ x elem items, w = (S.allocate v).withCore x → x.Bare →
      (S.allocate v).innermost.container = .list elem items →
        ∃ place, S.findItem o x text .content = .ok place ∧
          (S.createItem o (S.allocate v).innermost text .content).2 = .ok place.address) :
    S.performField o e text w = (w, .ok ()) := by
  rw [performField_of_ne haction] at h ⊢
  have h := ofNavigation_eq_ok h
  by_cases htext : text.isEmpty = true
  · rw [if_pos htext] at h ⊢
    rw [idempotent_put hS o e v w h]
    rfl
  · rw [if_neg htext] at h ⊢
    rcases hr : S.putItem o e (S.allocate v).innermost text .content with ⟨x, r⟩
    have hx := keeps_putItem hS (o := o) (e := e) (S.allocate v).innermost text .content
    rw [hr] at h hx
    obtain ⟨hw, rfl⟩ := Prod.mk.inj h
    have hw : w = (S.allocate v).withCore x := hw.symm
    have hbare : x.Bare := (S.bare_innermost_allocate v).of_ty_eq hx.ty_eq
    have hagain := putItem_again hS ((keeps_allocate hS v).typed hv).innermost hr
      fun elem items hitems =>
        ⟨rfl, hlist (Bool.eq_false_iff.2 htext) x elem items hw hbare hitems⟩
    rw [hw, S.allocate_of_isAllocated (isAllocated_withCore _ hbare), innermost_withCore _ hbare,
      hagain.1]
    exact Prod.ext (withCore_withCore _ hbare x) rfl

/-- A record that its own field was written to can be written again. -/
theorem perform_enclosing_again (hS : S.Sound loops) (hloops : S.LoopedDefaults)
    (hc : S.Typed loops c) (hd : S.Typed loops d) {fields others : List (Field × Node σ)}
    (hrecord : c.container = .record type fields) (hafter : d.container = .record type others)
    (haction : e.action ≠ .delete) (hslot : S.slotOf? o true type e.key = .ok (i, text))
    (hv : c.child? (.field i) = some v) (hself : v.isEnclosing = true)
    (h : S.perform o e c = (d, .ok ())) : S.perform o e d = (d, .ok ()) := by
  rw [perform_enclosing hc hrecord haction hslot hv hself] at h
  cases htext : text.isEmpty with
  | false =>
      rw [performField_record hrecord haction htext] at h
      simp at h
  | true =>
      have hput : S.put o e c = (d, .ok ()) := by
        rw [performField_of_ne haction, htext] at h
        exact ofNavigation_eq_ok h
      have hfind := find_record hd hafter o e.key (.ofKey o e.key)
      rw [slotOf_read hslot] at hfind
      rcases hfind with ⟨w, hw, -⟩
      have hstays : w.isEnclosing = true := by
        rcases put_record hS (o := o) (e := e) hloops hrecord with hsame | hanew
        · rw [hput] at hsame
          obtain rfl : d = c := hsame
          obtain rfl := Option.some.inj (hv.symm.trans hw)
          exact hself
        · rw [hput] at hanew
          exact hanew type others hafter i w (itself_of_isEnclosing hc hrecord hv hself) hw
      rw [perform_enclosing hd hafter haction hslot hw hstays]
      exact performField_again hS hc haction h fun hne => by simp [htext] at hne

/-- A record that another field was written to can be written again. -/
theorem perform_slot_again (hS : S.Sound loops) (hc : S.Typed loops c)
    (hd : S.Typed loops d) {fields others : List (Field × Node σ)}
    (hrecord : c.container = .record type fields) (hafter : d.container = .record type others)
    (haction : e.action ≠ .delete) (hslot : S.slotOf? o true type e.key = .ok (i, text))
    (hv : c.child? (.field i) = some v) (hself : v.isEnclosing = false)
    (hcontent : S.ByContent o c e.key → S.FindsAgain o e c d e.key)
    (h : c.putBack [.field i] (S.performField o e text v) = (d, .ok ())) :
    S.perform o e d = (d, .ok ()) := by
  have hread := slotOf_read hslot
  have hfield := keeps_performField hS (o := o) e text v
  rcases hr : S.performField o e text v with ⟨w, r⟩
  rw [hr] at h hfield
  rw [putBack_field hv] at h
  obtain ⟨rfl, rfl⟩ := Prod.mk.inj h
  have hw := child?_putChild hv hfield.ty_eq
  have hstays : w.isEnclosing = false := by
    rw [Bool.eq_false_iff]
    exact fun hloop => by simp [hfield.enclosing hloop] at hself
  have hagain : S.performField o e text w = (w, .ok ()) := by
    refine performField_again hS (hc.child hv) haction hr
      fun htext x elem items hx hbare hitems => ?_
    subst hx
    exact findsAgain_suffix hc hd haction hrecord hafter hread htext hv hself hw hbare hstays
      (hcontent (.suffix hrecord hread htext hv hitems))
  have hnext := perform_field (o := o) (e := e) hd hafter
  rw [hslot] at hnext
  rcases hnext with ⟨u, hu, hnext⟩
  obtain rfl := Option.some.inj (hw.symm.trans hu)
  rw [hnext hstays, hagain, putBack_field hw, hd.putChild_self hw]

theorem perform_record_again (hS : S.Sound loops) (hloops : S.LoopedDefaults)
    (hc : S.Typed loops c) {fields : List (Field × Node σ)}
    (hrecord : c.container = .record type fields) (haction : e.action ≠ .delete)
    (hcontent : S.ByContent o c e.key → S.FindsAgain o e c d e.key)
    (h : S.perform o e c = (d, .ok ())) : S.perform o e d = (d, .ok ()) ∧ Ready d := by
  have hkeeps := keeps_perform hS (o := o) e c
  rw [h] at hkeeps
  rcases record_of_keeps hkeeps hc hrecord with ⟨hd, others, hafter⟩
  refine ⟨?_, ready_of_record hafter⟩
  have hperform := perform_field (o := o) (e := e) hc hrecord
  cases hslot : S.slotOf? o true type e.key with
  | error err =>
      rw [hslot, h] at hperform
      simp at hperform
  | ok slot =>
      obtain ⟨i, text⟩ := slot
      rw [hslot] at hperform
      rcases hperform with ⟨v, hv, hperform⟩
      cases hself : v.isEnclosing with
      | true =>
          exact perform_enclosing_again hS hloops hc hd hrecord hafter haction hslot hv hself h
      | false =>
          rw [hperform hself] at h
          exact perform_slot_again hS hc hd hrecord hafter haction hslot hv hself hcontent h

theorem perform_item_again (hS : S.Sound loops) (hc : S.Typed loops c) (hready : Ready c)
    (hrecord : ∀ type fields, c.container ≠ .record type fields) (haction : e.action ≠ .delete)
    (hcontent : S.ByContent o c e.key → S.FindsAgain o e c d e.key)
    (hmode : ∀ elem items, c.container = .list elem items → Mode.ofKey o e.key = .content)
    (h : S.perform o e c = (d, .ok ())) : S.perform o e d = (d, .ok ()) ∧ Ready d := by
  have hkeeps := keeps_perform hS (o := o) e c
  rw [h] at hkeeps
  rw [perform_item haction hready hrecord] at h
  have hput := ofNavigation_eq_ok h
  have hother : ∀ type fields, d.container ≠ .record type fields := by
    intro type fields heq
    rcases eq_record_of_container heq with ⟨state, rfl⟩
    have hty := hkeeps.ty_eq
    rcases items_of_putItem hput with ⟨kind, elem, entries, hmap⟩ | ⟨elem, items, hlist⟩
    · rcases eq_map_of_container hmap with ⟨order, rfl⟩ | ⟨-, -, others, rfl⟩ <;> simp [ty] at hty
    · rcases eq_list_of_container hlist with rfl | ⟨-, others, -, rfl⟩ <;> simp [ty] at hty
  have hfound : ∀ elem items, c.container = .list elem items → Mode.ofKey o e.key = .content ∧
      ∃ place, S.findItem o d e.key .content = .ok place ∧
        (S.createItem o c e.key .content).2 = .ok place.address := by
    intro elem items hlist
    have hitem := findsAgain_item hready haction hrecord (hready.bare.of_ty_eq hkeeps.ty_eq) hother
      (hcontent (.element hlist (hmode elem items hlist)))
    rw [hmode elem items hlist] at hitem
    exact ⟨hmode elem items hlist, hitem⟩
  rcases putItem_again hS hc hput hfound with ⟨hagain, hd⟩
  rw [perform_item haction hd hother, hagain]
  exact ⟨rfl, hd⟩

/-- What an event wrote at its leaf it can write again, and changes nothing. -/
theorem perform_again (hS : S.Sound loops) (hloops : S.LoopedDefaults) (hn : S.Typed loops n)
    (haction : e.action ≠ .delete)
    (hcontent : S.ByContent o (S.promote n).innermost e.key → S.FindsAgain o e n m e.key)
    (hmode : ∀ elem items, (S.promote n).innermost.container = .list elem items →
      Mode.ofKey o e.key = .content)
    (h : S.perform o e n = (m, .ok ())) : S.perform o e m = (m, .ok ()) := by
  have hready := S.ready_innermost_promote n
  have hc := ((keeps_promote hS n).typed hn).innermost
  have hkeeps := keeps_perform hS (o := o) e (S.promote n).innermost
  have hbelow := perform_withCore (S := S) (o := o) (e := e) hready.bare (fun _ => hready)
    (S.promote n)
  rw [withCore_innermost, perform_promote haction, h] at hbelow
  rcases hr : S.perform o e (S.promote n).innermost with ⟨d, r⟩
  rw [hr] at hbelow hkeeps
  obtain ⟨rfl, rfl⟩ := Prod.mk.inj hbelow
  have hbare : d.Bare := hready.bare.of_ty_eq hkeeps.ty_eq
  rw [findsAgain_withCore hS haction n hbare] at hcontent
  have hagain : S.perform o e d = (d, .ok ()) ∧ Ready d := by
    by_cases hrecord : ∃ type fields, (S.promote n).innermost.container = .record type fields
    · rcases hrecord with ⟨type, fields, hrecord⟩
      exact perform_record_again hS hloops hc hrecord haction hcontent hr
    · exact perform_item_again hS hc hready (fun type fields heq => hrecord ⟨type, fields, heq⟩)
        haction hcontent hmode hr
  rw [perform_withCore hbare (fun _ => hagain.2), hagain.1]

/-! ## The way -/

/-- A first step that comes back to a new record ends the next walk. -/
theorem walk_cycle_again (hS : S.Sound loops) (hloops : S.LoopedDefaults) (hn : S.Typed loops n)
    (haction : e.action ≠ .delete) (hfresh : n.isAllocated = false) {child : Node σ} {a : Address}
    (henter : S.enter o e.action n key = (m, .ok a)) (hchild : m.get? a = some child)
    (hcycle : a ++ child.coreAddress = m.coreAddress) (rest : List String) :
    (S.walk o e (m.replaceAt a (S.walk o e child rest).1) (key :: rest)).1 =
      m.replaceAt a (S.walk o e child rest).1 := by
  have hready := S.ready_innermost_promote n
  have hc := ((keeps_promote hS n).typed hn).innermost
  have hbare := bare_of_enter hS haction henter hchild
  rcases enter_eq_ok hS haction henter with ⟨r, b, hstep, hinside, rfl, rfl⟩
  have hb : b = [] := by
    rw [coreAddress_withCore _ hinside, coreAddress_of_bare hbare, List.append_nil] at hcycle
    exact List.append_right_eq_self.1 hcycle
  subst hb
  rw [get?_withCore_append] at hchild
  obtain rfl := Option.some.inj hchild
  rcases exists_enclosing_of_enter hS hc hready haction hstep with
    ⟨rfl, type, fields, i, text, v, hrecord, hslot, hv, hself⟩
  have hlooped := looped_walk hS hloops hc (looped_promote hloops hfresh) hrecord haction rest
    (o := o)
  rcases record_of_keeps (keeps_walk hS (o := o) e _ rest) hc hrecord with ⟨hd, others, hafter⟩
  have hfind := find_record hd hafter o key (.ofKey o key)
  rw [hslot] at hfind
  rcases hfind with ⟨w, hw, -⟩
  have hstays := hlooped type others hafter i w (itself_of_isEnclosing hc hrecord hv hself) hw
  rcases walk_enclosing hd hafter haction hslot hw hstays rest with ⟨err, hwalk⟩
  have hnext := ready_of_record hafter
  rw [withCore_replaceAt_append, replaceAt, walk_withCore hS hnext.bare (fun _ => hnext), hwalk]

/-- A step along a key that finds again goes on in what was changed before. -/
theorem walk_step_again (hS : S.Sound loops) (hn : S.Typed loops n) (haction : e.action ≠ .delete)
    {child : Node σ} {a : Address} (henter : S.enter o e.action n key = (m, .ok a))
    (hchild : m.get? a = some child) (haway : a ++ child.coreAddress ≠ m.coreAddress)
    (hw : S.Keeps loops child w) (hagain : S.walk o e w rest = (w, .ok ()))
    (hfound : S.FindsAgain o e n (m.replaceAt a w) key) :
    S.walk o e (m.replaceAt a w) (key :: rest) = (m.replaceAt a w, .ok ()) := by
  have hopened := keeps_enter hS (o := o) e.action n key
  have halloc := isAllocated_enter hS (o := o) haction n key
  rw [henter] at hopened halloc
  have hbare := bare_of_enter hS haction henter hchild
  have hwbare : w.Bare := hbare.of_ty_eq hw.ty_eq
  have hput := Keeps.replaceAt hchild hw
  have htyped := hput.typed (hopened.typed hn)
  have hget : (m.replaceAt a w).get? a = some w := by
    have hget := get?_replaceAt_append hchild hw.ty_eq []
    rwa [List.append_nil] at hget
  have hthere : (m.replaceAt a w).isAllocated = true := by
    rcases hfound with ⟨place, hfind, -⟩
    exact isAllocated_of_find hfind
  have hlayers := coreAddress_of_ty halloc hthere hput.ty_eq
  rw [walk, enter_of_findsAgain htyped haction hfound (congrArg Prod.snd henter) hget hwbare]
  simp only [hget]
  rw [if_neg, hagain, putBack_self htyped hget]
  rw [hlayers, coreAddress_of_bare hwbare]
  rw [coreAddress_of_bare hbare] at haway
  exact fun hself => haway hself.2

/-- An event that walked a path can walk it again, and changes nothing. -/
theorem walk_again (hS : S.Sound loops) (hloops : S.LoopedDefaults) (hn : S.Typed loops n)
    (haction : e.action ≠ .delete) (hlasting : S.Lasting o e n path)
    (hends : ¬ S.Appends o e n path) (h : S.walk o e n path = (m, .ok ())) :
    (S.walk o e m path).1 = m ∧ (n.isAllocated = true → (S.walk o e m path).2 = .ok ()) := by
  induction path generalizing n m with
  | nil =>
      have hagain : S.perform o e m = (m, .ok ()) := by
        refine perform_again hS hloops hn haction (fun hcontent => ?_)
          (fun elem items hlist => ofKey_of_not_appends hends hlist) h
        have hfound := hlasting 0 n e.key (visited_zero n []) rfl hcontent
        rwa [List.drop_zero, h] at hfound
      rw [walk, hagain]
      exact ⟨rfl, fun _ => rfl⟩
  | cons key rest ih =>
      have hfound := hlasting 0 n key (visited_zero n (key :: rest)) rfl
      rw [List.drop_zero, h] at hfound
      rcases walk_cons_eq_ok h with ⟨r, a, child, w, henter, hchild, hcycle, hw, rfl⟩
      have hopened := keeps_enter hS (o := o) e.action n key
      have hbelow := keeps_walk hS (o := o) e child rest
      rw [henter] at hopened
      rw [hw] at hbelow
      rcases ih ((hopened.typed hn).get hchild) (lasting_succ hlasting henter hchild)
        (fun happends => hends (appends_succ henter hchild happends)) hw with ⟨hstays, hok⟩
      have hthere := isAllocated_of_bare (bare_of_enter hS haction henter hchild)
      have hagain : S.walk o e w rest = (w, .ok ()) := Prod.ext hstays (hok hthere)
      by_cases hself : a ++ child.coreAddress = r.coreAddress
      · have hfresh : n.isAllocated = false := by
          rw [Bool.eq_false_iff]
          exact fun halloc => hcycle ⟨halloc, hself⟩
        have hback := walk_cycle_again hS hloops hn haction hfresh henter hchild hself rest
        rw [hw] at hback
        exact ⟨hback, fun halloc => by simp [hfresh] at halloc⟩
      · have hlands : S.FindsAgain o e n (r.replaceAt a w) key := by
          by_cases hcontent : S.ByContent o (S.promote n).innermost key
          · exact hfound hcontent
          · exact findsAgain_of_step hS hn haction hcontent henter hchild hself hbelow
        rw [walk_step_again hS hn haction henter hchild hself hbelow hagain hlands]
        exact ⟨rfl, fun _ => rfl⟩

/-! ## The event -/

/-- A literal that was written into the scalar of a root can be written again. -/
theorem setLiteral_again {slot : Slot} (hn : (S.allocate n).innermost = .scalar slot)
    (h : S.setLiteral (S.allocate n) text = (m, .ok ())) :
    ∃ written, m.isAllocated = true ∧ m.innermost = .scalar written ∧
      S.setLiteral m text = (m, .ok ()) := by
  have halloc := S.isAllocated_allocate n
  rw [setLiteral, S.allocate_of_isAllocated halloc] at h
  simp only [hn] at h
  cases hset : (Node.setScalar slot (.text text) : Except NavError (Node σ)) with
  | error err => simp [hset] at h
  | ok c =>
      rcases setScalar_again hset with ⟨written, rfl, hagain⟩
      have hbare : (Node.scalar written : Node σ).Bare := Kind.noConfusion
      rw [hset] at h
      obtain ⟨rfl, -⟩ := Prod.mk.inj h
      have hcore := innermost_withCore (S.allocate n) hbare
      have hthere := isAllocated_withCore (S.allocate n) hbare
      refine ⟨written, hthere, hcore, ?_⟩
      change S.setLiteral ((S.allocate n).withCore _) text = _
      rw [setLiteral, S.allocate_of_isAllocated hthere]
      simp only [hcore, hagain]
      exact Prod.ext (withCore_withCore _ hbare _) rfl

/-- An event at the root can be applied again, and changes nothing. -/
theorem applyRoot_again (haction : e.action ≠ .delete) (h : S.applyRoot e n = (m, .ok ())) :
    S.applyRoot e m = (m, .ok ()) := by
  cases htag : e.tag with
  | scalar tag =>
      have halloc := S.isAllocated_allocate n
      rw [applyRoot_scalar haction htag] at h ⊢
      cases hinner : (S.allocate n).innermost with
      | dynamic doc =>
          have hbare : (Node.dynamic (tag.document e.value) : Node σ).Bare := Kind.noConfusion
          rw [hinner] at h
          obtain ⟨rfl, -⟩ := Prod.mk.inj h
          rw [S.allocate_of_isAllocated (isAllocated_withCore _ hbare), innermost_withCore _ hbare]
          exact Prod.ext (withCore_withCore _ hbare _) rfl
      | scalar slot =>
          rw [hinner] at h
          rcases setLiteral_again hinner (ofNavigation_eq_ok h) with
            ⟨written, hthere, hcore, hagain⟩
          rw [S.allocate_of_isAllocated hthere, hcore, hagain]
          rfl
      | _ =>
          rw [hinner] at h
          obtain ⟨rfl, -⟩ := Prod.mk.inj h
          rw [S.allocate_of_isAllocated halloc, hinner]
  | _ => exact applyRoot_idle (fun hwrites => by simp [Event.WritesScalar, htag] at hwrites) m

/-! ## A port of a switch -/

/-- An event that goes on in one port of a switch. -/
def mtuOfPort : Event := ⟨.create, ["ports[name=eth0]"], "mtu", .scalar .int, "1500", none⟩

theorem loopedDefaults_switch : switch.LoopedDefaults := by
  intro d hd f hf hself
  rcases List.mem_cons.1 hd with rfl | hd
  · rcases List.mem_cons.1 hf with rfl | hf
    · exact Ty.noConfusion (show Ty.scalar .string = .record "Port" from hself)
    · obtain rfl := List.mem_singleton.1 hf
      exact Ty.noConfusion (show Ty.scalar (.int .u16) = .record "Port" from hself)
  · obtain rfl := List.mem_singleton.1 hd
    obtain rfl := List.mem_singleton.1 hf
    exact Ty.noConfusion
      (show Ty.option (.list (.record "Port")) = .record "Switch" from hself)

/-- A step along the key of a port makes it in a new switch. -/
theorem enter_eth0 :
    switch.enter {} mtuOfPort.action (switch.zero (.record "Switch")) "ports[name=eth0]" =
      ((switch.zero (.record "Switch")).putChild (.field 0)
          (.present (.list (.record "Port") [port "eth0"])),
        .ok [.field 0, .pointee, .element 0]) := by
  have htyped := typed_zero sound_switch (.record "Switch")
  have hready : Ready (switch.zero (.record "Switch")) := ready_of_record rfl
  have hkey : "ports" ++ "[name=eth0]" = "ports[name=eth0]" := by decide
  have hslot := listField_ports.slotOf_append describes_eth0.bracketed
  rw [hkey] at hslot
  have hchild : (switch.zero (.record "Switch")).child? (.field 0) =
    some (.absent (.list (.record "Port"))) := by rfl
  have hmade := createChild_slot htyped rfl hslot hchild rfl (Mode.ofKey {} "ports[name=eth0]")
  have hitem : switch.createItem {} (.list (.record "Port") []) "[name=eth0]" .content =
      (.list (.record "Port") [port "eth0"], .ok [.element 0]) :=
    describes_eth0.createItem_list []
  have hinner : (switch.allocate (.absent (.list (.record "Port")))).innermost =
      .list (.record "Port") [] := by rfl
  have hempty : "[name=eth0]".isEmpty = false := by decide
  rw [hempty, hinner, hitem] at hmade
  rw [enter_create hready (by decide), hmade]
  rfl

/-! ## A list of plain keys -/

section Plain

variable {items : List Document}

theorem get?_concat (items : List Document) (d : Document) :
    (Node.dynamic (.seq (items ++ [d])) : Node σ).get? [.element items.length] =
      some (.dynamic d) := by
  simp [Node.get?, child?]

theorem replaceAt_concat (items : List Document) (before after : Document) :
    (Node.dynamic (.seq (items ++ [before])) : Node σ).replaceAt [.element items.length]
      (.dynamic after) = .dynamic (.seq (items ++ [after])) := by
  simp [replaceAt, child?, putChild]

/-- A step along a plain key appends a text to a list of documents which holds none that
equals it. -/
theorem enter_plain (hplain : Key.isStructured key = false) (hempty : key.isEmpty = false)
    (hmode : Mode.ofKey o key = .content) {action : Action} (haction : action ≠ .delete)
    (hother : ∀ d ∈ items, (Node.dynamic d : Node σ).same (.dynamic (.text key)) = false) :
    S.enter o action (.dynamic (.seq items)) key =
      (.dynamic (.seq (items ++ [.text key])), .ok [.element items.length]) := by
  have hnone : (items.map Node.dynamic).findIdx?
      (fun item : Node σ => item.same (.dynamic (.text key))) = none := by
    rw [List.findIdx?_eq_none_iff]
    intro item hitem
    rcases List.mem_map.1 hitem with ⟨d, hd, rfl⟩
    exact hother d hd
  have hlocate : S.locate o .dynamic (items.map Node.dynamic) key .content = .ok none := by
    rw [locate, matchIndex_of_plain hplain (build_plain hplain), hnone, Key.require, hempty]
    rfl
  have happend : S.createChild o (.dynamic (.seq items)) key .content =
      (.dynamic (.seq (items ++ [.text key])), .ok [.element items.length]) := by
    simp only [createChild, createItem, container, locateOrAppend, hlocate, hempty,
      build_plain hplain, List.length_map, append, reduceCtorEq, if_false, Bool.false_eq_true]
    rfl
  have hready : Ready (Node.dynamic (.seq items) : Node σ) := ⟨Kind.noConfusion, rfl⟩
  rw [enter_create hready haction, hmode, happend]
  simp only [get?_concat, allocate, coreAddress, replaceAt_concat]
  rfl

end Plain

/-- An event that goes on in the element of a list that a plain key describes. -/
def mtuOfPlain : Event := ⟨.create, ["list", "eth0"], "mtu", .scalar .int, "1500", none⟩

/-- A document with one list. -/
def listOf (items : List Document) : Node Unit := .dynamic (.map [("list", .seq items)])

/-- What the event makes of the element that it appends. -/
def plainMtu : Document := .map [("mtu", .int 1500)]

/-- The event appends what it makes, unless a text is there that the key spells. -/
theorem apply_plain {items : List Document} (hordered : ∀ d ∈ items, d.Ordered)
    (hother : ∀ d ∈ items, (Node.dynamic d : Node Unit).same (.dynamic (.text "eth0")) = false) :
    (empty ()).apply {} mtuOfPlain (listOf items) = (listOf (items ++ [plainMtu]), .ok ()) := by
  have htyped : (empty ()).Typed False (listOf items) := by
    refine .dynamic (.map (by simp [Entries.Ascending]) fun f hf => ?_)
    obtain rfl := List.mem_singleton.1 hf
    exact .seq hordered
  have hlist : (empty ()).enter {} mtuOfPlain.action (listOf items) "list" =
      (listOf items, .ok [.entry (.text "list")]) := by rfl
  have hget : (listOf items).get? [.entry (.text "list")] = some (.dynamic (.seq items)) := by rfl
  have hitem : (empty ()).enter {} mtuOfPlain.action (.dynamic (.seq items)) "eth0" =
      (.dynamic (.seq (items ++ [.text "eth0"])), .ok [.element items.length]) :=
    enter_plain (by decide) (by decide) (by decide +kernel) (by decide) hother
  have hleaf : (empty ()).perform {} mtuOfPlain (.dynamic (.text "eth0")) =
      (.dynamic plainMtu, .ok ()) := by rfl
  have hpath : mtuOfPlain.path = ["list", "eth0"] := rfl
  rw [apply_of_silent htyped (silent_dynamic _) rfl, hpath, walk, hlist]
  simp only [hget]
  rw [if_neg (by simp [listOf, coreAddress]), walk, hitem]
  simp only [get?_concat]
  rw [if_neg (by simp [coreAddress]), walk, hleaf, putBack, putBack, replaceAt_concat]
  rfl

/-! ## Twice -/

/-- Creating is idempotent as long as content keys last: an event that was accepted
leaves the target as it is when it is applied again, if every key of it that describes
an element of a list finds after the first time the element that it led to.  Events
that address the list they end at by an empty key or by a position always append. -/
theorem apply_again (hS : S.Sound loops) (hloops : S.LoopedDefaults) (hfree : S.OverrideFree)
    {target : Node σ} (htarget : S.Typed loops target) (haction : e.action ≠ .delete)
    (hlasting : S.Lasting o e target e.path)
    (hends : e.isRoot = false → ¬ S.Appends o e target e.path)
    (h : (S.apply o e target).2 = .ok ()) :
    (S.apply o e (S.apply o e target).1).1 = (S.apply o e target).1 := by
  by_cases hroot : e.isRoot = true
  · have happly : ∀ n, S.apply o e n = S.applyRoot e n := fun n => by rw [apply, if_pos hroot]
    rw [happly] at h ⊢
    rw [happly, applyRoot_again haction (Prod.ext rfl h)]
  · have hroot := Bool.eq_false_iff.2 hroot
    have hafter := (keeps_walk hS (o := o) e target e.path).typed htarget
    rw [apply_of_silent htarget (hfree.silent target) hroot] at h ⊢
    rw [apply_of_silent hafter (hfree.silent _) hroot]
    exact (walk_again hS hloops htarget haction hlasting (hends hroot) (Prod.ext rfl h)).1

/-- The MTU of a port is written when the event makes the port, and stays when the event
arrives a second time. -/
theorem apply_again_switch :
    (switch.apply {} mtuOfPort (switch.zero (.record "Switch"))).2 = .ok () ∧
      (switch.apply {} mtuOfPort
          (switch.apply {} mtuOfPort (switch.zero (.record "Switch"))).1).1 =
        (switch.apply {} mtuOfPort (switch.zero (.record "Switch"))).1 := by
  have htyped := typed_zero sound_switch (.record "Switch")
  have hpath : mtuOfPort.path = ["ports" ++ "[name=eth0]"] := rfl
  have hleaf : switch.slotOf? {} false "Port" mtuOfPort.key = .ok (1, "") := by rfl
  have hwalk : (switch.walk {} mtuOfPort (switch.zero (.record "Switch")) mtuOfPort.path).2 =
      .ok () := by
    rw [show mtuOfPort.path = ["ports[name=eth0]"] from rfl, walk, enter_eth0]
    rfl
  have hok : (switch.apply {} mtuOfPort (switch.zero (.record "Switch"))).2 = .ok () := by
    rw [apply_of_silent htyped (overrideFree_switch.silent _) rfl, hwalk]
  refine ⟨hok, apply_again sound_switch loopedDefaults_switch overrideFree_switch htyped
    (by decide) ?_ ?_ hok⟩
  · rw [hpath] at hwalk ⊢
    exact describes_eth0.lasting sound_switch listField_ports htyped rfl (by decide) hleaf
      not_names_mtu hwalk
  · rintro - ⟨-, -, -, -, -, hempty | hindex⟩
    · exact absurd hempty (by decide)
    · exact absurd hindex (by decide +kernel)

/-- A plain key of a list of documents does not last: the element that it made is no
text any more once the event went on in it, and the event makes another one when it
arrives again. -/
theorem apply_plain_grows :
    (empty ()).OverrideFree ∧
      ¬ (empty ()).Appends {} mtuOfPlain (listOf []) mtuOfPlain.path ∧
      (empty ()).apply {} mtuOfPlain (listOf []) = (listOf [plainMtu], .ok ()) ∧
      (empty ()).apply {} mtuOfPlain (listOf [plainMtu]) = (listOf [plainMtu, plainMtu], .ok ()) ∧
      listOf [plainMtu] ≠ listOf [plainMtu, plainMtu] := by
  have hordered : ∀ d ∈ [plainMtu], d.Ordered := by
    intro d hd
    obtain rfl := List.mem_singleton.1 hd
    refine .map (by simp [Entries.Ascending]) fun f hf => ?_
    obtain rfl := List.mem_singleton.1 hf
    exact .leaf rfl
  refine ⟨?_, ?_, ?_, ?_, ?_⟩
  · exact fun d hd => absurd hd List.not_mem_nil
  · rintro ⟨-, -, -, -, -, hempty | hindex⟩
    · exact absurd hempty (by decide)
    · exact absurd hindex (by decide +kernel)
  · exact apply_plain (List.forall_mem_nil _) (List.forall_mem_nil _)
  · refine apply_plain hordered fun d hd => ?_
    obtain rfl := List.mem_singleton.1 hd
    rw [plainMtu, Node.same, Document.same]
    rfl
  · simp [listOf]

end Schema

end TreeSync
