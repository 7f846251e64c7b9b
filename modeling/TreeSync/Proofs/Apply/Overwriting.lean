import TreeSync.Proofs.Apply.Commuting
import TreeSync.Proofs.Apply.Repeating

/-!
# The last writer

Of two events that write the same scalar or document only the later one is seen.
The earlier one may have made the way there, may have replaced a whole document, or
may have failed at its literal with the way made: the later event finds or makes the
same way, and what it writes does not depend on what it writes over.

Main definitions and results:

- `Overwrites`: a change that hides an earlier one.
- `Node.HoldsValue` and `Schema.LeadsToSlot`: slots of one value, and the way there.
- `Schema.overwrites_put`, `Schema.overwrites_putItem`: slots and entries.
- `Schema.walk_overwrites`: the leaf, and the induction along the way.
- `Schema.apply_last`: the last writer wins.
-/

namespace TreeSync

open Node

variable {σ ε : Type}

/-- The keys from the root to the slot that an event addresses. -/
def Event.slotKeys (e : Event) : List String :=
  if e.isRoot then [] else e.address

/-! ## Hidden changes -/

/-- After the change `first` the change `last` has the outcome that it has alone, and
where it succeeds it leaves the node that it leaves alone. -/
structure Overwrites (first last : Node σ → Node σ × Except ε Unit) (n : Node σ) : Prop where
  outcome : (last (first n).1).2 = (last n).2
  node : (last n).2 = .ok () → (last (first n).1).1 = (last n).1

namespace Overwrites

variable {first last : Node σ → Node σ × Except ε Unit} {n : Node σ}

/-- A change that changes nothing is hidden. -/
theorem of_same (h : (first n).1 = n) : Overwrites first last n := by
  constructor
  · rw [h]
  · intro _
    rw [h]

theorem congr {f g : Node σ → Node σ × Except ε Unit} (h : Overwrites f g n)
    (hfirst : first n = f n) (hlast : last n = g n) (hafter : last (f n).1 = g (f n).1) :
    Overwrites first last n := by
  constructor
  · rw [hfirst, hafter, hlast]
    exact h.outcome
  · rw [hfirst, hafter, hlast]
    exact h.node

/-- Creating changes that hide each other in a child do so in the container. -/
theorem carried {left right : Event} (hleft : left.action ≠ .delete)
    (hright : right.action ≠ .delete) :
    Carried left right (Overwrites (σ := σ) (ε := ε)) := by
  intro around fits f g f' g' n v hf hg h
  have hfn := hf.begin hleft
  have hgn := hg.begin hright
  constructor
  · rw [hfn, hgn, hg.outcome hright _ hf.stays]
    exact h.outcome
  · intro hok
    rw [hgn] at hok ⊢
    rw [hfn, hg.node _ hf.stays, h.node hok]

theorem ofNavigation {first last : Node σ → Node σ × Except NavError Unit}
    (h : Overwrites first last n) :
    Overwrites (fun n => Schema.ofNavigation (first n)) (fun n => Schema.ofNavigation (last n))
      n := by
  constructor
  · exact congrArg (Except.mapError SyncError.navigation) h.outcome
  · intro hok
    exact h.node (congrArg Prod.snd (Schema.ofNavigation_eq_ok (Prod.ext rfl hok)))

/-- Changes of the bare part below the layers of a node. -/
theorem below {S : Schema σ} {f g : Node σ → Node σ × Except ε Unit}
    (hfirst : ∀ n, first n =
      ((S.allocate n).withCore (f (S.allocate n).innermost).1, (f (S.allocate n).innermost).2))
    (hlast : ∀ n, last n =
      ((S.allocate n).withCore (g (S.allocate n).innermost).1, (g (S.allocate n).innermost).2))
    (hbare : (f (S.allocate n).innermost).1.Bare)
    (h : Overwrites f g (S.allocate n).innermost) : Overwrites first last n := by
  have hafter : last (first n).1 =
      ((S.allocate n).withCore (g (f (S.allocate n).innermost).1).1,
        (g (f (S.allocate n).innermost).1).2) := by
    rw [hlast, hfirst, S.allocate_of_isAllocated (isAllocated_withCore _ hbare),
      innermost_withCore _ hbare]
    exact Prod.ext (withCore_withCore _ hbare _) rfl
  constructor
  · rw [hafter, hlast]
    exact h.outcome
  · intro hok
    rw [hlast n] at hok ⊢
    rw [hafter, h.node hok]

end Overwrites

namespace Node

/-- The node is a slot of one value: a scalar or a document. -/
def HoldsValue : Node σ → Prop
  | scalar _ | dynamic _ => True
  | _ => False

end Node

namespace Schema

variable {S : Schema σ} {o : Options} {n c v : Node σ} {key : String} {first last : Event}

/-! ## Slots -/

/-- A node without layers after writing a literal into it. -/
def writeCore (S : Schema σ) (o : Options) (text : String) (document : Option Document)
    (c : Node σ) : Node σ × Except NavError Unit :=
  match S.assignLiteral o c text document with
  | .ok d => (d, .ok ())
  | .error err => (c, .error err)

theorem setSlot_literal (S : Schema σ) (o : Options) (text : String)
    (document : Option Document) (n : Node σ) :
    S.setSlot o n (.literal text document) =
      ((S.allocate n).withCore (S.writeCore o text document (S.allocate n).innermost).1,
        (S.writeCore o text document (S.allocate n).innermost).2) := by
  rw [setSlot, writeCore]
  cases hwritten : S.assignLiteral o (S.allocate n).innermost text document with
  | ok d => rfl
  | error err => exact Prod.ext (withCore_innermost _).symm rfl

/-- What is written into a scalar slot depends only on the kind of the slot, and what is
written into a document only on the literal. -/
theorem assignLiteral_after {text : String} {document : Option Document} {d : Node σ}
    (hc : c.HoldsValue) (h : S.assignLiteral o c text document = .ok d) :
    d.HoldsValue ∧ ∀ text' document',
      S.assignLiteral o d text' document' = S.assignLiteral o c text' document' := by
  cases c with
  | scalar slot =>
      rw [assignLiteral, Node.setScalar] at h
      split at h
      · rename_i written hwritten
        obtain rfl := Except.ok.inj h
        refine ⟨trivial, fun text' document' => ?_⟩
        rw [assignLiteral, assignLiteral, Node.setScalar, Node.setScalar, Slot.set, Slot.set,
          kind_of_ofScalar hwritten]
      · simp at h
  | dynamic doc =>
      obtain rfl := Except.ok.inj h
      exact ⟨trivial, fun _ _ => rfl⟩
  | _ => exact hc.elim

theorem bare_of_holdsValue (hc : c.HoldsValue) : c.Bare := by
  cases c with
  | scalar slot => exact Kind.noConfusion
  | dynamic doc => exact Kind.noConfusion
  | _ => exact hc.elim

theorem holdsValue_writeCore (text : String) (document : Option Document) (hc : c.HoldsValue) :
    (S.writeCore o text document c).1.HoldsValue := by
  rw [writeCore]
  cases hwritten : S.assignLiteral o c text document with
  | error err => exact hc
  | ok d => exact (assignLiteral_after hc hwritten).1

theorem overwrites_writeCore {text text' : String} {document document' : Option Document}
    (hc : c.HoldsValue) :
    Overwrites (S.writeCore o text document) (S.writeCore o text' document') c := by
  cases hfirst : S.assignLiteral o c text document with
  | error err =>
      refine .of_same ?_
      rw [writeCore, hfirst]
  | ok d =>
      have hd : (S.writeCore o text document c).1 = d := by rw [writeCore, hfirst]
      have hagain := (assignLiteral_after hc hfirst).2 text' document'
      constructor
      · rw [hd, writeCore, writeCore, hagain]
        cases S.assignLiteral o c text' document' <;> rfl
      · intro hok
        rw [hd, writeCore, writeCore, hagain]
        rw [writeCore] at hok
        cases hlast : S.assignLiteral o c text' document' with
        | ok d => rfl
        | error err => simp [hlast] at hok

theorem put_scalar {e : Event} {tag : ScalarTag} (htag : e.tag = .scalar tag) (n : Node σ) :
    S.put o e n =
      ((S.allocate n).withCore
          (S.writeCore o e.value (some (e.tag.document e.value)) (S.allocate n).innermost).1,
        (S.writeCore o e.value (some (e.tag.document e.value)) (S.allocate n).innermost).2) := by
  rw [← setSlot_literal, put, htag]
  rfl

/-- A slot of one value stays one. -/
theorem holdsValue_put {e : Event} {tag : ScalarTag} (htag : e.tag = .scalar tag)
    (h : (S.allocate n).innermost.HoldsValue) :
    (S.allocate (S.put o e n).1).innermost.HoldsValue := by
  have hcore := holdsValue_writeCore (S := S) (o := o) e.value (some (e.tag.document e.value)) h
  have hbare := bare_of_holdsValue hcore
  rw [put_scalar htag, S.allocate_of_isAllocated (isAllocated_withCore _ hbare),
    innermost_withCore _ hbare]
  exact hcore

/-- Of two scalars that are written into a slot only the later one is seen. -/
theorem overwrites_put {tag tag' : ScalarTag} (hfirst : first.tag = .scalar tag)
    (hlast : last.tag = .scalar tag') (h : (S.allocate n).innermost.HoldsValue) :
    Overwrites (S.put o first) (S.put o last) n :=
  .below (put_scalar hfirst) (put_scalar hlast) (bare_of_holdsValue (holdsValue_writeCore _ _ h))
    (overwrites_writeCore h)

/-! ## Entries -/

section Map

variable {kind : KeyKind} {elem : Ty} {entries : List (MapKey × Node σ)} {k : MapKey}
  {text : String}

/-- A change of an entry has the outcome that it has at the entry, or at the new one that
is made in its place.  A new entry is not stored if the change fails. -/
theorem changeEntry_slotEntry (act : Node σ → Node σ × Except NavError Unit)
    (hmap : c.container = .map kind elem entries) :
    (changeEntry c k (slotEntry act (S.zero elem))).2 = (act (S.entryOrNew elem c k)).2 ∧
      ((changeEntry c k (slotEntry act (S.zero elem))).1 =
          c.putChild (.entry k) (act (S.entryOrNew elem c k)).1 ∨
        (changeEntry c k (slotEntry act (S.zero elem))).1 = c ∧
          (act (S.entryOrNew elem c k)).2 ≠ .ok ()) := by
  rw [changeEntry, entryOrNew]
  cases hv : c.child? (.entry k) with
  | some v => exact ⟨rfl, .inl rfl⟩
  | none =>
      rw [Option.getD_none]
      rcases hmade : act (S.zero elem) with ⟨w, err | _⟩
      · simp only [slotEntry, hmade]
        exact ⟨trivial, .inr ⟨alterEntry_none hmap hv, by simp⟩⟩
      · simp only [slotEntry, hmade]
        exact ⟨trivial, .inl rfl⟩

theorem overwrites_changeEntry {f g : Node σ → Node σ × Except NavError Unit}
    (hmap : c.container = .map kind elem entries) (hk : kind.Admits k)
    (hty : (S.entryOrNew elem c k).ty = elem) (hf : ∀ v, (f v).1.ty = v.ty)
    (hg : ∀ v, (g v).1.ty = v.ty) (h : Overwrites f g (S.entryOrNew elem c k)) :
    Overwrites (changeEntry · k (slotEntry f (S.zero elem)))
      (changeEntry · k (slotEntry g (S.zero elem))) c := by
  rcases changeEntry_slotEntry (S := S) (k := k) f hmap with ⟨-, hstored | ⟨hsame, -⟩⟩
  · have hw := (hf (S.entryOrNew elem c k)).trans hty
    have hafter : changeEntry (c.putChild (.entry k) (f (S.entryOrNew elem c k)).1) k
        (slotEntry g (S.zero elem)) =
          (c.putChild (.entry k) (g (f (S.entryOrNew elem c k)).1).1,
            (g (f (S.entryOrNew elem c k)).1).2) := by
      rw [changeEntry, child?_putEntry hmap hk hw]
      exact Prod.ext (putEntry_putEntry hmap k hw ((hg _).trans hw)) rfl
    rcases changeEntry_slotEntry (S := S) (k := k) g hmap with ⟨houtcome, hlast⟩
    constructor
    · simp only [hstored, hafter, houtcome]
      exact h.outcome
    · intro hok
      rw [houtcome] at hok
      rcases hlast with hlast | ⟨-, hfails⟩
      · simp only [hstored, hafter, hlast, h.node hok]
      · exact absurd hok hfails
  · exact .of_same hsame

/-- Of two scalars that are written into an entry only the later one is seen. -/
theorem overwrites_putItem (hS : S.Sound False) (hc : S.Typed False c)
    {tag tag' : ScalarTag} (hfirst : first.tag = .scalar tag)
    (hlast : last.tag = .scalar tag') (hmap : c.container = .map kind elem entries)
    (hk : entryKey kind text = .ok k)
    (hvalue : (S.allocate (S.entryOrNew elem c k)).innermost.HoldsValue) (mode : Mode) :
    Overwrites (S.putItem o first · text mode) (S.putItem o last · text mode) c := by
  have hput : ∀ e others m, m.container = .map kind elem others →
      S.putItem o e m text mode = changeEntry m k (slotEntry (S.put o e) (S.zero elem)) := by
    intro e others m hm
    rw [putItem_of_map hm, hk]
  have h := overwrites_changeEntry hmap (admits_of_entryKey hk)
    (typed_entryOrNew hS (k := k) hc hmap).1 (fun v => (keeps_put hS v).ty_eq)
    (fun v => (keeps_put hS v).ty_eq) (overwrites_put (o := o) hfirst hlast hvalue)
  rcases container_alterEntry hmap k
    (slotEntry (S.put o first) (S.zero elem) (c.child? (.entry k))).1 with ⟨others, hothers⟩
  exact h.congr (hput first entries c hmap) (hput last entries c hmap) (hput last others _ hothers)

end Map

/-! ## Leaves -/

/-- An event writes the field that its key leads to. -/
theorem performFrame {type text : String} {fields : List (Field × Node σ)} {i : Nat} {e : Event}
    (hS : S.Sound False) (hc : S.Typed False c) (hrecord : c.container = .record type fields)
    (hslot : S.slotOf? o true type e.key = .ok (i, text)) (hv : c.child? (.field i) = some v) :
    Frame (e.action ≠ .delete) (c.putChild (.field i) ·)
      (fun w => w.ty = v.ty ∧ S.Typed False w) (S.perform o e) (S.performField o e text) c v := by
  refine frame_of_field hc hrecord hv (keeps_performField hS e text) ?_
  intro m others w hm hother hw
  have hperform := perform_field (o := o) (e := e) hm hother
  rw [hslot] at hperform
  rcases hperform with ⟨u, hu, hperform⟩
  obtain rfl := Option.some.inj (hw.symm.trans hu)
  exact hperform (hm.child hw).isEnclosing_eq_false

section Leaf

variable {text : String} {tag tag' : ScalarTag}

/-- What holds of the field that two events write holds in the record. -/
theorem overwrites_field (hS : S.Sound False) (hc : S.Typed False c)
    (hfirst : first.action ≠ .delete) (hlast : last.action ≠ .delete)
    (hkey : first.key = last.key) {type : String} {fields : List (Field × Node σ)} {i : Nat}
    (hrecord : c.container = .record type fields)
    (hslot : S.slotOf? o false type last.key = .ok (i, text))
    (hv : c.child? (.field i) = some v)
    (h : Overwrites (S.performField o first text) (S.performField o last text) v) :
    Overwrites (S.perform o first) (S.perform o last) c := by
  cases hwrite : S.slotOf? o true type last.key with
  | error err =>
      -- The field is read-only, and neither event changes it.
      have hidle := perform_field (o := o) (e := first) hc hrecord
      rw [hkey, hwrite] at hidle
      exact .of_same (congrArg Prod.fst hidle)
  | ok slot =>
      obtain rfl := Except.ok.inj (hslot.symm.trans (slotOf_read hwrite))
      exact Overwrites.carried hfirst hlast
        (performFrame hS hc hrecord (hkey ▸ hwrite) hv) (performFrame hS hc hrecord hwrite hv) h

/-- Without text behind the field name the field itself is written. -/
theorem overwrites_plain (hfirst : first.action ≠ .delete) (hlast : last.action ≠ .delete)
    (htag : first.tag = .scalar tag) (htag' : last.tag = .scalar tag')
    (htext : text.isEmpty = true) (hvalue : (S.allocate v).innermost.HoldsValue) :
    Overwrites (S.performField o first text) (S.performField o last text) v := by
  have hput : ∀ e : Event, e.action ≠ .delete → ∀ m,
      S.performField o e text m = ofNavigation (S.put o e m) := by
    intro e haction m
    rw [performField_of_ne haction, if_pos htext]
  exact (overwrites_put (o := o) htag htag' hvalue).ofNavigation.congr (hput first hfirst v)
    (hput last hlast v) (hput last hlast _)

/-- Text behind the field name leads to an entry of the map that the field holds. -/
theorem overwrites_suffix (hS : S.Sound False) (hv : S.Typed False v)
    (hfirst : first.action ≠ .delete) (hlast : last.action ≠ .delete)
    (htag : first.tag = .scalar tag) (htag' : last.tag = .scalar tag')
    (htext : text.isEmpty = false) {kind : KeyKind} {elem : Ty}
    {entries : List (MapKey × Node σ)} {k : MapKey}
    (hmap : (S.allocate v).innermost.container = .map kind elem entries)
    (hk : entryKey kind text = .ok k)
    (hvalue : (S.allocate (S.entryOrNew elem (S.allocate v).innermost k)).innermost.HoldsValue) :
    Overwrites (S.performField o first text) (S.performField o last text) v := by
  have hc := ((keeps_allocate hS v).typed hv).innermost
  have hitem := overwrites_putItem (o := o) hS hc htag htag' hmap hk hvalue .content
  have hkeeps := keeps_putItem hS (o := o) (e := first) (S.allocate v).innermost text .content
  have hbare := (S.bare_innermost_allocate v).of_ty_eq hkeeps.ty_eq
  have hput : ∀ e : Event, e.action ≠ .delete → ∀ m,
      S.performField o e text m = ofNavigation ((S.allocate m).putBack (S.allocate m).coreAddress
        (S.putItem o e (S.allocate m).innermost text .content)) := by
    intro e haction m
    rw [performField_of_ne haction, if_neg (Bool.eq_false_iff.1 htext)]
  exact (Overwrites.below (fun _ => rfl) (fun _ => rfl) hbare hitem).ofNavigation.congr
    (hput first hfirst v) (hput last hlast v) (hput last hlast _)

/-- At a map the entry that the key spells is written. -/
theorem overwrites_entry (hS : S.Sound False) (hc : S.Typed False c)
    (hfirst : first.action ≠ .delete) (hlast : last.action ≠ .delete)
    (htag : first.tag = .scalar tag) (htag' : last.tag = .scalar tag')
    (hkey : first.key = last.key) {kind : KeyKind} {elem : Ty}
    {entries : List (MapKey × Node σ)} {k : MapKey} (hmap : c.container = .map kind elem entries)
    (hk : entryKey kind last.key = .ok k)
    (hvalue : (S.allocate (S.entryOrNew elem c k)).innermost.HoldsValue) :
    Overwrites (S.perform o first) (S.perform o last) c := by
  have hput : ∀ e : Event, e.action ≠ .delete → ∀ m others, m.container = .map kind elem others →
      S.perform o e m = ofNavigation (S.putItem o e m e.key (.ofKey o e.key)) := by
    intro e haction m others hm
    refine perform_item haction (ready_of_map hm) fun type fields => ?_
    rw [hm]
    simp
  have hafter : ∃ others,
      (S.putItem o first c first.key (.ofKey o first.key)).1.container = .map kind elem others := by
    rw [putItem_of_map hmap, hkey, hk]
    exact container_alterEntry hmap k _
  rcases hafter with ⟨others, hothers⟩
  rw [← hkey] at hk
  have hitem := overwrites_putItem (o := o) hS hc htag htag' hmap hk hvalue (.ofKey o first.key)
  rw [hkey] at hitem hothers
  refine hitem.ofNavigation.congr ?_ (hput last hlast c entries hmap)
    (hput last hlast _ others hothers)
  rw [hput first hfirst c entries hmap, hkey]

/-- Of two events that write the same slot of a container only the later one is seen. -/
theorem overwrites_perform (hS : S.Sound False) (hc : S.Typed False c)
    (hfirst : first.action ≠ .delete) (hlast : last.action ≠ .delete)
    (htag : first.tag = .scalar tag) (htag' : last.tag = .scalar tag')
    (hkey : first.key = last.key) (hstep : S.StepsTo o c last.key v)
    (hvalue : (S.allocate v).innermost.HoldsValue) :
    Overwrites (S.perform o first) (S.perform o last) c := by
  cases hstep with
  | field hrecord hslot htext hfield =>
      exact overwrites_field hS hc hfirst hlast hkey hrecord hslot hfield
        (overwrites_plain hfirst hlast htag htag' htext hvalue)
  | suffix hrecord hslot htext hfield hmap hk =>
      exact overwrites_field hS hc hfirst hlast hkey hrecord hslot hfield
        (overwrites_suffix hS (hc.child hfield) hfirst hlast htag htag' htext hmap hk hvalue)
  | entry hmap hk => exact overwrites_entry hS hc hfirst hlast htag htag' hkey hmap hk hvalue

end Leaf

/-! ## The way -/

variable (S o) in
/-- A path leads, through no list and over nodes that are there or can be made, to a slot
that holds, behind its layers, one value. -/
def LeadsToSlot (n : Node σ) : List String → Prop
  | [] => (S.allocate n).innermost.HoldsValue
  | key :: rest =>
      S.AvoidsLists o (S.promote n).innermost key ∧
        ∃ child, S.made? o n key = some child ∧ LeadsToSlot child rest

/-- Along the way what is hidden in a slot is hidden in every node above. -/
theorem walk_overwrites (hS : S.Sound False) (hn : S.Typed False n)
    (hfirst : first.action ≠ .delete) (hlast : last.action ≠ .delete) {tag tag' : ScalarTag}
    (htag : first.tag = .scalar tag) (htag' : last.tag = .scalar tag')
    (hkey : first.key = last.key) {path : List String}
    (hleads : S.LeadsToSlot o n (path ++ [last.key])) :
    Overwrites (S.walk o first · path) (S.walk o last · path) n := by
  have hR := Overwrites.carried (σ := σ) (ε := SyncError) hfirst hlast
  have hzero : first.action = .delete ∨ last.action = .delete → S.ZeroDefaults := by
    rintro (haction | haction)
    · exact absurd haction hfirst
    · exact absurd haction hlast
  induction path generalizing n with
  | nil =>
      rcases hleads with ⟨hlists, child, hmade, hvalue⟩
      have hc := ((keeps_promote hS n).typed hn).innermost
      have hready := S.ready_innermost_promote n
      rw [made_promote hS] at hmade
      rcases stepsTo_of_made hS hc hready hlists hmade with ⟨v, hsteps, -, rfl⟩
      rw [LeadsToSlot, S.allocate_of_bare (S.bare_innermost_allocate v),
        innermost_of_bare (S.bare_innermost_allocate v)] at hvalue
      exact carried_promote hR hS hzero hn
        (overwrites_perform hS hc hfirst hlast htag htag' hkey hsteps hvalue)
  | cons key rest ih =>
      rcases hleads with ⟨hlists, child, hmade, hrest⟩
      have hc := ((keeps_promote hS n).typed hn).innermost
      have hready := S.ready_innermost_promote n
      rw [made_promote hS] at hmade
      have hchild := typed_of_made hS hc hready hmade
      exact carried_promote hR hS hzero hn
        (carried_step hR hS hzero hc hready hlists hmade (ih hchild hrest))

/-! ## The event -/

/-- At a root that holds one value an event does what it does to any slot. -/
theorem applyRoot_of_holdsValue {e : Event} (haction : e.action ≠ .delete) {tag : ScalarTag}
    (htag : e.tag = .scalar tag) (hn : (S.allocate n).innermost.HoldsValue) :
    S.applyRoot e n = ofNavigation (S.put o e n) := by
  rw [applyRoot_scalar haction htag]
  cases hvalue : (S.allocate n).innermost with
  | dynamic doc =>
      rw [put_scalar htag, hvalue, htag]
      rfl
  | scalar slot =>
      have halloc := S.allocate_of_isAllocated (S.isAllocated_allocate n)
      simp only [put, htag, Tag.shape?, setLiteral, setSlot, halloc, hvalue, assignLiteral]
  | _ =>
      rw [hvalue] at hn
      exact hn.elim

/-- Of two events that create or replace the same scalar or document only the later one
is seen, whether or not the earlier one succeeds. -/
theorem apply_last (hS : S.Sound False) (hfree : S.OverrideFree) {target : Node σ}
    (htarget : S.Typed False target) (hfirst : first.action ≠ .delete)
    (hlast : last.action ≠ .delete) {tag tag' : ScalarTag} (htag : first.tag = .scalar tag)
    (htag' : last.tag = .scalar tag') (hpath : first.path = last.path)
    (hkey : first.key = last.key) (hslot : S.LeadsToSlot o target last.slotKeys) :
    (S.apply o last (S.apply o first target).1).2 = (S.apply o last target).2 ∧
      ((S.apply o last target).2 = .ok () →
        (S.apply o last (S.apply o first target).1).1 = (S.apply o last target).1) := by
  have hsame : first.isRoot = last.isRoot := by rw [Event.isRoot, Event.isRoot, hpath, hkey]
  suffices h : Overwrites (S.apply o first) (S.apply o last) target from ⟨h.outcome, h.node⟩
  rw [Event.slotKeys] at hslot
  cases hroot : last.isRoot with
  | true =>
      rw [hroot] at hsame hslot
      have happly : ∀ e m, Event.isRoot e = true → S.apply o e m = S.applyRoot e m := by
        intro e m he
        rw [apply, if_pos he]
      have hput := (overwrites_put (o := o) htag htag' hslot).ofNavigation
      refine hput.congr ?_ ?_ ?_
      · rw [happly first target hsame, applyRoot_of_holdsValue hfirst htag hslot]
      · rw [happly last target hroot, applyRoot_of_holdsValue hlast htag' hslot]
      · rw [happly last _ hroot]
        exact applyRoot_of_holdsValue hlast htag' (holdsValue_put htag hslot)
  | false =>
      rw [hroot] at hsame hslot
      have happly : ∀ e m, Event.isRoot e = false → S.Typed False m →
          S.apply o e m = S.walk o e m e.path :=
        fun e m he hm => apply_of_silent hm (hfree.silent m) he
      have hafter := (keeps_walk hS (o := o) first target first.path).typed htarget
      have hwalk := walk_overwrites hS htarget hfirst hlast htag htag' hkey hslot
      rw [← hpath] at hwalk
      refine hwalk.congr (happly first target hsame htarget) ?_ ?_
      · rw [happly last target hroot htarget, hpath]
      · rw [happly last _ hroot hafter, hpath]

/-- The first event makes the limits and fails at its literal.  The second one stores its
entry as it does alone. -/
theorem apply_last_quota :
    let target := quota.zero (.record "Quota")
    let first : Event := ⟨.create, ["limits"], "cpu", .scalar .int, "many", none⟩
    let last : Event := ⟨.replace, ["limits"], "cpu", .scalar .int, "7", none⟩
    (quota.apply {} first target).2.isOk = false ∧
    (quota.apply {} last (quota.apply {} first target).1).2 = .ok () ∧
    (quota.apply {} last (quota.apply {} first target).1).1 = (quota.apply {} last target).1 := by
  intro target first last
  have hleads : quota.LeadsToSlot {} target last.slotKeys := by
    refine ⟨avoidsLists_quota, _, by rfl, ?_⟩
    refine ⟨trivial, _, by rfl, ?_⟩
    exact trivial
  have hsame := apply_last zeroDefaults_quota.sound overrideFree_quota
    (typed_zero zeroDefaults_quota.sound _) (by decide : first.action ≠ .delete)
    (by decide : last.action ≠ .delete) rfl rfl rfl rfl hleads
  have hok : (quota.apply {} last target).2 = .ok () := eq_ok_of_toOption (by decide +kernel)
  exact ⟨by decide +kernel, hsame.1.trans hok, hsame.2 hok⟩

end Schema

end TreeSync
