import TreeSync.Proofs.Apply.Fresh

/-!
# What stands around an event

While two events go the same way, each of them works in the same child of the
same container, and the container around the child is the same for both.  So if
the events are independent in the child, they are independent in the container.
A deleting event may find no child where a creating one makes it; then it changes
nothing, neither the container nor the child that would be made.

Main definitions and results:

- `Independent`: two changes that commute, with outcomes that do not move.
- `Frame` and `Independent.of_frame`: from the child to the container.
- `Carried` and `Schema.carried_promote`: relations that frames carry upward, through
  layers and into a leaf that is entered.
- `Schema.fieldFrame`, `Schema.suffixFrame`, `Schema.mapFrame`: the frames of one
  step.
-/

namespace TreeSync

open Node

variable {σ α : Type}

/-! ## Changes in a frame -/

/-- Two changes of a node give the same node in both orders and, where `strict`
holds, each has the same outcome in both orders. -/
structure Independent (strict : Prop) (f g : Node σ → Node σ × α) (n : Node σ) : Prop where
  commute : (f (g n).1).1 = (g (f n).1).1
  left : strict → (f (g n).1).2 = (f n).2
  right : strict → (g (f n).1).2 = (g n).2

/-- The change `f` of a container does what `f'` does to the child in it, where
`around` puts a child with the property `fits` into the container.  At the
container `n`, which may still lack the child `v`, it does so too or changes
nothing; where `exact` holds it does so with the same outcome. -/
structure Frame (exact : Prop) (around : Node σ → Node σ) (fits : Node σ → Prop)
    (f f' : Node σ → Node σ × α) (n v : Node σ) : Prop where
  node : ∀ w, fits w → (f (around w)).1 = around (f' w).1
  outcome : exact → ∀ w, fits w → (f (around w)).2 = (f' w).2
  start : (f n).1 = around (f' v).1 ∨ (f n).1 = n ∧ (f' v).1 = v
  begin : exact → f n = (around (f' v).1, (f' v).2)
  stays : fits (f' v).1

/-- Changes that are independent in a child are independent in the container. -/
theorem Independent.of_frame {strict p q : Prop} {around : Node σ → Node σ}
    {fits : Node σ → Prop} {f g f' g' : Node σ → Node σ × α} {n v : Node σ}
    (hf : Frame p around fits f f' n v) (hg : Frame q around fits g g' n v) (hp : strict → p)
    (hq : strict → q) (h : Independent strict f' g' v) : Independent strict f g n := by
  constructor
  · have hfg := hf.node _ hg.stays
    have hgf := hg.node _ hf.stays
    rcases hf.start with hfn | ⟨hfn, hfv⟩
    · rcases hg.start with hgn | ⟨hgn, hgv⟩
      · rw [hgn, hfn, hfg, hgf, h.commute]
      · rw [hgn, hfn, hgf, ← h.commute, hgv]
    · rcases hg.start with hgn | ⟨hgn, hgv⟩
      · rw [hfn, hgn, hfg, h.commute, hfv]
      · rw [hgn, hfn, hgn]
  · intro hstrict
    have hfn := hf.begin (hp hstrict)
    have hgn := hg.begin (hq hstrict)
    rw [hgn, hfn, hf.outcome (hp hstrict) _ hg.stays, h.left hstrict]
  · intro hstrict
    have hfn := hf.begin (hp hstrict)
    have hgn := hg.begin (hq hstrict)
    rw [hgn, hfn, hg.outcome (hq hstrict) _ hf.stays, h.right hstrict]

/-- A relation between the changes that two events make, which frames carry from a child to
the container around it. -/
def Carried (left right : Event)
    (R : (Node σ → Node σ × α) → (Node σ → Node σ × α) → Node σ → Prop) : Prop :=
  ∀ ⦃around : Node σ → Node σ⦄ ⦃fits : Node σ → Prop⦄ ⦃f g f' g' : Node σ → Node σ × α⦄
    ⦃n v : Node σ⦄, Frame (left.action ≠ .delete) around fits f f' n v →
      Frame (right.action ≠ .delete) around fits g g' n v → R f' g' v → R f g n

theorem Independent.carried {left right : Event} {strict : Prop}
    (hleft : strict → left.action ≠ .delete) (hright : strict → right.action ≠ .delete) :
    Carried left right (Independent (σ := σ) (α := α) strict) :=
  fun _ _ _ _ _ _ _ _ hf hg h => .of_frame hf hg hleft hright h

/-- Another description of the change of a container has the same frame. -/
theorem Frame.congr {exact : Prop} {around : Node σ → Node σ} {fits : Node σ → Prop}
    {f g f' : Node σ → Node σ × α} {n v : Node σ} (h : Frame exact around fits g f' n v)
    (hn : f n = g n) (hw : ∀ w, fits w → f (around w) = g (around w)) :
    Frame exact around fits f f' n v := by
  refine ⟨?_, ?_, ?_, ?_, h.stays⟩
  · intro w hfits
    rw [hw w hfits]
    exact h.node w hfits
  · intro hexact w hfits
    rw [hw w hfits]
    exact h.outcome hexact w hfits
  · rw [hn]
    exact h.start
  · rw [hn]
    exact h.begin

namespace Schema

variable {S : Schema σ} {o : Options} {e : Event} {n c v : Node σ}

/-! ## Layers -/

/-- The layers of a node are a frame of what stands below them once they have a
value. -/
theorem layersFrame (hS : S.Sound False) (hzero : e.action = .delete → S.ZeroDefaults)
    (hn : S.Typed False n) (path : List String) :
    Frame (e.action ≠ .delete) (S.allocate n).withCore
      (fun w => w.Bare ∧ S.Typed False w ∧ w.ty = (S.allocate n).innermost.ty)
      (S.walk o e · path) (S.walk o e · path) n (S.allocate n).innermost := by
  have ha := (keeps_allocate hS n).typed hn
  have hbare := S.bare_innermost_allocate n
  have hkeeps := keeps_walk hS (o := o) e (S.allocate n).innermost path
  refine ⟨?_, ?_, ?_, ?_, ?_⟩
  · intro w ⟨hw, htyped, hty⟩
    exact congrArg Prod.fst (walk_below hS ha hw htyped hty path)
  · intro _ w ⟨hw, htyped, hty⟩
    have h := walk_below hS (o := o) (e := e) ha hw htyped hty path
    simp only [h]
  · by_cases haction : e.action = .delete
    · cases halloc : n.isAllocated with
      | false =>
          right
          have hfresh := fresh_allocate (S := S) halloc
          have hcore := fresh_core hfresh (core_eq_ok_innermost (S.isAllocated_allocate n))
          exact ⟨walk_delete_unallocated haction halloc path,
            walk_delete_fresh (hzero haction) haction ha.innermost hcore path⟩
      | true =>
          left
          have h := walk_below hS (o := o) (e := e) ha hbare ha.innermost rfl path
          rw [withCore_innermost] at h
          rw [S.allocate_of_isAllocated halloc] at h ⊢
          exact congrArg Prod.fst h
    · left
      exact congrArg Prod.fst (walk_allocate hS hn haction path)
  · intro haction
    exact walk_allocate hS hn haction path
  · exact ⟨hbare.of_ty_eq hkeeps.ty_eq, hkeeps.typed ha.innermost, hkeeps.ty_eq⟩

/-! ## Entering -/

/-- Below a dynamic leaf nothing is deleted. -/
theorem walk_delete_leaf (haction : e.action = .delete)
    (hc : S.Typed False c) (hbare : c.Bare) (hleaf : entered c ≠ c) (path : List String) :
    (S.walk o e c path).1 = c := by
  have hcontainer : c.container = .leaf := by
    cases c with
    | dynamic d =>
        cases d with
        | seq items => exact absurd rfl hleaf
        | map entries => exact absurd rfl hleaf
        | _ => rfl
    | _ => exact absurd rfl hleaf
  have hrecord : ∀ type fields, c.container ≠ .record type fields := by
    intro type fields
    rw [hcontainer]
    simp
  cases path with
  | nil =>
      rw [walk, perform_of_delete haction, remove_item hbare hrecord, removeItem, hcontainer]
  | cons key rest =>
      rw [walk_delete hc hbare haction, find_item hbare hrecord, findItem, hcontainer]

/-- A creating event turns a dynamic leaf into the map that it enters. -/
theorem enteringFrame (hS : S.Sound False) (hzero : e.action = .delete → S.ZeroDefaults)
    (hc : S.Typed False c) (hbare : c.Bare) (path : List String) :
    Frame (e.action ≠ .delete) id (fun _ => True) (S.walk o e · path) (S.walk o e · path) c
      (entered c) := by
  have hpromote : S.promote c = entered c := by
    rw [promote_eq_withCore, S.allocate_of_bare hbare, innermost_of_bare hbare,
      withCore_of_bare hbare]
  refine ⟨fun _ _ => rfl, fun _ _ _ => rfl, ?_, ?_, trivial⟩
  · by_cases haction : e.action = .delete
    · by_cases hleaf : entered c = c
      · left
        simp only [hleaf, id]
      · right
        have hentered : S.Typed False (entered c) := hpromote ▸ (keeps_promote hS c).typed hc
        have hfresh : S.Fresh (entered c) := by
          right
          cases c with
          | dynamic d =>
              rw [entered] at hleaf ⊢
              by_cases hd : d.isLeaf = true
              · rw [if_pos hd]
                rfl
              · exact absurd (if_neg hd) hleaf
          | _ => exact absurd rfl hleaf
        exact ⟨walk_delete_leaf haction hc hbare hleaf path,
          walk_delete_fresh (hzero haction) haction hentered hfresh path⟩
    · left
      rw [← hpromote, walk_promote hS hc haction]
      rfl
  · intro haction
    rw [← hpromote, walk_promote hS hc haction]
    rfl

/-- What holds of two events where the node is entered holds at the node. -/
theorem carried_promote {left right : Event} {p q : List String}
    {R : (Node σ → Node σ × Except SyncError Unit) → (Node σ → Node σ × Except SyncError Unit) →
      Node σ → Prop} (hR : Carried left right R) (hS : S.Sound False)
    (hzero : left.action = .delete ∨ right.action = .delete → S.ZeroDefaults)
    (hn : S.Typed False n)
    (h : R (S.walk o left · p) (S.walk o right · q) (S.promote n).innermost) :
    R (S.walk o left · p) (S.walk o right · q) n := by
  have ha := ((keeps_allocate hS n).typed hn).innermost
  have hbare := S.bare_innermost_allocate n
  have hl := fun haction => hzero (.inl haction)
  have hr := fun haction => hzero (.inr haction)
  rw [innermost_promote] at h
  exact hR (layersFrame hS hl hn p) (layersFrame hS hr hn q)
    (hR (enteringFrame hS hl ha hbare p) (enteringFrame hS hr ha hbare q) h)

/-! ## One step -/

section Step

variable {kind : KeyKind} {elem : Ty} {entries : List (MapKey × Node σ)} {text key : String}
  {k : MapKey}

/-- The entry that a key spells, or the new one that is made in its place. -/
def entryOrNew (S : Schema σ) (elem : Ty) (c : Node σ) (k : MapKey) : Node σ :=
  (c.child? (.entry k)).getD (S.zero elem)

theorem typed_entryOrNew (hS : S.Sound False) (hc : S.Typed False c)
    (h : c.container = .map kind elem entries) :
    (S.entryOrNew elem c k).ty = elem ∧ S.Typed False (S.entryOrNew elem c k) := by
  rw [entryOrNew]
  cases hv : c.child? (.entry k) with
  | none => exact ⟨S.ty_zero elem, typed_zero hS elem⟩
  | some v => exact ⟨ty_of_entry hc h hv, hc.child hv⟩

/-- A map is a frame of the entry that a key spells. -/
theorem entryFrame (hS : S.Sound False) (hzero : e.action = .delete → S.ZeroDefaults)
    (hc : S.Typed False c) (h : c.container = .map kind elem entries)
    (hk : entryKey kind text = .ok k) (mode : Mode) (key : String) (rest : List String) :
    Frame (e.action ≠ .delete) (c.putChild (.entry k) ·)
      (fun w => w.ty = elem ∧ S.Typed False w)
      (S.walkItem o e · text mode key rest) (S.walk o e · rest) c (S.entryOrNew elem c k) := by
  have hitem : ∀ w, w.ty = elem → S.walkItem o e (c.putChild (.entry k) w) text mode key rest =
      (c.putChild (.entry k) (S.walk o e w rest).1, (S.walk o e w rest).2) := by
    intro w hw
    rcases container_putEntry h k w with ⟨others, hcontainer⟩
    have hkeeps := keeps_walk hS (o := o) e w rest
    rw [walkItem_entry hS hcontainer hk, changeEntry, child?_putEntry h (admits_of_entryKey hk) hw]
    exact Prod.ext (putEntry_putEntry h k hw (hkeeps.ty_eq.trans hw)) rfl
  have htyped := typed_entryOrNew hS (k := k) hc h
  have hkeeps := keeps_walk hS (o := o) e (S.entryOrNew elem c k) rest
  refine ⟨?_, ?_, ?_, ?_, ?_⟩
  · intro w hw
    simp only [hitem w hw.1]
  · intro _ w hw
    simp only [hitem w hw.1]
  · simp only [walkItem_entry hS h hk, changeEntry, entryOrNew]
    cases hv : c.child? (.entry k) with
    | some v =>
        left
        rfl
    | none =>
        by_cases haction : e.action = .delete
        · right
          simp only [walkEntry, if_pos haction, Option.getD_none]
          exact ⟨alterEntry_none h hv,
            walk_delete_fresh (hzero haction) haction (typed_zero hS elem) (S.fresh_zero elem)
              rest⟩
        · left
          simp only [walkEntry, if_neg haction]
          rfl
  · intro haction
    simp only [walkItem_entry hS h hk, changeEntry, entryOrNew]
    cases hv : c.child? (.entry k) with
    | some v => rfl
    | none =>
        simp only [walkEntry, if_neg haction]
        rfl
  · exact ⟨hkeeps.ty_eq.trans htyped.1, hkeeps.typed htyped.2⟩

/-- At a map a step goes on in the entry that its key spells. -/
theorem mapFrame (hS : S.Sound False) (hzero : e.action = .delete → S.ZeroDefaults)
    (hc : S.Typed False c) (h : c.container = .map kind elem entries)
    (hk : entryKey kind key = .ok k) (rest : List String) :
    Frame (e.action ≠ .delete) (c.putChild (.entry k) ·)
      (fun w => w.ty = elem ∧ S.Typed False w)
      (S.walk o e · (key :: rest)) (S.walk o e · rest) c (S.entryOrNew elem c k) := by
  have hitem : ∀ m others, S.Typed False m → m.container = .map kind elem others →
      S.walk o e m (key :: rest) = S.walkItem o e m key (.ofKey o key) key rest := by
    intro m others hm hcontainer
    refine walk_item hS hm (ready_of_map hcontainer) fun type fields => ?_
    rw [hcontainer]
    simp
  refine (entryFrame hS hzero hc h hk (.ofKey o key) key rest).congr (hitem c entries hc h) ?_
  intro w hw
  rcases container_putEntry h k w with ⟨others, hcontainer⟩
  have hput := keeps_putEntry h (admits_of_entryKey hk) hw.1 hw.2
  exact hitem _ others (hput.typed hc) hcontainer

/-- A record is a frame of the field that a change of it changes. -/
theorem frame_of_field {type : String} {fields : List (Field × Node σ)} {i : Nat} {exact : Prop}
    {f f' : Node σ → Node σ × α} (hc : S.Typed False c)
    (hrecord : c.container = .record type fields) (hv : c.child? (.field i) = some v)
    (hkeeps : ∀ w, S.Keeps False w (f' w).1)
    (hf : ∀ m others w, S.Typed False m → m.container = .record type others →
      m.child? (.field i) = some w → f m = m.putBack [.field i] (f' w)) :
    Frame exact (c.putChild (.field i) ·) (fun w => w.ty = v.ty ∧ S.Typed False w) f f' c v := by
  have hput : ∀ w, w.ty = v.ty → S.Typed False w →
      f (c.putChild (.field i) w) = (c.putChild (.field i) (f' w).1, (f' w).2) := by
    intro w hty hw
    have hchange : S.Keeps False v w := .of_typed hty hw hw.isEnclosing_eq_false
    have htyped := (Keeps.putChild hv hchange).typed hc
    have hother : ∃ others, (c.putChild (.field i) w).container = .record type others := by
      rcases eq_record_of_container hrecord with ⟨state, rfl⟩
      exact ⟨_, rfl⟩
    rcases hother with ⟨others, hcontainer⟩
    have hchild := child?_putChild hv hty
    rw [hf _ others w htyped hcontainer hchild, putBack_field hchild,
      putChild_putChild hv hty ((hkeeps w).ty_eq.trans hty)]
  have hhere : f c = (c.putChild (.field i) (f' v).1, (f' v).2) := by
    rw [hf c fields v hc hrecord hv, putBack_field hv]
  refine ⟨?_, ?_, ?_, ?_, ?_⟩
  · intro w hw
    simp only [hput w hw.1 hw.2]
  · intro _ w hw
    simp only [hput w hw.1 hw.2]
  · left
    simp only [hhere]
  · intro _
    exact hhere
  · exact ⟨(hkeeps v).ty_eq, (hkeeps v).typed (hc.child hv)⟩

/-- At a record a step goes on in the field that its key leads to. -/
theorem fieldFrame (hS : S.Sound False) (hc : S.Typed False c) {type : String}
    {fields : List (Field × Node σ)} (hrecord : c.container = .record type fields) {i : Nat}
    (hslot : S.slotOf? o false type key = .ok (i, text)) (hv : c.child? (.field i) = some v)
    (e : Event) (rest : List String) :
    Frame (e.action ≠ .delete) (c.putChild (.field i) ·)
      (fun w => w.ty = v.ty ∧ S.Typed False w)
      (S.walk o e · (key :: rest)) (S.walkField o e text key rest) c v :=
  frame_of_field hc hrecord hv (keeps_walkField hS e text key rest)
    fun _ _ _ hm hother hw => walk_slot hS hm hother hw hslot rest

/-- A key without text behind the field name leads to the field itself. -/
theorem plainFrame (htext : text.isEmpty = true) (e : Event) (rest : List String) (v : Node σ) :
    Frame (e.action ≠ .delete) id (fun _ => True)
      (S.walkField o e text key rest) (S.walk o e · rest) v v := by
  have hnode : ∀ w, (S.walkField o e text key rest w).1 = (S.walk o e w rest).1 := by
    intro w
    rw [walkField]
    split
    · rename_i haction
      split
      · rename_i t ht
        have halloc : w.isAllocated = false := by
          simp [isAllocated, core?, ht, Except.toOption]
        exact (walk_delete_unallocated haction halloc rest).symm
      · rfl
    · rfl
  have hcreate : e.action ≠ .delete → ∀ w, S.walkField o e text key rest w = S.walk o e w rest := by
    intro haction w
    rw [walkField, if_neg haction, if_pos htext]
  exact ⟨fun w _ => hnode w, fun h w _ => congrArg Prod.snd (hcreate h w), .inl (hnode v),
    fun h => hcreate h v, trivial⟩

/-- Nothing is deleted from the new entry that is made in a new map. -/
theorem walk_delete_new (hzero : S.ZeroDefaults) (haction : e.action = .delete)
    (hfresh : S.Fresh c) (h : c.container = .map kind elem entries)
    (rest : List String) :
    (S.walk o e (S.entryOrNew elem c k) rest).1 = S.entryOrNew elem c k := by
  have hnone : c.child? (.entry k) = none := by
    rw [child?_entry h]
    rcases container_of_fresh (bare_of_container h) hfresh with ⟨type, fields, hcontainer⟩ |
      hcontainer | hcontainer | ⟨elem, hcontainer⟩ | ⟨kind, elem, hcontainer⟩
    · simp [h] at hcontainer
    · simp [h] at hcontainer
    · simp [h] at hcontainer
    · simp [h] at hcontainer
    · rw [h] at hcontainer
      obtain ⟨-, -, rfl⟩ := Container.map.inj hcontainer
      rfl
  have hS := hzero.sound
  rw [entryOrNew, hnone, Option.getD_none]
  exact walk_delete_fresh hzero haction (typed_zero hS elem) (S.fresh_zero elem) rest

/-- Text behind the field name leads into the map that the field holds. -/
theorem suffixFrame (hS : S.Sound False) (hzero : e.action = .delete → S.ZeroDefaults)
    (hv : S.Typed False v) (htext : text.isEmpty = false)
    (h : (S.allocate v).innermost.container = .map kind elem entries)
    (hk : entryKey kind text = .ok k) (rest : List String) :
    Frame (e.action ≠ .delete)
      (fun w => (S.allocate v).withCore ((S.allocate v).innermost.putChild (.entry k) w))
      (fun w => w.ty = elem ∧ S.Typed False w)
      (S.walkField o e text key rest) (S.walk o e · rest) v
      (S.entryOrNew elem (S.allocate v).innermost k) := by
  have ha := (keeps_allocate hS v).typed hv
  have hentry := entryFrame (o := o) hS hzero ha.innermost h hk .content key rest
  have hbelow : ∀ w, S.walkField o e text key rest
      ((S.allocate v).withCore ((S.allocate v).innermost.putChild (.entry k) w)) =
      ((S.allocate v).withCore
        (S.walkItem o e ((S.allocate v).innermost.putChild (.entry k) w) text .content key rest).1,
        (S.walkItem o e ((S.allocate v).innermost.putChild (.entry k) w) text .content key
          rest).2) := by
    intro w
    rcases container_putEntry h k w with ⟨others, hcontainer⟩
    exact walkField_withCore htext (bare_of_container hcontainer) e key rest _
  refine ⟨?_, ?_, ?_, ?_, hentry.stays⟩
  · intro w hw
    rw [hbelow, hentry.node w hw]
  · intro hexact w hw
    rw [hbelow, hentry.outcome hexact w hw]
  · by_cases haction : e.action = .delete
    · cases halloc : v.isAllocated with
      | false =>
          right
          have hfresh := fresh_core (fresh_allocate (S := S) halloc)
            (core_eq_ok_innermost (S.isAllocated_allocate v))
          exact ⟨walkField_unallocated halloc haction text key rest,
            walk_delete_new (hzero haction) haction hfresh h rest⟩
      | true =>
          rw [walkField_allocate htext (.inl halloc)]
          rcases hentry.start with hstart | ⟨hstart, hsame⟩
          · left
            rw [hstart]
          · right
            rw [hstart, withCore_innermost, S.allocate_of_isAllocated halloc]
            rw [S.allocate_of_isAllocated halloc] at hsame
            exact ⟨rfl, hsame⟩
    · left
      rw [walkField_allocate htext (.inr haction), hentry.begin haction]
  · intro hexact
    rw [walkField_allocate htext (.inr hexact), hentry.begin hexact]

end Step

end Schema

end TreeSync
