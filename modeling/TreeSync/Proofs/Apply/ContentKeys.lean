import TreeSync.Proofs.Apply.Locality
import TreeSync.Proofs.Entries.FirstMatch
import TreeSync.Proofs.Schema.Matching

/-!
# Events below content keys

A path segment such as `interface[name=eth0]` describes an element of a list by
the content of its fields.  Every event looks for the element again.  Events that
go on in other fields than the key names never lose it, so over a whole run all of
them work on one element, and no second one is appended.

Main definitions and results:

- `Schema.Names`: a segment that leads to a field which a key names.
- `Schema.Describes` and `Schema.ListField`: a key for the elements of a list.
- `Schema.items` and `Schema.itemsAt`: the list in a field.
- `Schema.Describes.agrees_walk`: the element goes on matching.
- `Schema.Describes.settled_walkItem`: one event below the key.
- `Schema.content_key_stable`: runs of events below the key.
-/

namespace TreeSync

open Node

variable {σ : Type}

namespace Schema

variable (S : Schema σ)

/-- A segment leads to a field of a record type that a key names, or to the record
itself and so to all of them. -/
def Names (o : Options) (type : String) (key : Key) (segment : String) : Prop :=
  ∃ i text, S.slotOf? o false type segment = .ok (i, text) ∧
    (S.Itself type i ∨ ∃ q ∈ key.qualifiers, S.fieldOf? o false type q.1 = .ok i)

/-- A text of bracket groups describes elements of a list of records: one can be
built from it, and the named fields of that one hold no fixed array.  Neither do
they hold a record inside itself, for comparing such records does not end. -/
structure Describes (o : Options) (elem : Ty) (type text : String) (key : Key) (built : Node σ) :
    Prop where
  bracketed : Key.Bracketed text
  core_eq : elem.core = .record type
  decode_eq : Key.decode text = .ok key
  build_eq : S.build o elem text = .ok built
  arrayFree : ∀ q ∈ key.qualifiers, ∀ v, built.namedField? o q.1 = some v → v.ArrayFree
  loopFree : ∀ q ∈ key.qualifiers, ∀ v, built.namedField? o q.1 = some v → v.LoopFree

/-- A name without brackets stands for a list field of a record type. -/
structure ListField (o : Options) (owner field : String) (i : Nat) (elem : Ty) : Prop where
  plain : ∀ c ∈ field.toList, c ≠ '[' ∧ c ≠ ']'
  field_eq : S.fieldOf? o false owner field = .ok i
  list_eq : ((S.signature owner)[i]?).map (fun f => f.2.core) = some (.list elem)

/-- The items of the list below the layers of a node; layers without a value hold
a new list. -/
def items (v : Node σ) : List (Node σ) :=
  match (S.allocate v).innermost with
  | .list _ items => items
  | _ => []

/-- The items of the list in a field of a record. -/
def itemsAt (i : Nat) (n : Node σ) : List (Node σ) :=
  ((n.child? (.field i)).map S.items).getD []

/-- The target after a run of events, whether they succeed or not. -/
def run (o : Options) (target : Node σ) (events : List Event) : Node σ :=
  events.foldl (fun n e => (S.apply o e n).1) target

variable {S} {o : Options} {loops : Prop} {e : Event} {n c v w built : Node σ}
  {type segment key text : String} {rest : List String} {elem : Ty} {parsed : Key}

/-! ## The element -/

/-- An event that does not go on in a named field leaves the named fields. -/
theorem namedField_walk (hS : S.Sound loops) (hw : S.Typed loops w)
    (halloc : w.isAllocated = true) {fields : List (Field × Node σ)}
    (hrecord : w.innermost.container = .record type fields)
    (hhead : (rest ++ [e.key]).head? = some segment) (hother : ¬ S.Names o type parsed segment)
    {q : String × String} (hq : q ∈ parsed.qualifiers)
    (hown : ∀ i, S.fieldOf? o false type q.1 = .ok i → ¬ S.Itself type i) :
    (S.walk o e w rest).1.namedField? o q.1 = w.namedField? o q.1 := by
  have hcore := core_eq_ok_innermost halloc
  have hready := ready_of_record hrecord
  have hc := hw.innermost
  have hkeeps := keeps_walk hS (o := o) e w.innermost rest
  rcases record_of_keeps hkeeps hc hrecord with ⟨hafter, others, hafterRecord⟩
  have hbelow := walk_withCore hS (o := o) (e := e) hready.bare (fun _ => hready) w rest
  rw [withCore_innermost] at hbelow
  have hafterCore : (S.walk o e w rest).1.core = .ok (S.walk o e w.innermost rest).1 := by
    have hresult := hready.bare.of_ty_eq hkeeps.ty_eq
    rw [hbelow, core_eq_ok_innermost (isAllocated_withCore w hresult),
      innermost_withCore w hresult]
  rw [namedField_of_core hafterCore, namedField_of_core hcore,
    namedField_record hafter hafterRecord o hown, namedField_record hc hrecord o hown]
  cases hfield : S.fieldOf? o false type q.1 with
  | error err => rfl
  | ok j =>
      refine child?_walk_of_ne hc hrecord hhead fun i text hi => ⟨fun hself => ?_, ?_⟩
      · exact hother ⟨i, text, hi, .inl hself⟩
      · rintro rfl
        exact hother ⟨i, text, hi, .inr ⟨q, hq, hfield⟩⟩

/-! ## The list -/

theorem ty_of_item {items : List (Node σ)} (hitems : S.Typed loops (.list elem items)) {i : Nat}
    (hw : items[i]? = some w) : w.ty = elem := by
  cases hitems with
  | list types _ => exact types w (List.mem_of_getElem? hw)

theorem putBack_element {α : Type} {items : List (Node σ)} {i : Nat} (hw : items[i]? = some w)
    (r : Node σ × α) :
    (list elem items).putBack [.element i] r = (list elem (items.set i r.1), r.2) := by
  simp only [putBack, replaceAt, child?, hw]
  rfl

namespace Describes

variable {items : List (Node σ)}

theorem qualifiers_ne_nil (h : S.Describes o elem type text parsed built) :
    parsed.qualifiers ≠ [] :=
  h.bracketed.qualifiers_ne_nil h.decode_eq

/-- The element is looked for by its named fields. -/
theorem locate_eq (h : S.Describes o elem type text parsed built) (items : List (Node σ)) :
    S.locate o elem items text .content =
      .ok (items.findIdx? (agrees o (parsed.qualifiers.map Prod.fst) built)) := by
  have hnames := constrained_of_decode h.bracketed.isStructured h.decode_eq
  rw [locate, Key.require, h.bracketed.isEmpty_eq]
  exact matchIndex_build h.build_eq hnames items

/-- The built element matches. -/
theorem agrees_built (hS : S.Sound loops) (h : S.Describes o elem type text parsed built) :
    agrees o (parsed.qualifiers.map Prod.fst) built built = true :=
  agrees_build hS h.core_eq h.build_eq h.decode_eq h.arrayFree h.loopFree h.qualifiers_ne_nil

/-- Without creating anything the first match is found, or nothing. -/
theorem findItem_list (h : S.Describes o elem type text parsed built) (items : List (Node σ)) :
    Place.address <$> S.findItem o (.list elem items) text .content =
      match items.findIdx? (agrees o (parsed.qualifiers.map Prod.fst) built) with
      | some i => .ok [.element i]
      | none => .error (.entryNotFound text) := by
  simp only [findItem, container, h.locate_eq items, bind, Except.bind]
  cases hfind : items.findIdx? (agrees o (parsed.qualifiers.map Prod.fst) built) with
  | none => rfl
  | some i =>
      rcases List.findIdx?_eq_some_iff_getElem.1 hfind with ⟨hi, -, -⟩
      simp only [List.getElem?_eq_getElem hi]
      rfl

/-- The first match is entered, or the built element is appended. -/
theorem createItem_list (h : S.Describes o elem type text parsed built) (items : List (Node σ)) :
    S.createItem o (.list elem items) text .content =
      match items.findIdx? (agrees o (parsed.qualifiers.map Prod.fst) built) with
      | some i => (.list elem items, .ok [.element i])
      | none => (.list elem (items ++ [built]), .ok [.element items.length]) := by
  simp only [createItem, container, locateOrAppend, h.locate_eq items, h.bracketed.isEmpty_eq,
    h.build_eq]
  cases items.findIdx? (agrees o (parsed.qualifiers.map Prod.fst) built) with
  | none => rfl
  | some i => rfl

/-- No field that the key names is the element itself. -/
theorem not_itself (hS : S.Sound loops) (h : S.Describes o elem type text parsed built)
    {q : String × String} (hq : q ∈ parsed.qualifiers) {i : Nat}
    (hi : S.fieldOf? o false type q.1 = .ok i) : ¬ S.Itself type i :=
  not_itself_of_build hS h.core_eq h.build_eq h.decode_eq (h.loopFree q hq) hi

/-- An element that matches is a record below layers that have a value. -/
theorem record_of_agrees (h : S.Describes o elem type text parsed built) (hty : w.ty = elem)
    (hagrees : agrees o (parsed.qualifiers.map Prod.fst) built w = true) :
    w.isAllocated = true ∧ ∃ fields, w.innermost.container = .record type fields := by
  have hnames : parsed.qualifiers.map Prod.fst ≠ [] := by simpa using h.qualifiers_ne_nil
  exact Schema.record_of_agrees hnames (hty ▸ h.core_eq) hagrees

/-- The element goes on matching. -/
theorem agrees_walk (hS : S.Sound loops) (h : S.Describes o elem type text parsed built)
    (hw : S.Typed loops w) (hty : w.ty = elem) (hhead : (rest ++ [e.key]).head? = some segment)
    (hother : ¬ S.Names o type parsed segment)
    (hagrees : agrees o (parsed.qualifiers.map Prod.fst) built w = true) :
    agrees o (parsed.qualifiers.map Prod.fst) built (S.walk o e w rest).1 = true := by
  have hnames : parsed.qualifiers.map Prod.fst ≠ [] := by simpa using h.qualifiers_ne_nil
  rcases h.record_of_agrees hty hagrees with ⟨halloc, fields, hrecord⟩
  rw [agrees_congr hnames _ built]
  · exact hagrees
  · intro name hname
    rcases List.mem_map.1 hname with ⟨q, hq, rfl⟩
    exact namedField_walk hS hw halloc hrecord hhead hother hq fun i hi => h.not_itself hS hq hi

/-- An event goes on in the first element that matches. -/
theorem walkItem_found (h : S.Describes o elem type text parsed built) {i : Nat}
    (hfind : items.findIdx? (agrees o (parsed.qualifiers.map Prod.fst) built) = some i)
    (hw : items[i]? = some w) (e : Event) (key : String) (rest : List String) :
    (S.walkItem o e (.list elem items) text .content key rest).1 =
      .list elem (items.set i (S.walk o e w rest).1) := by
  have hfound := h.findItem_list items
  have hmade := h.createItem_list items
  rw [hfind] at hfound hmade
  have hstep : (if e.action = .delete then
      ((.list elem items : Node σ), Place.address <$> S.findItem o (.list elem items) text .content)
      else S.createItem o (.list elem items) text .content) =
        (.list elem items, .ok [.element i]) := by
    split
    · rw [hfound]
    · exact hmade
  rw [walkItem]
  simp only [hstep, Node.get?, child?, hw, Option.bind_some]
  rw [putBack_element hw]

/-- Deleting below an element that is not there changes nothing. -/
theorem walkItem_missing (h : S.Describes o elem type text parsed built)
    (hfind : items.findIdx? (agrees o (parsed.qualifiers.map Prod.fst) built) = none)
    (haction : e.action = .delete) (key : String) (rest : List String) :
    (S.walkItem o e (.list elem items) text .content key rest).1 = .list elem items := by
  have hfound := h.findItem_list items
  rw [hfind] at hfound
  rw [walkItem]
  simp only [if_pos haction, hfound]

/-- Other events go on in the built element, which is appended. -/
theorem walkItem_appended (h : S.Describes o elem type text parsed built)
    (hfind : items.findIdx? (agrees o (parsed.qualifiers.map Prod.fst) built) = none)
    (haction : e.action ≠ .delete) (key : String) (rest : List String) :
    (S.walkItem o e (.list elem items) text .content key rest).1 =
      .list elem (items ++ [(S.walk o e built rest).1]) := by
  have hmade := h.createItem_list items
  have hlast : (items ++ [built])[items.length]? = some built := List.getElem?_concat_length
  rw [hfind] at hmade
  rw [walkItem]
  simp only [if_neg haction, hmade, Node.get?, child?, hlast, Option.bind_some]
  rw [putBack_element hlast]
  simp

/-- One event below the key changes the element that the key describes, or appends
it; unless the event deletes, the element is there afterwards. -/
theorem settled_walkItem (hS : S.Sound loops) (h : S.Describes o elem type text parsed built)
    (hitems : S.Typed loops (.list elem items)) (hhead : (rest ++ [e.key]).head? = some segment)
    (hother : ¬ S.Names o type parsed segment) (key : String) :
    ∃ after, (S.walkItem o e (.list elem items) text .content key rest).1 = .list elem after ∧
      Settled (agrees o (parsed.qualifiers.map Prod.fst) built) items after ∧
        (e.action ≠ .delete →
          Settled.position (agrees o (parsed.qualifiers.map Prod.fst) built) items <
            after.length) := by
  cases hfind : items.findIdx? (agrees o (parsed.qualifiers.map Prod.fst) built) with
  | some i =>
      rcases List.findIdx?_eq_some_iff_getElem.1 hfind with ⟨hi, hmatch, -⟩
      have hw : items[i]? = some items[i] := List.getElem?_eq_getElem hi
      have hposition : Settled.position _ items = i := congrArg (Option.getD · items.length) hfind
      have helement : S.Typed loops items[i] := hitems.child (s := .element i) hw
      have hagrees := h.agrees_walk hS (e := e) helement (ty_of_item hitems hw) hhead hother hmatch
      have hset := Settled.set items hagrees
      rw [hposition] at hset
      refine ⟨_, h.walkItem_found hfind hw e key rest, hset, fun _ => ?_⟩
      rw [hposition, List.length_set]
      exact hi
  | none =>
      by_cases haction : e.action = .delete
      · exact ⟨items, h.walkItem_missing hfind haction key rest, .refl _ items,
          fun hne => absurd haction hne⟩
      · have hbuilt := typed_build hS h.build_eq
        have hagrees := h.agrees_walk hS (e := e) hbuilt.2 hbuilt.1 hhead hother
          (h.agrees_built hS)
        refine ⟨_, h.walkItem_appended hfind haction key rest, .append hfind hagrees, fun _ => ?_⟩
        have hle := Settled.position_le (agrees o (parsed.qualifiers.map Prod.fst) built) items
        rw [List.length_append]
        exact Nat.lt_succ_of_le hle

end Describes

/-! ## The field -/

theorem eq_list_of_ty (h : n.ty = .list elem) : ∃ items, n = .list elem items := by
  cases n with
  | list other items =>
      obtain rfl := Ty.list.inj h
      exact ⟨items, rfl⟩
  | _ => simp [ty] at h

theorem exists_items (h : v.ty.core = .list elem) :
    (S.allocate v).innermost = .list elem (S.items v) := by
  rcases eq_list_of_ty ((S.ty_innermost_allocate v).trans h) with ⟨others, heq⟩
  rw [items, heq]

theorem items_withCore (v : Node σ) (items : List (Node σ)) :
    S.items (v.withCore (.list elem items)) = items := by
  have hbare : (list elem items : Node σ).Bare := Kind.noConfusion
  rw [Schema.items, S.allocate_of_isAllocated (isAllocated_withCore v hbare),
    innermost_withCore v hbare]

/-- One event below the key leaves a settled list in the field. -/
theorem Describes.settled_walkField (hS : S.Sound loops)
    (h : S.Describes o elem type text parsed built) (hv : S.Typed loops v)
    (hlist : v.ty.core = .list elem) (hhead : (rest ++ [e.key]).head? = some segment)
    (hother : ¬ S.Names o type parsed segment) (key : String) :
    Settled (agrees o (parsed.qualifiers.map Prod.fst) built) (S.items v)
        (S.items (S.walkField o e text key rest v).1) ∧
      (e.action ≠ .delete →
        Settled.position (agrees o (parsed.qualifiers.map Prod.fst) built) (S.items v) <
          (S.items (S.walkField o e text key rest v).1).length) := by
  have hinner := exists_items (S := S) hlist
  by_cases hopen : v.isAllocated = true ∨ e.action ≠ .delete
  · have hitems := ((keeps_allocate hS v).typed hv).innermost
    rw [hinner] at hitems
    rcases h.settled_walkItem hS hitems hhead hother key with ⟨after, hafter, hsettled, hthere⟩
    rw [walkField_allocate h.bracketed.isEmpty_eq hopen, hinner, hafter, items_withCore]
    exact ⟨hsettled, hthere⟩
  · have halloc : v.isAllocated = false := by
      cases hvalue : v.isAllocated with
      | false => rfl
      | true => exact absurd (Or.inl hvalue) hopen
    have haction : e.action = .delete := by
      by_cases haction : e.action = .delete
      · exact haction
      · exact absurd (Or.inr haction) hopen
    rw [walkField_unallocated halloc haction]
    exact ⟨.refl _ _, fun hne => absurd haction hne⟩

/-! ## Runs -/

section Run

variable {owner field : String} {i : Nat} {fields : List (Field × Node σ)}

/-- The field holds a list of elements. -/
theorem ListField.exists_child (hf : S.ListField o owner field i elem) (hn : S.Typed loops n)
    (hrecord : n.container = .record owner fields) :
    ∃ v, n.child? (.field i) = some v ∧ v.ty.core = .list elem ∧ v.isEnclosing = false := by
  have hplace := fieldPlace_record hn hrecord o false field
  rw [hf.field_eq] at hplace
  rcases hplace with ⟨v, hv, -⟩
  have hlist := hf.list_eq
  rcases Option.map_eq_some_iff.1 (ty_of_field hn hrecord hv) with ⟨f, hsignature, hty⟩
  rw [hsignature] at hlist
  have hcore : v.ty.core = .list elem := by
    rw [← hty]
    exact Option.some.inj hlist
  refine ⟨v, hv, hcore, ?_⟩
  cases v with
  | enclosing other => simp [ty, Ty.core] at hcore
  | _ => rfl

/-- A key behind the name of the field goes to the list. -/
theorem ListField.slotOf_append (hf : S.ListField o owner field i elem)
    (htext : Key.Bracketed text) : S.slotOf? o false owner (field ++ text) = .ok (i, text) :=
  S.slotOf_append hf.plain htext hf.field_eq

theorem eq_pointee_of_mem_coreAddress {s : Step} (h : s ∈ v.coreAddress) : s = .pointee := by
  induction v using layers_induction with
  | absent t => simp [coreAddress] at h
  | present v ih =>
      rcases List.mem_cons.1 h with rfl | h
      · rfl
      · exact ih h
  | boxed v ih =>
      rcases List.mem_cons.1 h with rfl | h
      · rfl
      · exact ih h
  | bare v hv => simp [coreAddress_of_bare hv] at h

/-- What is found along the key is the element that the key describes. -/
theorem find_content_key (hf : S.ListField o owner field i elem)
    (h : S.Describes o elem type text parsed built) (hn : S.Typed loops n)
    (hrecord : n.container = .record owner fields) {mode : Mode} {a : Address}
    (hfind : Place.address <$> S.find o n (field ++ text) mode = .ok a) :
    ∃ v, n.child? (.field i) = some v ∧
      a = .field i :: ((S.allocate v).coreAddress ++
        [.element (Settled.position (agrees o (parsed.qualifiers.map Prod.fst) built)
          (S.items v))]) ∧
      Settled.position (agrees o (parsed.qualifiers.map Prod.fst) built) (S.items v) <
        (S.items v).length := by
  have haddress : ∀ (b : Address) (x : Except NavError (Place σ)),
      Place.address <$> Place.under b <$> x = (b ++ ·) <$> Place.address <$> x := by
    intro b x
    cases x <;> rfl
  rcases hf.exists_child hn hrecord with ⟨v, hv, hty, hown⟩
  rw [find_slot hn hrecord (hf.slotOf_append h.bracketed) hv hown, h.bracketed.isEmpty_eq] at hfind
  simp only [Bool.false_eq_true, if_false] at hfind
  refine ⟨v, hv, ?_⟩
  cases hcore : v.core with
  | error t => simp [hcore, Functor.map, Except.map] at hfind
  | ok d =>
      have halloc := S.allocate_of_isAllocated (isAllocated_of_core hcore)
      have hinner := exists_items (S := S) hty
      rw [halloc, innermost_of_core hcore] at hinner
      rw [hcore, hinner] at hfind
      simp only [haddress, h.findItem_list (S.items v)] at hfind
      rw [halloc, Settled.position]
      cases hindex : (S.items v).findIdx? (agrees o (parsed.qualifiers.map Prod.fst) built) with
      | none => simp [hindex, Functor.map, Except.map] at hfind
      | some j =>
          rcases List.findIdx?_eq_some_iff_getElem.1 hindex with ⟨hj, -, -⟩
          rw [hindex] at hfind
          exact ⟨(Except.ok.inj hfind).symm, hj⟩

/-- What is made along the key is the element that the key describes. -/
theorem createChild_content_key (hS : S.Sound loops) (hf : S.ListField o owner field i elem)
    (h : S.Describes o elem type text parsed built) (hn : S.Typed loops n)
    (hrecord : n.container = .record owner fields) {mode : Mode} {a : Address}
    (hcreate : S.createChild o n (field ++ text) mode = (m, .ok a)) :
    ∃ v, n.child? (.field i) = some v ∧
      a = .field i :: ((S.allocate v).coreAddress ++
        [.element (Settled.position (agrees o (parsed.qualifiers.map Prod.fst) built)
          (S.items v))]) ∧
      ∀ child, m.get? a = some child → child.ty = elem ∧
        agrees o (parsed.qualifiers.map Prod.fst) built child = true := by
  rcases hf.exists_child hn hrecord with ⟨v, hv, hty, hown⟩
  have hinner := exists_items (S := S) hty
  have hitems := ((keeps_allocate hS v).typed (hn.child hv)).innermost
  have hitem := keeps_createItem hS (o := o) (S.allocate v).innermost text .content
  have hmade := ((keeps_allocate hS v).trans hitem.withCore).ty_eq
  rw [hinner] at hitems
  rw [createChild_slot hn hrecord (hf.slotOf_append h.bracketed) hv hown, h.bracketed.isEmpty_eq]
    at hcreate
  rw [hinner, h.createItem_list (S.items v)] at hcreate hmade
  simp only [Bool.false_eq_true, if_false, Prod.mk.injEq] at hcreate
  refine ⟨v, hv, ?_⟩
  rw [Settled.position]
  cases hindex : (S.items v).findIdx? (agrees o (parsed.qualifiers.map Prod.fst) built) with
  | none =>
      rw [hindex] at hcreate hmade
      rcases hcreate with ⟨rfl, ha⟩
      obtain rfl := Except.ok.inj ha
      refine ⟨rfl, fun child hchild => ?_⟩
      rw [get?_putField hv hmade] at hchild
      have hlast : (S.items v ++ [built])[(S.items v).length]? = some built :=
        List.getElem?_concat_length
      simp only [Node.get?, child?, hlast, Option.bind_some] at hchild
      obtain rfl := Option.some.inj hchild
      exact ⟨(typed_build hS h.build_eq).1, h.agrees_built hS⟩
  | some j =>
      rcases List.findIdx?_eq_some_iff_getElem.1 hindex with ⟨hj, hmatch, -⟩
      rw [hindex] at hcreate hmade
      rcases hcreate with ⟨rfl, ha⟩
      obtain rfl := Except.ok.inj ha
      refine ⟨rfl, fun child hchild => ?_⟩
      rw [get?_putField hv hmade] at hchild
      have hw : (S.items v)[j]? = some (S.items v)[j] := List.getElem?_eq_getElem hj
      simp only [Node.get?, child?, hw, Option.bind_some] at hchild
      obtain rfl := Option.some.inj hchild
      exact ⟨ty_of_item hitems hw, hmatch⟩

/-- A step along the key leads to the element that the key describes, which is there
if the step makes nothing. -/
theorem enter_content_key (hS : S.Sound loops) (hf : S.ListField o owner field i elem)
    (h : S.Describes o elem type text parsed built) (hn : S.Typed loops n)
    (hrecord : n.container = .record owner fields) {action : Action} {a : Address}
    (henter : S.enter o action n (field ++ text) = (m, .ok a)) :
    (∃ v below, n.child? (.field i) = some v ∧
      a = .field i :: ((S.allocate v).coreAddress ++
        .element (Settled.position (agrees o (parsed.qualifiers.map Prod.fst) built)
          (S.itemsAt i n)) :: below) ∧ ∀ s ∈ below, s = .pointee) ∧
    (action = .delete →
      Settled.position (agrees o (parsed.qualifiers.map Prod.fst) built) (S.itemsAt i n) <
        (S.itemsAt i n).length) := by
  have hitems : ∀ v, n.child? (.field i) = some v → S.itemsAt i n = S.items v := by
    intro v hv
    rw [itemsAt, hv]
    rfl
  by_cases haction : action = .delete
  · rw [haction, enter_delete] at henter
    rcases find_content_key hf h hn hrecord (Prod.mk.inj henter).2 with ⟨v, hv, ha, hthere⟩
    rw [hitems v hv]
    exact ⟨⟨v, [], hv, ha, List.forall_mem_nil _⟩, fun _ => hthere⟩
  · refine ⟨?_, fun hdelete => absurd hdelete haction⟩
    rcases enter_create_eq_ok (ready_of_record hrecord) haction henter with
      ⟨r, b, child, hcreate, -, -, rfl⟩
    rcases createChild_content_key hS hf h hn hrecord hcreate with ⟨v, hv, rfl, -⟩
    rw [hitems v hv]
    refine ⟨v, (S.allocate child).coreAddress, hv, by simp, fun s hs => ?_⟩
    exact eq_pointee_of_mem_coreAddress hs

/-- The event goes below a segment that ends in a key, and on in a field that the
key does not name. -/
def Below (S : Schema σ) (o : Options) (type : String) (parsed : Key) (head : String)
    (e : Event) : Prop :=
  ∃ rest segment, e.path = head :: rest ∧ (rest ++ [e.key]).head? = some segment ∧
    ¬ S.Names o type parsed segment

/-- At the record an event below the key changes the field. -/
theorem walk_content_key (hS : S.Sound loops) (hf : S.ListField o owner field i elem)
    (h : S.Describes o elem type text parsed built) (hn : S.Typed loops n)
    (hrecord : n.container = .record owner fields) (hv : n.child? (.field i) = some v)
    (hown : v.isEnclosing = false) (e : Event) (rest : List String) :
    S.walk o e n ((field ++ text) :: rest) =
      n.putBack [.field i] (S.walkField o e text (field ++ text) rest v) := by
  have hslot := hf.slotOf_append h.bracketed
  by_cases haction : e.action = .delete
  · exact walk_field_delete hn hrecord haction hslot hv hown rest
  · refine walk_field_create hS hn hrecord haction hslot hv hown fun m a child hmade hget => ?_
    rcases createChild_content_key hS hf h hn hrecord hmade with ⟨-, -, -, hchild⟩
    rcases hchild child hget with ⟨hchildTy, hagrees⟩
    rcases h.record_of_agrees hchildTy hagrees with ⟨halloc, others, hothers⟩
    exact opens_of_ready hS halloc (ready_of_record hothers) rest

/-- One event below the key leaves a settled list. -/
theorem settled_apply (hS : S.Sound loops) (hfree : S.OverrideFree)
    (hf : S.ListField o owner field i elem) (h : S.Describes o elem type text parsed built)
    (hn : S.Typed loops n) (hrecord : n.container = .record owner fields)
    (he : S.Below o type parsed (field ++ text) e) :
    Settled (agrees o (parsed.qualifiers.map Prod.fst) built) (S.itemsAt i n)
        (S.itemsAt i (S.apply o e n).1) ∧
      (e.action ≠ .delete →
        Settled.position (agrees o (parsed.qualifiers.map Prod.fst) built) (S.itemsAt i n) <
          (S.itemsAt i (S.apply o e n).1).length) ∧
        S.Keeps loops n (S.apply o e n).1 := by
  rcases he with ⟨rest, segment, hpath, hhead, hother⟩
  have hroot : e.isRoot = false := by
    rw [Event.isRoot, hpath]
    rfl
  rcases hf.exists_child hn hrecord with ⟨v, hv, hty, hown⟩
  have hwalk := walk_content_key hS hf h hn hrecord hv hown e rest
  have hkeeps := keeps_walkField hS (o := o) e text (field ++ text) rest v
  rw [apply_of_silent hn (hfree.silent n) hroot, hpath, hwalk, putBack_field hv]
  have hsettled := h.settled_walkField hS (hn.child hv) hty hhead hother (field ++ text)
  rw [itemsAt, itemsAt, child?_putChild hv hkeeps.ty_eq, hv]
  exact ⟨hsettled.1, hsettled.2, Keeps.putChild hv hkeeps⟩

/-- A run of events below the key leaves a settled list. -/
theorem settled_run (hS : S.Sound loops) (hfree : S.OverrideFree)
    (hf : S.ListField o owner field i elem) (h : S.Describes o elem type text parsed built)
    (hn : S.Typed loops n) (hrecord : n.container = .record owner fields) {events : List Event}
    (hevents : ∀ e ∈ events, S.Below o type parsed (field ++ text) e) :
    Settled (agrees o (parsed.qualifiers.map Prod.fst) built) (S.itemsAt i n)
        (S.itemsAt i (S.run o n events)) ∧
      S.Keeps loops n (S.run o n events) := by
  induction events generalizing n fields with
  | nil => exact ⟨.refl _ _, .refl n⟩
  | cons e rest ih =>
      have hstep := settled_apply hS hfree hf h hn hrecord (hevents e List.mem_cons_self)
      rcases record_of_keeps hstep.2.2 hn hrecord with ⟨hnext, others, hnextRecord⟩
      have hrest := ih hnext hnextRecord fun e he => hevents e (List.mem_cons_of_mem _ he)
      exact ⟨hstep.1.trans hrest.1, hstep.2.2.trans hrest.2⟩

/-- Content keys are stable over runs.  Events below one content key that leave the
fields it names alone all work on one element: the first one that matches the key,
or the one appended for it.  Every other element is unchanged, and the element goes
on being the first match.  Records of the target may be fields of themselves. -/
theorem content_key_stable (hS : S.Sound loops) (hfree : S.OverrideFree)
    (hf : S.ListField o owner field i elem) (h : S.Describes o elem type text parsed built)
    {target : Node σ} (htarget : S.Typed loops target)
    (hrecord : target.container = .record owner fields) {events : List Event}
    (hevents : ∀ e ∈ events, S.Below o type parsed (field ++ text) e) :
    let old := S.itemsAt i target
    let now := S.itemsAt i (S.run o target events)
    let position := Settled.position (agrees o (parsed.qualifiers.map Prod.fst) built) old
    old.length ≤ now.length ∧ now.length ≤ old.length + 1 ∧
      (∀ j, j ≠ position → now[j]? = old[j]?) ∧
      S.matchIndex o elem old text = .ok (if position < old.length then some position else none) ∧
      S.matchIndex o elem now text = .ok (if position < now.length then some position else none) ∧
      ∀ before e later, events = before ++ e :: later →
        ∀ m a, S.enter o e.action (S.run o target before) (field ++ text) = (m, .ok a) →
          position < now.length ∧
            ∃ v below, (S.run o target before).child? (.field i) = some v ∧
              a = .field i :: ((S.allocate v).coreAddress ++ .element position :: below) ∧
                ∀ s ∈ below, s = .pointee := by
  intro old now position
  have hnames := constrained_of_decode h.bracketed.isStructured h.decode_eq
  rcases settled_run hS hfree hf h htarget hrecord hevents with ⟨hsettled, -⟩
  refine ⟨hsettled.grows, hsettled.length_le, hsettled.others, ?_, ?_, ?_⟩
  · rw [matchIndex_build h.build_eq hnames, (Settled.refl _ old).findIdx]
  · rw [matchIndex_build h.build_eq hnames, hsettled.findIdx]
  · rintro before e later rfl m a henter
    have hbefore : ∀ d ∈ before, S.Below o type parsed (field ++ text) d :=
      fun d hd => hevents d (List.mem_append_left _ hd)
    have he : S.Below o type parsed (field ++ text) e :=
      hevents e (List.mem_append_right _ List.mem_cons_self)
    have hlater : ∀ d ∈ later, S.Below o type parsed (field ++ text) d :=
      fun d hd => hevents d (List.mem_append_right _ (List.mem_cons_of_mem _ hd))
    rcases settled_run hS hfree hf h htarget hrecord hbefore with ⟨hfirst, hkeeps⟩
    rcases record_of_keeps hkeeps htarget hrecord with ⟨hn, others, hothers⟩
    rcases settled_apply hS hfree hf h hn hothers he with ⟨hstep, hmade, hkeeps'⟩
    rcases record_of_keeps hkeeps' hn hothers with ⟨hn', others', hothers'⟩
    have hlast := (settled_run hS hfree hf h hn' hothers' hlater).1
    rcases enter_content_key hS hf h hn hothers henter with ⟨hlands, hfound⟩
    rw [hfirst.position_eq] at hlands hfound hmade
    refine ⟨?_, hlands⟩
    have hnow : now = S.itemsAt i (S.run o (S.apply o e (S.run o target before)).1 later) := by
      simp only [now, run, List.foldl_append, List.foldl_cons]
    rw [hnow]
    by_cases haction : e.action = .delete
    · exact Nat.lt_of_lt_of_le (hfound haction) (Nat.le_trans hstep.grows hlast.grows)
    · exact Nat.lt_of_lt_of_le (hmade haction) hlast.grows

end Run

/-! ## Ports of a switch -/

theorem ports_ne_empty : "ports" ≠ "" := by decide

/-- A switch whose ports are not there yet. -/
def switch : Schema Unit :=
  ((empty ()).declare "Port"
    [(⟨"name", none, true, by decide, Field.none_ne_empty⟩, .scalar .string),
      (⟨"mtu", none, true, by decide, Field.none_ne_empty⟩, .scalar (.int .u16))]
    ()).declare "Switch"
    [(⟨"ports", none, true, ports_ne_empty, Field.none_ne_empty⟩,
      .option (.list (.record "Port")))] ()

/-- A port with a name and otherwise new. -/
def port (name : String) : Node Unit :=
  .record "Port"
    [(⟨"name", none, true, by decide, Field.none_ne_empty⟩, .scalar (.text name)),
      (⟨"mtu", none, true, by decide, Field.none_ne_empty⟩, .scalar (.zero (.int .u16)))] ()

theorem decode_eth0 : Key.decode "[name=eth0]" = .ok ⟨"", [("name", "eth0")]⟩ :=
  eq_ok_of_toOption (by decide +kernel)

theorem build_eth0 : switch.build {} (.record "Port") "[name=eth0]" = .ok (port "eth0") := by
  have hprepare : switch.prepare {} (switch.zero (.record "Port")) = port "" := by rfl
  have hplace : (port "").fieldPlace {} true "Port"
      [(⟨"name", none, true, by decide, by decide⟩, .scalar (.text "")),
        (⟨"mtu", none, true, by decide, by decide⟩, .scalar (.zero (.int .u16)))] "name" =
      .ok ⟨[.field 0], .scalar (.text "")⟩ := by rfl
  have hname : switch.fill {} (.scalar (.text "")) "eth0" = .ok (.scalar (.text "eth0")) := by
    rw [fill]
    rfl
  have hfields : switch.fillFields {} (port "") [("name", "eth0")] = .ok (port "eth0") := by
    rw [port] at hplace
    rw [port, fillFields]
    simp only [hplace, hname]
    rw [fillFields]
    rfl
  rw [port] at hfields hprepare
  rw [build, fill, hprepare]
  simp only [innermost]
  split
  · rename_i err herr
    simp [decode_eth0] at herr
  · rename_i key hkey
    obtain rfl := Except.ok.inj (decode_eth0.symm.trans hkey)
    rw [hfields]
    rfl

theorem describes_eth0 :
    switch.Describes {} (.record "Port") "Port" "[name=eth0]" ⟨"", [("name", "eth0")]⟩
      (port "eth0") := by
  have hname : ∀ q ∈ [("name", "eth0")], ∀ v, (port "eth0").namedField? {} q.1 = some v →
      v = .scalar (.text "eth0") := by
    intro q hq v hv
    obtain rfl := List.mem_singleton.1 hq
    have hname : (port "eth0").namedField? {} "name" = some (.scalar (.text "eth0")) := by rfl
    exact Option.some.inj (hv.symm.trans hname)
  refine ⟨?_, rfl, decode_eth0, build_eth0, ?_, ?_⟩
  · have hcut : Key.cut "[name=eth0]" = .ok ⟨[], [("name=eth0".toList, [])]⟩ :=
      eq_ok_of_toOption (by decide +kernel)
    exact ⟨_, by decide, hcut, by simp⟩
  · intro q hq v hv a elem items ha
    obtain rfl := hname q hq v hv
    cases a with
    | nil => simp [get?] at ha
    | cons s rest => simp [get?, child?] at ha
  · intro q hq v hv a w ha
    obtain rfl := hname q hq v hv
    cases a with
    | nil =>
        obtain rfl := Option.some.inj ha
        rfl
    | cons s rest => simp [get?, child?] at ha

theorem sound_switch : switch.Sound False := by
  refine sound_of_tree fun d hd f hf => ?_
  rcases List.mem_cons.1 hd with rfl | hd
  · rcases List.mem_cons.1 hf with rfl | hf
    · exact .scalar _
    · obtain rfl := List.mem_singleton.1 hf
      exact .scalar _
  · obtain rfl := List.mem_singleton.1 hd
    obtain rfl := List.mem_singleton.1 hf
    exact .absent _

theorem overrideFree_switch : switch.OverrideFree := by
  intro d hd state
  rcases List.mem_cons.1 hd with rfl | hd
  · rfl
  · obtain rfl := List.mem_singleton.1 hd
    rfl

theorem listField_ports : switch.ListField {} "Switch" "ports" 0 (.record "Port") :=
  ⟨by simp, by rfl, by rfl⟩

theorem not_names_mtu : ¬ switch.Names {} "Port" ⟨"", [("name", "eth0")]⟩ "mtu" := by
  rintro ⟨i, text, hslot, hnames⟩
  have hmtu : switch.slotOf? {} false "Port" "mtu" = .ok (1, "") := by rfl
  have hname : switch.fieldOf? {} false "Port" "name" = .ok 0 := by rfl
  obtain ⟨rfl, -⟩ := Prod.mk.inj (Except.ok.inj (hmtu.symm.trans hslot))
  rcases hnames with hself | ⟨q, hq, hfield⟩
  · have hty : ((switch.signature "Port")[1]?).map Prod.snd = some (.scalar (.int .u16)) := by rfl
    exact Ty.noConfusion (Option.some.inj (hty.symm.trans hself))
  · obtain rfl := List.mem_singleton.1 hq
    exact absurd (Except.ok.inj (hname.symm.trans hfield)) (by decide)

/-- One port is made for three events: one that writes it, one that fails and one
that deletes. -/
theorem content_key_stable_switch :
    let target := switch.zero (.record "Switch")
    let events : List Event :=
      [⟨.create, ["ports[name=eth0]"], "mtu", .scalar .int, "1500", none⟩,
        ⟨.replace, ["ports[name=eth0]"], "mtu", .scalar .int, "70000", none⟩,
        ⟨.delete, ["ports[name=eth0]"], "mtu", .scalar .null, "", none⟩]
    (switch.itemsAt 0 (switch.run {} target events)).length ≤ 1 ∧
      ∀ j, j ≠ 0 → (switch.itemsAt 0 (switch.run {} target events))[j]? = none := by
  intro target events
  have hevents : ∀ e ∈ events, switch.Below {} "Port" ⟨"", [("name", "eth0")]⟩
      ("ports" ++ "[name=eth0]") e := by
    intro e he
    simp only [events, List.mem_cons, List.not_mem_nil, or_false] at he
    rcases he with rfl | rfl | rfl
    · exact ⟨[], "mtu", rfl, rfl, not_names_mtu⟩
    · exact ⟨[], "mtu", rfl, rfl, not_names_mtu⟩
    · exact ⟨[], "mtu", rfl, rfl, not_names_mtu⟩
  have h := content_key_stable sound_switch overrideFree_switch listField_ports describes_eth0
    (typed_zero sound_switch (.record "Switch")) rfl hevents
  exact ⟨h.2.1, fun j hj => h.2.2.1 j hj⟩

end Schema

end TreeSync
