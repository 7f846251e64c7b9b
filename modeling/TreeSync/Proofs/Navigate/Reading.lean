import TreeSync.Proofs.Navigate.Slots
import TreeSync.Proofs.Node.Retaining
import TreeSync.Proofs.Schema.Matching

/-!
# Reading along plain keys

The name of a field, the key of an entry or the position of an element leads a reader
from a node to a child.  Which step such a key stands for, the type of the node says.
So a reader finds a scalar again that a change retained, as long as the change left
the types, and the fields that stand for the record around them.

Main definitions and results:

- `Schema.readStep` and `Schema.read?`: what a reader is shown.
- `Schema.Shows`: one step of a reader, by the container that it starts from.
- `Schema.exists_read_of_retains`: a retained scalar is read where it was.
-/

namespace TreeSync

namespace Schema

open Node

variable {σ : Type} {S : Schema σ} {o : Options} {loops : Prop} {n m c d v : Node σ}
  {key : String} {place : Place σ} {b : Address}

/-! ## What a reader is shown -/

/-- The child that a reader is shown under the name of a field, the key of an entry or
the position of an element. -/
def readStep (S : Schema σ) (o : Options) (n : Node σ) (key : String) : Option (Place σ) :=
  if n.innermost.kind = .record ∧ Key.isStructured key then none
  else (S.findRef o n key .index).toOption

/-- What a reader is shown behind a sequence of such keys. -/
def read? (S : Schema σ) (o : Options) (n : Node σ) : List String → Option (Place σ)
  | [] => some ⟨[], n⟩
  | key :: rest =>
      (S.readStep o n key).bind fun place =>
        (read? S o place.node rest).map (Place.under place.address)

/-- A key leads a reader from a node without layers to a child. -/
inductive Shows (o : Options) (c : Node σ) (key : String) : Place σ → Prop where
  | field {type : String} {fields : List (Field × Node σ)} {place : Place σ}
      (record : c.container = .record type fields) (named : key.isEmpty = false)
      (plain : Key.isStructured key = false)
      (found : c.fieldPlace o false type fields key = .ok place)
      (filled : place.node.isAllocated = true) : Shows o c key place
  | entry {kind : KeyKind} {elem : Ty} {entries : List (MapKey × Node σ)} {k : MapKey} {v : Node σ}
      (map : c.container = .map kind elem entries) (named : key.isEmpty = false)
      (spelled : kind.readKey key = .ok k) (there : c.child? (.entry k) = some v) :
      Shows o c key ⟨[.entry k], v⟩
  | element {elem : Ty} {items : List (Node σ)} {i : Nat} {v : Node σ}
      (list : c.container = .list elem items) (spelled : Mode.position? key = some i)
      (there : c.child? (.element i) = some v) : Shows o c key ⟨[.element i], v⟩

/-- The child stands where the reader is sent. -/
theorem Shows.get (h : Shows o c key place) : c.get? place.address = some place.node := by
  cases h with
  | field record _ _ found _ => exact get?_fieldPlace record found
  | entry _ _ _ there => simp [get?, there]
  | element _ _ there => simp [get?, there]

theorem splitField_of_plain (h : Key.isStructured key = false) :
    Key.splitField key = .ok (key, "") := by
  rw [Key.splitField, h]
  rfl

/-- An entry or element that a reader is shown. -/
theorem readItem_eq_ok (hc : ∀ type fields, c.container ≠ .record type fields) :
    S.readItem o c key .index = .ok place ↔ Shows o c key place := by
  constructor
  · intro h
    rw [readItem] at h
    split at h
    · rename_i type fields hcontainer
      exact absurd hcontainer (hc type fields)
    · rename_i kind elem entries hcontainer
      split at h
      · simp at h
      · rename_i hnamed
        split at h
        · simp at h
        · rename_i k hk
          cases hentry : Entries.get? k entries with
          | none => simp [hentry] at h
          | some v =>
              obtain rfl : (⟨[.entry k], v⟩ : Place σ) = place := by simpa [hentry] using h
              exact .entry hcontainer (Bool.eq_false_iff.2 hnamed) hk
                ((child?_entry hcontainer k).trans hentry)
    · rename_i elem items hcontainer
      rw [locate] at h
      cases hposition : Mode.position? key with
      | none => simp [hposition] at h
      | some i =>
          by_cases hi : i < items.length
          · obtain rfl : (⟨[.element i], items[i]⟩ : Place σ) = place := by
              simpa [hposition, hi] using h
            exact .element hcontainer hposition
              ((child?_element hcontainer i).trans (List.getElem?_eq_getElem hi))
          · simp [hposition, hi] at h
    all_goals simp at h
  · intro h
    rw [readItem]
    cases h with
    | field record _ _ _ _ => exact absurd record (hc _ _)
    | entry map named spelled there =>
        rw [child?_entry map] at there
        simp [map, named, spelled, there]
    | element list spelled there =>
        rw [child?_element list] at there
        obtain ⟨hi, -⟩ := List.getElem?_eq_some_iff.1 there
        simp only [list, locate, spelled, if_pos hi, Option.bind_some, there, Option.map_some]
        rfl

/-- Of the nodes of their kind only records show anything. -/
theorem Shows.kind_ne (h : Shows o c key place)
    (hc : ∀ type fields, c.container ≠ .record type fields) : c.kind ≠ .record := by
  cases h with
  | field record _ _ _ _ => exact absurd record (hc _ _)
  | entry map _ _ _ =>
      rcases eq_map_of_container map with ⟨order, rfl⟩ | ⟨-, -, others, rfl⟩
      · exact Kind.noConfusion
      · exact Kind.noConfusion
  | element list _ _ =>
      rcases eq_list_of_container list with rfl | ⟨-, others, -, rfl⟩
      · exact Kind.noConfusion
      · exact Kind.noConfusion

/-- A field that a reader is shown. -/
theorem shows_record {type : String} {fields : List (Field × Node σ)}
    (hrecord : c.container = .record type fields) :
    Shows o c key place ↔ key.isEmpty = false ∧ Key.isStructured key = false ∧
      c.fieldPlace o false type fields key = .ok place ∧ place.node.isAllocated = true := by
  constructor
  · intro h
    cases h with
    | field record named plain found filled =>
        obtain ⟨rfl, rfl⟩ := Container.record.inj (hrecord.symm.trans record)
        exact ⟨named, plain, found, filled⟩
    | entry map _ _ _ => simp [hrecord] at map
    | element list _ _ => simp [hrecord] at list
  · rintro ⟨named, plain, found, filled⟩
    exact .field hrecord named plain found filled

theorem findRef_item (halloc : n.isAllocated = true)
    (hitems : ∀ type fields, n.innermost.container ≠ .record type fields) (key : String)
    (mode : Mode) :
    S.findRef o n key mode = Place.under n.coreAddress <$> S.readItem o n.innermost key mode := by
  rw [findRef, core?, core_eq_ok_innermost halloc, Except.toOption]
  cases hcontainer : n.innermost.container with
  | record type fields => exact absurd hcontainer (hitems type fields)
  | _ => simp only [hcontainer]

/-- A name without brackets leads a reader to a field that is filled. -/
theorem findRef_record (halloc : n.isAllocated = true) {type : String}
    {fields : List (Field × Node σ)} (hrecord : n.innermost.container = .record type fields)
    (hplain : Key.isStructured key = false) (mode : Mode) :
    S.findRef o n key mode = .ok place ↔
      ∃ field, key.isEmpty = false ∧ n.innermost.fieldPlace o false type fields key = .ok field ∧
        field.node.isAllocated = true ∧ place = field.under n.coreAddress := by
  rw [findRef, core?, core_eq_ok_innermost halloc]
  simp only [Except.toOption, hrecord, splitField_of_plain hplain]
  cases hnamed : key.isEmpty with
  | true => simp
  | false =>
      cases hfield : n.innermost.fieldPlace o false type fields key with
      | error err => simp [bind, Except.bind, hfield]
      | ok field =>
          cases hfilled : field.node.core? with
          | none => simp [bind, Except.bind, hfield, hfilled, isAllocated]
          | some d =>
              have hnothing : "".isEmpty = true := rfl
              simp only [bind, Except.bind, hfield, isAllocated, hnothing]
              simp [hfilled, eq_comm (a := place)]

/-- A step of a reader is one below the layers. -/
theorem readStep_eq_some :
    S.readStep o n key = some place ↔
      n.isAllocated = true ∧ ∃ below, Shows o n.innermost key below ∧
        place = below.under n.coreAddress := by
  have hread : S.readStep o n key = some place ↔
      ¬ (n.innermost.kind = .record ∧ Key.isStructured key = true) ∧
        S.findRef o n key .index = .ok place := by
    rw [readStep]
    split
    · simp [*]
    · exact ⟨fun h => ⟨‹_›, eq_ok_of_toOption h⟩, fun h => by rw [h.2]; rfl⟩
  rw [hread]
  cases halloc : n.isAllocated with
  | false =>
      have hcore : n.core? = none := by simpa [isAllocated] using halloc
      simp [findRef, hcore]
  | true =>
      by_cases hrecord : ∃ type fields, n.innermost.container = .record type fields
      · rcases hrecord with ⟨type, fields, hrecord⟩
        have hkind : n.innermost.kind = .record := by
          rcases eq_record_of_container hrecord with ⟨state, heq⟩
          rw [heq]
          rfl
        simp only [shows_record hrecord, hkind, true_and]
        cases hplain : Key.isStructured key with
        | true => simp
        | false =>
            simp only [findRef_record halloc hrecord hplain, and_assoc]
            simp
      · have hitems : ∀ type fields, n.innermost.container ≠ .record type fields :=
          fun type fields heq => hrecord ⟨type, fields, heq⟩
        rw [findRef_item halloc hitems, map_eq_ok]
        simp only [readItem_eq_ok hitems, true_and]
        constructor
        · rintro ⟨-, below, hbelow, rfl⟩
          exact ⟨below, hbelow, rfl⟩
        · rintro ⟨below, hbelow, rfl⟩
          exact ⟨fun hboth => hbelow.kind_ne hitems hboth.1, below, hbelow, rfl⟩

theorem get?_readStep (h : S.readStep o n key = some place) :
    n.get? place.address = some place.node := by
  obtain ⟨-, below, hbelow, rfl⟩ := readStep_eq_some.1 h
  rw [Place.under, get?_append, get?_coreAddress]
  exact hbelow.get

/-- What a reader is shown stands where the reader is sent. -/
theorem get?_read {keys : List String} (h : S.read? o n keys = some place) :
    n.get? place.address = some place.node := by
  induction keys generalizing n place with
  | nil =>
      obtain rfl := Option.some.inj h
      rfl
  | cons key rest ih =>
      obtain ⟨first, hfirst, hrest⟩ := Option.bind_eq_some_iff.1 h
      obtain ⟨below, hbelow, rfl⟩ := Option.map_eq_some_iff.1 hrest
      rw [Place.under, get?_append, get?_readStep hfirst]
      exact ih hbelow

/-! ## Retained scalars -/

/-- What stands for the record around it has nothing below. -/
theorem isEnclosing_of_get {a : Address} (h : d.get? a = some v) (hv : v.isEnclosing = false) :
    d.isEnclosing = false := by
  cases d with
  | enclosing type =>
      cases a with
      | nil =>
          obtain rfl := Option.some.inj h
          exact hv
      | cons s rest => simp [get?, child?] at h
  | _ => rfl

theorem exists_map_of_ty {kind : KeyKind} {elem : Ty} {entries : List (MapKey × Node σ)}
    (h : c.container = .map kind elem entries) (hty : d.ty = c.ty) {k : MapKey}
    (hv : d.child? (.entry k) = some v) : ∃ others, d.container = .map kind elem others := by
  rcases eq_map_of_container h with ⟨order, rfl⟩ | ⟨rfl, rfl, entries, rfl⟩
  · cases d with
    | map order' kind' elem' others =>
        obtain ⟨-, rfl, rfl⟩ : order' = order ∧ kind' = kind ∧ elem' = elem := by simpa [ty] using hty
        exact ⟨others, rfl⟩
    | _ => simp [ty] at hty
  · rcases eq_dynamic_of_ty hty with ⟨e, rfl⟩
    cases e with
    | map others => exact ⟨_, rfl⟩
    | _ => simp [child?] at hv

theorem exists_list_of_ty {elem : Ty} {items : List (Node σ)} (h : c.container = .list elem items)
    (hty : d.ty = c.ty) {i : Nat} (hv : d.child? (.element i) = some v) :
    ∃ others, d.container = .list elem others := by
  rcases eq_list_of_container h with rfl | ⟨rfl, items, -, rfl⟩
  · cases d with
    | list elem' others =>
        obtain rfl : elem' = elem := by simpa [ty] using hty
        exact ⟨others, rfl⟩
    | _ => simp [ty] at hty
  · rcases eq_dynamic_of_ty hty with ⟨e, rfl⟩
    cases e with
    | seq others => exact ⟨_, rfl⟩
    | _ => simp [child?] at hv

section Retained

variable (hn : S.Typed loops n) (hm : S.Typed loops m) (hty : m.ty = n.ty)
  (hretains : n.Retains (fun _ u => u.kind = .dynamic) m) (hself : v.isEnclosing = false)

include hn hm hty hretains hself

/-- The name of a field leads where it led, if what it led to holds a retained scalar. -/
theorem Shows.field_of_retains {type : String} {fields : List (Field × Node σ)}
    (hrecord : n.container = .record type fields) (h : Shows o n key place)
    (hthere : m.get? (place.address ++ b) = some v) (hbare : v.Bare) :
    ∃ w, Shows o m key ⟨place.address, w⟩ ∧ w.ty = place.node.ty := by
  obtain ⟨named, plain, found, -⟩ := (shows_record hrecord).1 h
  obtain ⟨others, hothers⟩ : ∃ others, m.container = .record type others := by
    rcases eq_record_of_container hrecord with ⟨state, rfl⟩
    rcases eq_record_of_ty (isEnclosing_of_get hthere hself) hty with ⟨others, state, rfl⟩
    exact ⟨others, rfl⟩
  have hbefore := fieldPlace_record hn hrecord o false key
  have hafter := fieldPlace_record hm hothers o false key
  cases hslot : S.fieldOf? o false type key with
  | error err =>
      rw [hslot] at hbefore
      simp [hbefore] at found
  | ok i =>
      rw [hslot] at hbefore hafter
      obtain ⟨u, hu, hplace⟩ := hbefore
      obtain ⟨w, hw, hother⟩ := hafter
      obtain rfl := Except.ok.inj (found.symm.trans hplace)
      cases hloop : u.isEnclosing with
      | true =>
          -- The field is the record itself, before and after.
          have hatoms : u.isAtom = true ∧ u.kind ≠ .dynamic := by
            cases u <;> simp_all [isEnclosing, isAtom, kind]
          obtain rfl : u = w := by
            rcases hretains [.field i] u (by simp [get?, hu]) hatoms.1 with hkept | hlost
            · simpa [get?, hw] using hkept.symm
            · exact absurd hlost hatoms.2
          rw [if_pos hloop] at hother
          simp only [if_true]
          refine ⟨m, .field hothers named plain hother (isAllocated_of_bare ?_), hty⟩
          rcases eq_record_of_container hothers with ⟨state, rfl⟩
          exact Kind.noConfusion
      | false =>
          simp only [if_neg (Bool.eq_false_iff.1 hloop), Bool.false_eq_true, if_false] at hthere ⊢
          have hbelow : w.get? b = some v := by simpa [get?, hw] using hthere
          have hwself := isEnclosing_of_get hbelow hself
          rw [if_neg (Bool.eq_false_iff.1 hwself)] at hother
          refine ⟨w, .field hothers named plain hother (isAllocated_of_get hbelow hbare), ?_⟩
          have htypes := (ty_of_field hm hothers hw).symm.trans (ty_of_field hn hrecord hu)
          exact Option.some.inj htypes

/-- A step of a reader leads where it led, if what it led to holds a retained scalar. -/
theorem Shows.of_retains (h : Shows o n key place)
    (hthere : m.get? (place.address ++ b) = some v) (hbare : v.Bare) :
    ∃ w, Shows o m key ⟨place.address, w⟩ ∧ w.ty = place.node.ty := by
  cases h with
  | field record named plain found filled =>
      exact field_of_retains hn hm hty hretains hself record
        (.field record named plain found filled) hthere hbare
  | entry map named spelled there =>
      obtain ⟨w, hw, -⟩ := Option.bind_eq_some_iff.1 hthere
      obtain ⟨others, hothers⟩ := exists_map_of_ty map hty hw
      exact ⟨w, .entry hothers named spelled hw,
        (ty_of_entry hm hothers hw).trans (ty_of_entry hn map there).symm⟩
  | element list spelled there =>
      obtain ⟨w, hw, -⟩ := Option.bind_eq_some_iff.1 hthere
      obtain ⟨others, hothers⟩ := exists_list_of_ty list hty hw
      rw [child?_element list] at there
      have hitem := (child?_element hothers _).symm.trans hw
      exact ⟨w, .element hothers spelled hw,
        (ty_of_element hm hothers hitem).trans (ty_of_element hn list there).symm⟩

theorem readStep_of_retains (h : S.readStep o n key = some place)
    (hthere : m.get? (place.address ++ b) = some v) (hbare : v.Bare) :
    ∃ w, S.readStep o m key = some ⟨place.address, w⟩ ∧ w.ty = place.node.ty := by
  obtain ⟨halloc, below, hbelow, rfl⟩ := readStep_eq_some.1 h
  have hfilled := isAllocated_of_get hthere hbare
  have haddress := coreAddress_of_ty halloc hfilled hty
  simp only [Place.under, ← haddress, List.append_assoc] at hthere
  rw [get?_append, get?_coreAddress] at hthere
  have hcore := hretains.get n.get?_coreAddress (haddress ▸ m.get?_coreAddress)
  have hinner : m.innermost.ty = n.innermost.ty := by
    rw [ty_innermost hfilled, ty_innermost halloc, hty]
  obtain ⟨w, hw, hwty⟩ :=
    hbelow.of_retains hn.innermost hm.innermost hinner hcore hself hthere hbare
  refine ⟨w, readStep_eq_some.2 ⟨hfilled, _, hw, ?_⟩, hwty⟩
  rw [haddress]
  rfl

/-- A reader is sent where he was sent, if a scalar below is retained. -/
theorem exists_read_of_retains {keys : List String} (h : S.read? o n keys = some place)
    (hthere : m.get? (place.address ++ b) = some v) (hbare : v.Bare) :
    ∃ w, S.read? o m keys = some ⟨place.address, w⟩ ∧ w.ty = place.node.ty := by
  induction keys generalizing n m place with
  | nil =>
      obtain rfl := Option.some.inj h
      exact ⟨m, rfl, hty⟩
  | cons key rest ih =>
      obtain ⟨first, hfirst, hrest⟩ := Option.bind_eq_some_iff.1 h
      obtain ⟨below, hbelow, rfl⟩ := Option.map_eq_some_iff.1 hrest
      rw [Place.under, List.append_assoc] at hthere
      obtain ⟨u, hu, huty⟩ := readStep_of_retains hn hm hty hretains hself hfirst hthere hbare
      have hget := get?_readStep hu
      rw [get?_append, hget] at hthere
      obtain ⟨w, hw, hwty⟩ := ih (hn.get (get?_readStep hfirst)) (hm.get hget) huty
        (hretains.get (get?_readStep hfirst) hget) hbelow hthere
      refine ⟨w, ?_, hwty⟩
      rw [read?, hu, Option.bind_some, hw]
      rfl

/-- What a reader is shown below its layers is what stands there after a change. -/
theorem exists_innermost_of_retains {keys : List String} (h : S.read? o n keys = some place)
    (halloc : place.node.isAllocated = true)
    (hthere : m.get? (place.address ++ place.node.coreAddress) = some v) (hbare : v.Bare) :
    ∃ found, S.read? o m keys = some found ∧ found.node.isAllocated = true ∧
      found.node.innermost = v := by
  obtain ⟨w, hw, hwty⟩ := exists_read_of_retains hn hm hty hretains hself h hthere hbare
  have hbelow : w.get? place.node.coreAddress = some v := by
    rw [get?_append, get?_read hw] at hthere
    exact hthere
  have hfilled := isAllocated_of_get hbelow hbare
  rw [← coreAddress_of_ty halloc hfilled hwty, get?_coreAddress] at hbelow
  exact ⟨_, hw, hfilled, Option.some.inj hbelow⟩

end Retained

/-- The scalar that a node holds is an atom below its layers. -/
theorem isAtom_of_literal {literal : String} (h : n.literal? = some literal) :
    n.isAllocated = true ∧ n.innermost.isAtom = true ∧ n.innermost.isEnclosing = false := by
  cases halloc : n.isAllocated with
  | false =>
      have hcore : n.core? = none := by simpa [isAllocated] using halloc
      simp [literal?, hcore] at h
  | true =>
      rw [literal?, core?, core_eq_ok_innermost halloc, Except.toOption] at h
      cases hinner : n.innermost with
      | dynamic d =>
          obtain ⟨s, hs, -⟩ : ∃ s, d.scalar? = some s ∧ s.literal = literal := by
            simpa [hinner] using h
          exact ⟨rfl, by rw [isAtom, hs]; rfl, rfl⟩
      | scalar slot => exact ⟨rfl, rfl, rfl⟩
      | _ => simp [hinner] at h

theorem literal_of_innermost (hn : n.isAllocated = true) (hm : m.isAllocated = true)
    (h : m.innermost = n.innermost) : m.literal? = n.literal? := by
  rw [literal?, literal?, core?, core?, core_eq_ok_innermost hn, core_eq_ok_innermost hm, h]

/-- A reader is shown a literal again that a change retained. -/
theorem exists_literal_of_retains (hn : S.Typed loops n) (hm : S.Typed loops m)
    (hty : m.ty = n.ty) (hretains : n.Retains (fun _ u => u.kind = .dynamic) m)
    {keys : List String} {literal : String} (h : S.read? o n keys = some place)
    (hliteral : place.node.literal? = some literal)
    (hthere : m.get? (place.address ++ place.node.coreAddress) = some place.node.innermost) :
    ∃ found, S.read? o m keys = some found ∧ found.node.literal? = some literal := by
  obtain ⟨halloc, hatom, hself⟩ := isAtom_of_literal hliteral
  obtain ⟨found, hfound, hfilled, hinner⟩ :=
    exists_innermost_of_retains hn hm hty hretains hself h halloc hthere (bare_of_isAtom hatom)
  exact ⟨found, hfound, (literal_of_innermost halloc hfilled hinner).trans hliteral⟩

end Schema

end TreeSync
