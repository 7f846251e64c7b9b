import TreeSync.Navigate.Remove
import TreeSync.Proofs.Navigate.Keeping
import TreeSync.Proofs.Navigate.Positions
import TreeSync.Proofs.Node.Replacing
import TreeSync.Proofs.Node.Siblings
import TreeSync.Proofs.Schema.Matching

/-!
# Operations at a key that fail

Writing, shaping and removing a child fail in many places, and mostly before anything has
changed: new entries and elements are made in full and put in last.  What a failed write or
shape can leave is the value that missing layers around its slot were filled with, since
that comes before the check whether the content fits.  The one exception is a shape for a
list element that is built from the key: the element is in the list by then.

Main definitions and results:

- `Schema.slotPlace`: the slot at a key.
- `Schema.Spares`: a change that, if it fails, fills missing layers of a slot at most.
- `Schema.atKey`, `Schema.spares_atKey`: what writing and shaping have in common.
- `Schema.LeafOp`, `Schema.run_error`: the operations, and what they leave where they fail.
- `Schema.run_error_built`: what is left of an element that was built for a shape.
-/

namespace TreeSync

namespace Schema

open Node

variable {σ : Type} {S : Schema σ} {o : Options} {loops : Prop} {n m c v : Node σ}
  {key text : String} {mode way : Mode} {slot : Except NavError (Place σ)}
  {changed : Node σ × Except NavError Unit}

/-! ## The slot at a key -/

variable (S o) in
/-- The slot that an operation at a key is for: a field, an entry or an element that is
there.  Text behind the name of an unallocated field leads nowhere yet, so the slot is the
field. -/
def slotPlace (n : Node σ) (key : String) (mode : Mode) : Except NavError (Place σ) :=
  Place.under n.coreAddress <$>
    match n.innermost.container with
    | .record type fields => do
        let (place, rest) ← writableField o n.innermost type fields key
        if rest.isEmpty || !place.node.isAllocated then return place
        else
          Place.under (place.address ++ place.node.coreAddress) <$>
            S.findItem o place.node.innermost rest .content
    | _ => S.findItem o n.innermost key mode

/-! ## What a failure leaves -/

/-- What a failed change of a node leaves: the node, or the node with the missing layers of
one slot filled. -/
inductive Spared (S : Schema σ) (slot : Except NavError (Place σ)) (n : Node σ) :
    Node σ → Prop where
  /-- Nothing changed. -/
  | same : Spared S slot n n
  /-- The slot has all of its layers now. -/
  | filled {place : Place σ} (hplace : slot = .ok place)
      (hmissing : place.node.isAllocated = false) :
      Spared S slot n (n.replaceAt place.address (S.allocate place.node))

/-- Where there is no slot, nothing changed. -/
theorem Spared.eq_of_not_found (h : S.Spared slot n m) (hslot : ∀ place, slot ≠ .ok place) :
    m = n := by
  cases h with
  | same => rfl
  | filled hplace _ => exact absurd hplace (hslot _)

theorem under_under (a b : Address) (slot : Except NavError (Place σ)) :
    Place.under a <$> (Place.under b <$> slot) = Place.under (a ++ b) <$> slot := by
  cases slot with
  | error err => rfl
  | ok place => simp [Functor.map, Except.map, Place.under]

/-- A change that, if it fails, does no more than fill the missing layers of a slot. -/
def Spares (S : Schema σ) (slot : Except NavError (Place σ)) (n : Node σ)
    (changed : Node σ × Except NavError Unit) : Prop :=
  ∀ err, changed.2 = .error err → Spared S slot n changed.1

namespace Spares

theorem refuse (slot : Except NavError (Place σ)) (n : Node σ) (err : NavError) :
    S.Spares slot n (n, .error err) :=
  fun _ _ => .same

theorem done (slot : Except NavError (Place σ)) (n m : Node σ) : S.Spares slot n (m, .ok ()) :=
  fun _ h => nomatch h

/-- A change of the slot itself. -/
theorem of_slot (hn : S.Typed loops n) {place : Place σ} (hslot : slot = .ok place)
    (hget : n.get? place.address = some place.node)
    (h : ∀ err, changed.2 = .error err → changed.1 = S.allocate place.node) :
    S.Spares slot n (n.putBack place.address changed) := by
  intro err herr
  have hchanged : (n.putBack place.address changed).1 =
      n.replaceAt place.address (S.allocate place.node) :=
    congrArg (n.replaceAt place.address) (h err herr)
  rw [hchanged]
  cases halloc : place.node.isAllocated with
  | true =>
      rw [S.allocate_of_isAllocated halloc, hn.replaceAt_self hget]
      exact .same
  | false => exact .filled hslot halloc

/-- A change of a descendant. -/
theorem putBack (hn : S.Typed loops n) {a : Address} (hget : n.get? a = some c)
    (h : S.Spares slot c changed) :
    S.Spares (Place.under a <$> slot) n (n.putBack a changed) := by
  obtain ⟨d, outcome⟩ := changed
  intro err herr
  have hspared : S.Spared slot c d := h err herr
  rw [Node.putBack]
  cases hspared with
  | same =>
      rw [hn.replaceAt_self hget]
      exact .same
  | filled hplace hmissing =>
      rw [← replaceAt_append hget]
      exact .filled (map_eq_ok.2 ⟨_, hplace, rfl⟩) hmissing

end Spares

/-! ## Slots, entries and elements -/

/-- A change of slots that leaves a slot with all of its layers where it fails. -/
def FillsOnly (S : Schema σ) (touch : Node σ → Node σ × Except NavError Unit) : Prop :=
  ∀ v err, (touch v).2 = .error err → (touch v).1 = S.allocate v

theorem fillsOnly_setSlot (payload : Payload σ) :
    S.FillsOnly fun v => S.setSlot o v payload := by
  intro v err herr
  simp only [setSlot.eq_def] at herr ⊢
  split at herr
  · simp at herr
  · rfl

theorem fillsOnly_shapeSlot (shape : Shape) : S.FillsOnly fun v => S.shapeSlot v shape := by
  intro v err herr
  simp only [shapeSlot] at herr ⊢
  split at herr
  · simp at herr
  · rfl

variable (S) in
/-- The entry of a map under a key with its slot changed, or a new one. -/
def atEntry (touch : Node σ → Node σ × Except NavError Unit) (c : Node σ) (kind : KeyKind)
    (elem : Ty) (entries : List (MapKey × Node σ)) (key : String) :
    Node σ × Except NavError Unit :=
  match Key.require key >>= fun _ => kind.decode key with
  | .error e => (c, .error e)
  | .ok k =>
      match Entries.get? k entries with
      | some v => c.putBack [.entry k] (touch v)
      | none =>
          match touch (S.zero elem) with
          | (v, .ok ()) => (c.putChild (.entry k) v, .ok ())
          | (_, .error e) => (c, .error e)

/-- An entry that cannot be changed is spared, and none is added. -/
theorem spares_atEntry (hc : S.Typed loops c) {touch : Node σ → Node σ × Except NavError Unit}
    (htouch : S.FillsOnly touch) {kind : KeyKind} {elem : Ty} {entries : List (MapKey × Node σ)}
    (hmap : c.container = .map kind elem entries) :
    S.Spares (S.findItem o c key mode) c (S.atEntry touch c kind elem entries key) := by
  rw [atEntry]
  split
  · exact .refuse _ c _
  · rename_i k hk
    split
    · rename_i v hv
      have hplace : S.findItem o c key mode = .ok ⟨[.entry k], v⟩ := by
        rcases bind_eq_ok.1 hk with ⟨⟨⟩, hrequire, hdecode⟩
        rw [findItem, hmap]
        simp only [hrequire, hdecode, hv, bind, Except.bind]
      exact .of_slot hc hplace (get?_findItem hplace) (htouch v)
    · split
      · exact .done _ c _
      · exact .refuse _ c _

theorem spares_appendSlot (c : Node σ) (elem : Ty) (payload : Payload σ) :
    S.Spares slot c (S.appendSlot o c elem payload) := by
  rw [appendSlot]
  split
  · exact .done _ c _
  · exact .refuse _ c _

/-- A list that takes no new element stays as it is. -/
theorem spares_writeElement (c : Node σ) (elem : Ty) (items : List (Node σ)) (key : String)
    (payload : Payload σ) (mode : Mode) :
    S.Spares slot c (S.writeElement o c elem items key payload mode) := by
  rw [writeElement.eq_def]
  split
  · exact .refuse _ c _
  · split
    · exact .refuse _ c _
    · exact .done _ c _
    · split
      · exact spares_appendSlot c elem _
      · split
        · exact .refuse _ c _
        · exact .done _ c _
  · exact spares_appendSlot c elem _

/-- A write that fails spares the entry that it was for. -/
theorem spares_writeItem (hc : S.Typed loops c) (payload : Payload σ) :
    S.Spares (S.findItem o c key mode) c (S.writeItem o c key payload mode) := by
  rw [writeItem]
  split
  · rename_i kind elem entries hmap
    exact spares_atEntry hc (fillsOnly_setSlot payload) hmap
  · exact spares_writeElement c _ _ key payload mode
  all_goals exact .refuse _ c _

variable (S o) in
/-- A list without layers gets a new element built from a key before the element is given
a shape. -/
def BuildsElement (c : Node σ) (key : String) (mode : Mode) : Prop :=
  ∃ elem items built, c.container = .list elem items ∧ key ≠ "" ∧ mode ≠ .index ∧
    S.locate o elem items key mode = .ok none ∧ S.build o elem key = .ok built

/-- Giving a shape that fails spares the entry or element that it was for, unless the element
was built before. -/
theorem spares_shapeItem (hc : S.Typed loops c) (shape : Shape)
    (hbuilds : ¬S.BuildsElement o c key mode) :
    S.Spares (S.findItem o c key mode) c (S.shapeItem o c key shape mode) := by
  rw [shapeItem]
  split
  · rename_i kind elem entries hmap
    exact spares_atEntry hc (fillsOnly_shapeSlot shape) hmap
  · rename_i elem items hlist
    split
    · split
      · exact .done _ c _
      · exact .refuse _ c _
    · rename_i hempty
      rw [locateOrAppend]
      cases hlocate : S.locate o elem items key mode with
      | error err => exact .refuse _ c err
      | ok found =>
          cases found with
          | some i =>
              rcases exists_of_locate hlocate with ⟨item, hitem⟩
              have hplace : S.findItem o c key mode = .ok ⟨[.element i], item⟩ := by
                rw [findItem, hlist]
                simp only [hlocate, hitem, bind, Except.bind]
              simp only [child?_element hlist, hitem]
              exact .of_slot hc hplace (get?_findItem hplace) (fillsOnly_shapeSlot shape item)
          | none =>
              by_cases hindex : mode = .index
              · simp only [if_pos hindex]
                exact .refuse _ c _
              · simp only [if_neg hindex, if_neg hempty]
                cases hbuild : S.build o elem key with
                | error err => exact .refuse _ c err
                | ok built =>
                    have hkey : key ≠ "" := by simpa using hempty
                    exact absurd ⟨elem, items, built, hlist, hkey, hindex, hlocate, hbuild⟩ hbuilds
  all_goals exact .refuse _ c _

/-! ## Operations at a key -/

variable (S o) in
/-- A change at a key: of a field by `touch`, or of an entry or element by `inside`.  The
layers around the container and around the field are filled first. -/
def atKey (touch : Node σ → Node σ × Except NavError Unit)
    (inside : Node σ → String → Mode → Node σ × Except NavError Unit) (n : Node σ) (key : String)
    (mode : Mode) : Node σ × Except NavError Unit :=
  let n := S.allocate n
  let c := n.innermost
  n.putBack n.coreAddress <|
    match c.container with
    | .record type fields =>
        match writableField o c type fields key with
        | .error e => (c, .error e)
        | .ok (place, rest) =>
            c.putBack place.address <|
              if rest.isEmpty then touch place.node
              else
                let child := S.allocate place.node
                child.putBack child.coreAddress (inside child.innermost rest .content)
    | _ => inside c key mode

theorem write_eq_atKey (n : Node σ) (key : String) (payload : Payload σ) (mode : Mode) :
    S.write o n key payload mode =
      S.atKey o (fun v => S.setSlot o v payload)
        (fun c text way => S.writeItem o c text payload way) n key mode := rfl

theorem materialize_eq_atKey (n : Node σ) (key : String) (shape : Shape) (mode : Mode) :
    S.materialize o n key shape mode =
      S.atKey o (fun v => S.shapeSlot v shape)
        (fun c text way => S.shapeItem o c text shape way) n key mode := rfl

variable (S o) in
/-- Where the entry or element at a key is looked up: in the node itself, or in what a field
holds under the text behind the name of the field. -/
inductive LookedUp (n : Node σ) (key : String) (mode : Mode) : Node σ → String → Mode → Prop where
  /-- In the node itself. -/
  | here : LookedUp n key mode n.innermost key mode
  /-- In a field. -/
  | field {type : String} {fields : List (Field × Node σ)} {place : Place σ} {text : String}
      (hrecord : n.innermost.container = .record type fields)
      (hplace : writableField o n.innermost type fields key = .ok (place, text)) :
      LookedUp n key mode (S.allocate place.node).innermost text .content

/-- Below new layers stands a new node. -/
theorem exists_zero_of_allocate (h : v.isAllocated = false) :
    ∃ u, (S.allocate v).innermost = S.zero u := by
  induction v using layers_induction with
  | absent t => exact ⟨t.core, S.innermost_filled t⟩
  | present v ih => exact ih h
  | boxed v ih => exact ih h
  | bare v hv => simp [isAllocated_of_bare hv] at h

/-- Nothing is found in a new node. -/
theorem findItem_zero (S : Schema σ) (o : Options) (t : Ty) (key : String) (mode : Mode)
    (place : Place σ) : S.findItem o (S.zero t) key mode ≠ .ok place := by
  intro hplace
  cases t with
  | list elem =>
      rcases bind_eq_ok.1 hplace with ⟨found, hlocate, hitem⟩
      cases found with
      | none => simp at hitem
      | some i => exact absurd (lt_of_locate hlocate) (Nat.not_lt_zero i)
  | map order kind elem =>
      rcases bind_eq_ok.1 hplace with ⟨-, -, hkey⟩
      rcases bind_eq_ok.1 hkey with ⟨k, -, hentry⟩
      simp [Entries.get?] at hentry
  | record name =>
      rw [zero] at hplace
      split at hplace
      · simp [findItem, RecordDef.zero, container] at hplace
      · simp [findItem, container] at hplace
  | _ => simp [findItem, zero, container] at hplace

theorem findItem_new (h : v.isAllocated = false) (place : Place σ) :
    S.findItem o (S.allocate v).innermost key mode ≠ .ok place := by
  rcases exists_zero_of_allocate h with ⟨t, ht⟩
  rw [ht]
  exact findItem_zero S o t key mode place

/-- A change at a key that fails spares the slot at the key. -/
theorem spares_atKey (hS : S.Sound loops) (hn : S.Typed loops n) (halloc : n.isAllocated = true)
    {touch : Node σ → Node σ × Except NavError Unit} (htouch : S.FillsOnly touch)
    {inside : Node σ → String → Mode → Node σ × Except NavError Unit}
    (hinside : ∀ c text way, S.LookedUp o n key mode c text way → S.Typed loops c →
      S.Spares (S.findItem o c text way) c (inside c text way)) :
    S.Spares (S.slotPlace o n key mode) n (S.atKey o touch inside n key mode) := by
  rw [atKey, slotPlace, S.allocate_of_isAllocated halloc]
  refine .putBack hn n.get?_coreAddress ?_
  split
  · rename_i type fields hrecord
    cases hfield : writableField o n.innermost type fields key with
    | error err => exact .refuse _ _ err
    | ok target =>
        obtain ⟨place, rest⟩ := target
        have hc := hn.innermost
        have hget := get?_writableField hrecord hfield
        have hlooked := hinside _ _ _ (.field hrecord hfield)
          ((keeps_allocate hS place.node).typed (hc.get hget)).innermost
        simp only [bind, Except.bind]
        by_cases hrest : rest.isEmpty = true
        · simp only [hrest, Bool.true_or, if_true]
          exact .of_slot hc rfl hget (htouch place.node)
        · rw [Bool.not_eq_true] at hrest
          simp only [hrest, Bool.false_or, Bool.false_eq_true, if_false]
          cases hallocated : place.node.isAllocated with
          | false =>
              refine .of_slot hc rfl hget fun err herr => ?_
              have hsame := (hlooked err herr).eq_of_not_found (findItem_new hallocated)
              rw [Node.putBack, hsame]
              exact withCore_innermost _
          | true =>
              have hinner := get?_coreAddress place.node
              rw [S.allocate_of_isAllocated hallocated] at hlooked ⊢
              rw [← under_under]
              exact .putBack hc hget (.putBack (hc.get hget) hinner hlooked)
  · exact hinside _ _ _ .here hn.innermost

/-! ## Leaf operations -/

/-- What can be done to the child at a key. -/
inductive LeafOp (σ : Type) where
  /-- Writing a literal or a typed value. -/
  | set (payload : Payload σ)
  /-- Making a container of a shape. -/
  | shape (shape : Shape)
  /-- Removing. -/
  | unset

variable (S o) in
/-- The container after an operation on its child at a key. -/
def LeafOp.run (n : Node σ) (key : String) (mode : Mode) :
    LeafOp σ → Node σ × Except NavError Unit
  | set payload => S.write o n key payload mode
  | shape s => S.materialize o n key s mode
  | unset =>
      match S.remove o n key mode with
      | .ok m => (m, .ok ())
      | .error e => (n, .error e)

variable (S o) in
/-- The operation gives a shape to a list element that it builds from the key first. -/
def LeafOp.Builds (n : Node σ) (key : String) (mode : Mode) (op : LeafOp σ) : Prop :=
  ∃ s c text way, op = .shape s ∧ S.LookedUp o n key mode c text way ∧
    S.BuildsElement o c text way

/-- The slot at a key stands at its address. -/
theorem get?_slotPlace (halloc : n.isAllocated = true) {place : Place σ}
    (h : S.slotPlace o n key mode = .ok place) : n.get? place.address = some place.node := by
  rcases map_eq_ok.1 h with ⟨below, hbelow, rfl⟩
  refine (get?_coreAddress_append (core_eq_ok_innermost halloc) _).trans ?_
  clear h
  split at hbelow
  · rename_i type fields hrecord
    rcases bind_eq_ok.1 hbelow with ⟨⟨field, rest⟩, hfield, hrest⟩
    clear hbelow
    have hget := get?_writableField hrecord hfield
    simp only at hrest
    split at hrest
    · obtain rfl := Except.ok.inj hrest
      exact hget
    · rename_i hinside
      have hallocated : field.node.isAllocated = true := by
        rw [Bool.or_eq_true, not_or] at hinside
        simpa using hinside.2
      rcases map_eq_ok.1 hrest with ⟨item, hitem, rfl⟩
      rw [Place.under, List.append_assoc, get?_append, hget]
      exact (get?_coreAddress_append (core_eq_ok_innermost hallocated) _).trans
        (get?_findItem hitem)
  · exact get?_findItem hbelow

theorem spares_run (hS : S.Sound loops) (hn : S.Typed loops n) (halloc : n.isAllocated = true)
    {op : LeafOp σ} (hop : op ≠ .unset) (hbuilds : ¬op.Builds S o n key mode) :
    S.Spares (S.slotPlace o n key mode) n (op.run S o n key mode) := by
  cases op with
  | set payload =>
      rw [LeafOp.run, write_eq_atKey]
      refine spares_atKey hS hn halloc (fillsOnly_setSlot payload) fun c text way _ hc => ?_
      exact spares_writeItem hc payload
  | shape s =>
      rw [LeafOp.run, materialize_eq_atKey]
      refine spares_atKey hS hn halloc (fillsOnly_shapeSlot s) fun c text way hlooked hc => ?_
      exact spares_shapeItem hc s fun h => hbuilds ⟨s, c, text, way, rfl, hlooked, h⟩
  | unset => exact absurd rfl hop

/-- A removal that fails changes nothing. -/
theorem run_unset_error {err : NavError}
    (h : LeafOp.unset.run S o n key mode = (m, .error err)) : m = n := by
  rw [LeafOp.run] at h
  split at h
  · simp at h
  · exact (Prod.mk.inj h).1.symm

/-- An operation that fails leaves an allocated container as it was, but for missing layers
around the slot at the key: a write or a shape fills them before it is found not to fit.
Shapes for a list element that is built first are left out. -/
theorem run_error (hS : S.Sound loops) (hn : S.Typed loops n) (halloc : n.isAllocated = true)
    {op : LeafOp σ} (hbuilds : ¬op.Builds S o n key mode) {err : NavError}
    (h : op.run S o n key mode = (m, .error err)) :
    m = n ∨ op ≠ .unset ∧ ∃ place, S.slotPlace o n key mode = .ok place ∧
      n.get? place.address = some place.node ∧ place.node.isAllocated = false ∧
        m = n.replaceAt place.address (S.allocate place.node) := by
  by_cases hop : op = .unset
  · subst hop
    exact .inl (run_unset_error h)
  · have hspared := spares_run hS hn halloc hop hbuilds err
    rw [h] at hspared
    cases hspared rfl with
    | same => exact .inl rfl
    | filled hplace hmissing =>
        exact .inr ⟨hop, _, hplace, get?_slotPlace halloc hplace, hmissing, rfl⟩

/-- A lamp that is on, off or unknown. -/
def lamp (on : Node Unit) : Node Unit :=
  .record "Lamp" [(⟨"on", none, true, by decide, Field.none_ne_empty⟩, on)] ()

/-- The schema of lamps.  Nothing is known of a new one. -/
def lamps : Schema Unit :=
  (empty ()).declare "Lamp"
    [(⟨"on", none, true, by decide, Field.none_ne_empty⟩, .option (.scalar .bool))] ()

theorem typed_lamp : lamps.Sound False ∧ lamps.Typed False (lamp (.absent (.scalar .bool))) := by
  have hS : lamps.Sound False := by
    refine sound_of_tree fun d hd f hf => ?_
    obtain rfl := List.mem_singleton.1 hd
    obtain rfl := List.mem_singleton.1 hf
    exact .absent _
  exact ⟨hS, typed_zero hS (.record "Lamp")⟩

/-- A lamp holds no list to build an element for. -/
theorem not_builds_lamp (op : LeafOp Unit) :
    ¬op.Builds lamps {} (lamp (.absent (.scalar .bool))) "on" .none := by
  rintro ⟨s, c, text, way, -, hlooked, elem, items, built, hlist, -⟩
  cases hlooked with
  | here => simp [lamp, innermost, container] at hlist
  | field hrecord hplace =>
      obtain ⟨rfl, rfl⟩ := Container.record.inj hrecord
      have hslot : writableField {} (lamp (.absent (.scalar .bool))).innermost "Lamp"
          [(⟨"on", none, true, by decide, Field.none_ne_empty⟩, .absent (.scalar .bool))] "on" =
            .ok (⟨[.field 0], .absent (.scalar .bool)⟩, "") := rfl
      obtain ⟨rfl, -⟩ := Prod.mk.inj (Except.ok.inj (hslot.symm.trans hplace))
      simp [allocate, filled, zero, innermost, container] at hlist

/-- Being on is no map.  It is known to be off after the attempt. -/
theorem run_error_lamp :
    let n := lamp (.absent (.scalar .bool))
    let m := lamp (.present (.scalar (.bool false)))
    LeafOp.run lamps {} n "on" .none (.shape .map) =
        (m, .error (.conversion (.mismatch "Map" "bool" .shapeDoesNotFit))) ∧
      (m = n ∨ (LeafOp.shape .map : LeafOp Unit) ≠ .unset ∧
        ∃ place, lamps.slotPlace {} n "on" .none = .ok place ∧
          n.get? place.address = some place.node ∧ place.node.isAllocated = false ∧
            m = n.replaceAt place.address (lamps.allocate place.node)) := by
  intro n m
  have hrun : LeafOp.run lamps {} n "on" .none (.shape .map) =
      (m, .error (.conversion (.mismatch "Map" "bool" .shapeDoesNotFit))) := rfl
  exact ⟨hrun, run_error typed_lamp.1 typed_lamp.2 rfl (not_builds_lamp _) hrun⟩

/-- A text that is no truth value is refused, and still the lamp is no longer unknown. -/
theorem refused_lamp_filled :
    ¬∀ (op : LeafOp Unit) (n m : Node Unit) (err : NavError), lamps.Typed False n →
      n.isAllocated = true → op.run lamps {} n "on" .none = (m, .error err) → m = n := by
  intro hall
  have hrun : LeafOp.run lamps {} (lamp (.absent (.scalar .bool))) "on" .none
      (.set (.literal "x" none)) = (lamp (.present (.scalar (.bool false))),
        .error (.conversion (.mismatch "x" "bool" .expectedBool))) := rfl
  have hsame := hall _ _ _ _ typed_lamp.2 rfl hrun
  simp [lamp] at hsame

/-! ## Elements that are built for a shape -/

/-- A list keeps the element that was built for a shape which does not fit it. -/
theorem shapeItem_built (hS : S.Sound loops) {elem : Ty} {items : List (Node σ)} {built : Node σ}
    (hlist : c.container = .list elem items) (hkey : key ≠ "") (hindex : mode ≠ .index)
    (hlocate : S.locate o elem items key mode = .ok none) (hbuild : S.build o elem key = .ok built)
    {shape : Shape} {err : NavError} (h : (S.shapeItem o c key shape mode).2 = .error err) :
    S.shapeItem o c key shape mode = (c.append (S.allocate built), .error err) := by
  have hty := (typed_build hS hbuild).1
  have hempty : key.isEmpty = false := by simpa using hkey
  have hlocated : S.locateOrAppend o c elem items key mode = (c.append built, .ok items.length) := by
    rw [locateOrAppend, hlocate]
    simp only [if_neg hindex, hempty, hbuild, Bool.false_eq_true, if_false]
  have hshape : S.shapeItem o c key shape mode =
      (c.append built).putBack [.element items.length] (S.shapeSlot built shape) := by
    rw [shapeItem, hlist]
    simp only [hempty, hlocated, child?_append hlist hty, Bool.false_eq_true, if_false]
  rw [hshape] at h ⊢
  -- A shape that is refused only fills the slot, here that of the new element.
  have hfilled := fillsOnly_shapeSlot shape built err h
  have hslot : S.shapeSlot built shape = (S.allocate built, .error err) := Prod.ext hfilled h
  have hput := putChild_append hlist hty ((keeps_allocate hS built).ty_eq.trans hty)
  rw [hslot, Node.putBack, replaceAt, child?_append hlist hty]
  simp only [replaceAt, hput]

/-- A shape that does not fit the list element which was built for it fails.  The element stays
at the end of the list, with all of its layers, and nothing else in the container changed but
for layers around the list. -/
theorem run_error_built (hS : S.Sound loops) (halloc : n.isAllocated = true) {op : LeafOp σ}
    (hbuilds : op.Builds S o n key mode) {err : NavError}
    (h : op.run S o n key mode = (m, .error err)) :
    ∃ (c : Node σ) (text : String) (way : Mode) (elem : Ty) (items : List (Node σ))
      (built : Node σ) (place : Place σ), S.LookedUp o n key mode c text way ∧
      c.container = .list elem items ∧ S.build o elem text = .ok built ∧
      n.get? place.address = some place.node ∧ (S.allocate place.node).innermost = c ∧
      m = n.replaceAt place.address
        ((S.allocate place.node).withCore (c.append (S.allocate built))) := by
  obtain ⟨shape, c, text, way, rfl, hlooked, elem, items, built, hlist, hkey, hindex, hlocate,
    hbuild⟩ := hbuilds
  have hitem {err : NavError} (herr : (S.shapeItem o c text shape way).2 = .error err) :
      S.shapeItem o c text shape way = (c.append (S.allocate built), .error err) :=
    shapeItem_built hS hlist hkey hindex hlocate hbuild herr
  rw [LeafOp.run, materialize_eq_atKey, atKey, S.allocate_of_isAllocated halloc] at h
  cases hlooked with
  | here =>
      refine ⟨_, _, _, elem, items, built, ⟨[], n⟩, .here, hlist, hbuild, rfl, ?_, ?_⟩
      · rw [S.allocate_of_isAllocated halloc]
      · simp only [hlist] at h
        rcases Prod.mk.inj h with ⟨hm, herr⟩
        rw [hitem herr] at hm
        rw [S.allocate_of_isAllocated halloc]
        exact hm.symm
  | field hrecord hplace =>
      rename_i type fields place
      have hrest : text.isEmpty = false := by simpa using hkey
      refine ⟨_, _, _, elem, items, built, place.under n.coreAddress, .field hrecord hplace, hlist,
        hbuild, ?_, rfl, ?_⟩
      · exact (get?_coreAddress_append (core_eq_ok_innermost halloc) _).trans
          (get?_writableField hrecord hplace)
      · simp only [hrecord, hplace, hrest, Bool.false_eq_true, if_false] at h
        rcases Prod.mk.inj h with ⟨hm, herr⟩
        simp only [Node.putBack, hitem herr] at hm
        rw [Place.under, replaceAt_append n.get?_coreAddress]
        exact hm.symm

end Schema

end TreeSync
