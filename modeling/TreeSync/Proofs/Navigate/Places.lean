import TreeSync.Navigate.Find
import TreeSync.Proofs.Entries.Ascending
import TreeSync.Proofs.Node.Layers
import TreeSync.Proofs.Outcome

/-!
# Places that navigation answers with

A place names a descendant by its address.  Whatever finds a place, the node that
it shows stands at its address.

Main results:

- `Node.get?_fieldPlace`: the field of a record.
- `Schema.get?_find`: the child at a key.
-/

namespace TreeSync

namespace Node

variable {σ : Type} {c : Node σ}

/-! ## Containers -/

theorem eq_record_of_container {type : String} {fields : List (Field × Node σ)}
    (h : c.container = .record type fields) : ∃ state, c = record type fields state := by
  cases c with
  | record type fields state =>
      obtain ⟨rfl, rfl⟩ : type = _ ∧ fields = _ := by simpa [container] using h
      exact ⟨state, rfl⟩
  | dynamic d => cases d <;> simp [container] at h
  | _ => simp [container] at h

theorem get?_documentEntries (key : String) (entries : List (String × Document)) :
    Entries.get? (.text key) (documentEntries (σ := σ) entries) =
      (Entries.get? key entries).map dynamic := by
  induction entries with
  | nil => rfl
  | cons e rest ih =>
      obtain ⟨k, d⟩ := e
      by_cases hk : k = key
      · simp [documentEntries, Entries.get?, hk]
      · simpa [documentEntries, Entries.get?, hk] using ih

/-- The entries of a map are its children. -/
theorem child?_entry {kind : KeyKind} {elem : Ty} {entries : List (MapKey × Node σ)}
    (h : c.container = .map kind elem entries) (key : MapKey) :
    c.child? (.entry key) = Entries.get? key entries := by
  cases c with
  | map order kind elem entries =>
      obtain ⟨-, -, rfl⟩ : kind = _ ∧ elem = _ ∧ entries = _ := by simpa [container] using h
      rfl
  | dynamic d =>
      cases d with
      | map others =>
          obtain ⟨-, -, rfl⟩ :
              KeyKind.string = _ ∧ Ty.dynamic = _ ∧ documentEntries others = _ := by
            simpa [container] using h
          cases key with
          | text k => exact (get?_documentEntries k others).symm
          | _ =>
              refine (Entries.get?_eq_none_of_forall_ne fun e he => ?_).symm
              obtain ⟨d, -, rfl⟩ := List.mem_map.1 he
              simp
      | _ => simp [container] at h
  | _ => simp [container] at h

/-- The items of a list are its children. -/
theorem child?_element {elem : Ty} {items : List (Node σ)} (h : c.container = .list elem items)
    (i : Nat) : c.child? (.element i) = items[i]? := by
  cases c with
  | list elem items =>
      obtain ⟨-, rfl⟩ : elem = _ ∧ items = _ := by simpa [container] using h
      rfl
  | dynamic d =>
      cases d with
      | seq others =>
          obtain ⟨-, rfl⟩ : Ty.dynamic = _ ∧ others.map dynamic = _ := by
            simpa [container] using h
          exact (List.getElem?_map ..).symm
      | _ => simp [container] at h
  | _ => simp [container] at h

/-! ## Fields -/

/-- What a field look-up finds: the field at the position that the name stands
for, or the record itself. -/
theorem fieldPlace_eq_ok {o : Options} {write : Bool} {n : Node σ} {type name : String}
    {fields : List (Field × Node σ)} {place : Place σ}
    (h : n.fieldPlace o write type fields name = .ok place) :
    ∃ i f child, Field.index? o name (fields.map Prod.fst) = some i ∧
      fields[i]? = some (f, child) ∧ (write && !f.writable) = false ∧
      ((∃ t, child = enclosing t ∧ place = ⟨[], n⟩) ∨
        (∀ t, child ≠ enclosing t) ∧ place = ⟨[.field i], child⟩) := by
  rw [fieldPlace] at h
  split at h
  · simp at h
  · rename_i i hi
    split at h
    · simp at h
    · rename_i f child hf
      split at h
      · simp at h
      · rename_i hw
        refine ⟨i, f, child, hi, hf, by simpa using hw, ?_⟩
        split at h
        · rename_i t
          exact .inl ⟨t, rfl, (Except.ok.inj h).symm⟩
        · rename_i hne
          exact .inr ⟨fun t ht => hne t ht, (Except.ok.inj h).symm⟩

/-- The field that a look-up finds stands at its address. -/
theorem get?_fieldPlace {o : Options} {write : Bool} {type name : String}
    {fields : List (Field × Node σ)} {place : Place σ}
    (hc : c.container = .record type fields)
    (h : c.fieldPlace o write type fields name = .ok place) :
    c.get? place.address = some place.node := by
  rcases eq_record_of_container hc with ⟨state, rfl⟩
  rcases fieldPlace_eq_ok h with ⟨i, f, child, hi, hf, -, ⟨t, -, rfl⟩ | ⟨-, rfl⟩⟩
  · rfl
  · simp [get?, child?, hf]

/-! ## Addresses below addresses -/

/-- A place in what stands below the layers is a place in the node. -/
theorem get?_coreAddress_append {n : Node σ} (hc : n.core = .ok c) (a : Address) :
    n.get? (n.coreAddress ++ a) = c.get? a := by
  rw [get?_append, get?_coreAddress, innermost_of_core hc]
  rfl

end Node

namespace Schema

open Node

variable {σ : Type} {S : Schema σ} {o : Options}

theorem require_of_ne {key : String} (h : key ≠ "") : Key.require key = .ok () := by
  simp [Key.require, h]

/-- The entry or element that is found stands at its address. -/
theorem get?_findItem {c : Node σ} {key : String} {mode : Mode} {place : Place σ}
    (h : S.findItem o c key mode = .ok place) : c.get? place.address = some place.node := by
  rw [findItem] at h
  split at h
  · rename_i kind elem entries hc
    rcases bind_eq_ok.1 h with ⟨-, -, h⟩
    rcases bind_eq_ok.1 h with ⟨k, -, h⟩
    split at h
    · rename_i v hv
      obtain rfl := Except.ok.inj h
      simp [get?, child?_entry hc, hv]
    · simp at h
  · rename_i elem items hc
    rcases bind_eq_ok.1 h with ⟨position, -, h⟩
    split at h
    · split at h
      · rename_i i v hv
        obtain rfl := Except.ok.inj h
        simp [get?, child?_element hc, hv]
      · simp at h
    · simp at h
  all_goals simp at h

/-- The child that is found stands at its address. -/
theorem get?_find {n : Node σ} {key : String} {mode : Mode} {place : Place σ}
    (h : S.find o n key mode = .ok place) : n.get? place.address = some place.node := by
  rw [find] at h
  split at h
  · simp at h
  · rename_i c hcore
    rcases map_eq_ok.1 h with ⟨below, hbelow, rfl⟩
    refine (get?_coreAddress_append hcore _).trans ?_
    clear h
    split at hbelow
    · rename_i type fields hc
      rcases bind_eq_ok.1 hbelow with ⟨-, -, hkey⟩
      rcases bind_eq_ok.1 hkey with ⟨⟨name, rest⟩, -, hname⟩
      rcases bind_eq_ok.1 hname with ⟨field, hfield, hrest⟩
      clear hbelow hkey hname
      have hget := get?_fieldPlace hc hfield
      split at hrest
      · split at hrest
        · obtain rfl := Except.ok.inj hrest
          exact hget
        · simp at hrest
      · split at hrest
        · simp at hrest
        · rename_i d hd
          rcases map_eq_ok.1 hrest with ⟨item, hitem, rfl⟩
          rw [Place.under, List.append_assoc, get?_append, hget]
          exact (get?_coreAddress_append hd _).trans (get?_findItem hitem)
    · exact get?_findItem hbelow

end Schema

end TreeSync
