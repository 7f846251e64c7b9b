import TreeSync.Proofs.Navigate.Places
import TreeSync.Proofs.Node.Typed

/-!
# Changing entries and fields

Changes of different entries of a map, typed or a document, commute, and so do
changes of different fields of a record.

Main definitions and results:

- `Node.alterEntry`: writing or erasing an entry.
- `Node.alterEntry_comm`, `Node.putField_comm`: different slots.
- `Node.child?_alterEntry_of_ne`, `Node.child?_replaceAt_of_ne`: what else is seen
  afterwards.
-/

namespace TreeSync

namespace Node

variable {σ : Type} {S : Schema σ} {loops : Prop} {c : Node σ} {kind : KeyKind} {elem : Ty}
  {entries : List (MapKey × Node σ)}

/-- A map with a value written under a key, or without the key. -/
def alterEntry (c : Node σ) (key : MapKey) : Option (Node σ) → Node σ
  | some v => c.putChild (.entry key) v
  | none => c.eraseEntry key

/-! ## Maps of both kinds -/

/-- A map is a typed map or a document. -/
theorem eq_map_of_container (h : c.container = .map kind elem entries) :
    (∃ order, c = map order kind elem entries) ∨
      kind = .string ∧ elem = .dynamic ∧ ∃ others, c = dynamic (.map others) := by
  cases c with
  | map order kind elem entries =>
      obtain ⟨rfl, rfl, rfl⟩ : kind = _ ∧ elem = _ ∧ entries = _ := by simpa [container] using h
      exact .inl ⟨order, rfl⟩
  | dynamic d =>
      cases d with
      | map others =>
          obtain ⟨rfl, rfl, -⟩ :
              KeyKind.string = _ ∧ Ty.dynamic = _ ∧ documentEntries others = _ := by
            simpa [container] using h
          exact .inr ⟨rfl, rfl, others, rfl⟩
      | _ => simp [container] at h
  | _ => simp [container] at h

theorem bare_of_container (h : c.container = .map kind elem entries) : c.Bare := by
  rcases eq_map_of_container h with ⟨order, rfl⟩ | ⟨-, -, others, rfl⟩
  · exact Kind.noConfusion
  · exact Kind.noConfusion

/-- A change of one entry of a document is a change of one of its entries, or
none at all. -/
theorem alterEntry_document (key : String) (value : Option (Node σ)) :
    (∀ others, (dynamic (.map others) : Node σ).alterEntry (.text key) value =
        dynamic (.map others)) ∨
      ∃ x, ∀ others, (dynamic (.map others) : Node σ).alterEntry (.text key) value =
        dynamic (.map (Entries.alter Json.nameBefore key x others)) := by
  cases value with
  | none => exact .inr ⟨none, fun _ => rfl⟩
  | some v =>
      cases v with
      | dynamic d => exact .inr ⟨some d, fun _ => rfl⟩
      | _ => exact .inl fun _ => rfl

theorem container_alterEntry (h : c.container = .map kind elem entries) (key : MapKey)
    (value : Option (Node σ)) :
    ∃ others, (c.alterEntry key value).container = .map kind elem others := by
  rcases eq_map_of_container h with ⟨order, rfl⟩ | ⟨rfl, rfl, others, rfl⟩
  · cases value with
    | none => exact ⟨_, rfl⟩
    | some v => exact ⟨_, rfl⟩
  · cases key with
    | text k =>
        rcases alterEntry_document k value with hsame | ⟨x, hx⟩
        · rw [hsame]
          exact ⟨_, rfl⟩
        · rw [hx]
          exact ⟨_, rfl⟩
    | _ => cases value <;> exact ⟨_, rfl⟩

theorem container_putEntry (h : c.container = .map kind elem entries) (key : MapKey)
    (v : Node σ) : ∃ others, (c.putChild (.entry key) v).container = .map kind elem others :=
  container_alterEntry h key (some v)

theorem container_replaceAt_entry (hmap : c.container = .map kind elem entries) (k : MapKey)
    (a : Address) (v : Node σ) :
    ∃ others, (c.replaceAt (.entry k :: a) v).container = .map kind elem others := by
  rw [replaceAt]
  cases c.child? (.entry k) with
  | some u => exact container_putEntry hmap k _
  | none => exact ⟨entries, hmap⟩

/-- A map holds no scalar of its own. -/
theorem literal?_of_map (hmap : c.container = .map kind elem entries) : c.literal? = none := by
  rcases eq_map_of_container hmap with ⟨order, rfl⟩ | ⟨-, -, others, rfl⟩
  · rfl
  · rfl

/-- Changes of different entries commute. -/
theorem alterEntry_comm (hc : S.Typed loops c) (h : c.container = .map kind elem entries)
    {left right : MapKey} (hleft : kind.Admits left) (hright : kind.Admits right)
    (hne : left ≠ right) (x y : Option (Node σ)) :
    (c.alterEntry right y).alterEntry left x = (c.alterEntry left x).alterEntry right y := by
  rcases eq_map_of_container h with ⟨order, rfl⟩ | ⟨rfl, rfl, others, rfl⟩
  · have hform : ∀ key z es, (map order kind elem es : Node σ).alterEntry key z =
        map order kind elem (Entries.alter order.before key z es) := by
      intro key z es
      cases z <;> rfl
    cases hc with
    | map ascending admits _ _ =>
        rw [hform, hform, hform, hform,
          Entries.alter_comm (order.orders kind) hleft hright hne x y admits ascending]
  · cases left with
    | text a =>
        cases right with
        | text b =>
            have hab : a ≠ b := fun heq => hne (congrArg MapKey.text heq)
            have hasc := (S.ordered_of_typed hc).ascending
            rcases alterEntry_document (σ := σ) a x with ha | ⟨x, ha⟩
            · rw [ha]
              rcases alterEntry_document b y with hb | ⟨y, hb⟩
              · rw [hb, ha]
              · rw [hb, ha]
            · rw [ha]
              rcases alterEntry_document b y with hb | ⟨y, hb⟩
              · rw [hb, hb, ha]
              · rw [hb, hb, ha, Entries.alter_comm Json.nameOrders trivial trivial hab x y
                  (fun _ _ => trivial) hasc]
        | _ => exact hright.elim
    | _ => exact hleft.elim

/-- A change of one entry leaves the others. -/
theorem child?_alterEntry_of_ne (h : c.container = .map kind elem entries) {key other : MapKey}
    (hne : other ≠ key) (value : Option (Node σ)) :
    (c.alterEntry key value).child? (.entry other) = c.child? (.entry other) := by
  rcases eq_map_of_container h with ⟨order, rfl⟩ | ⟨rfl, rfl, others, rfl⟩
  · cases value with
    | none => exact Entries.get?_erase_of_ne hne entries
    | some v => exact Entries.get?_put_of_ne _ hne v entries
  · cases key with
    | text k =>
        rcases alterEntry_document k value with hsame | ⟨x, hx⟩
        · rw [hsame]
        · rw [hx]
          cases other with
          | text a =>
              have hak : a ≠ k := fun heq => hne (congrArg MapKey.text heq)
              rw [child?, child?, Entries.get?_alter, if_neg hak]
          | _ => rfl
    | _ => cases value <;> rfl

/-- Erasing an entry that is not there changes nothing. -/
theorem alterEntry_none (h : c.container = .map kind elem entries) {key : MapKey}
    (hkey : c.child? (.entry key) = none) : c.alterEntry key none = c := by
  rcases eq_map_of_container h with ⟨order, rfl⟩ | ⟨rfl, rfl, others, rfl⟩
  · exact congrArg (map order kind elem) (Entries.erase_of_get?_eq_none hkey)
  · cases key with
    | text k =>
        rw [child?, Option.map_eq_none_iff] at hkey
        exact congrArg (fun es => dynamic (.map es)) (Entries.erase_of_get?_eq_none hkey)
    | _ => rfl

/-- Of two values written under one key the last one counts. -/
theorem putEntry_putEntry (h : c.container = .map kind elem entries) (key : MapKey)
    {v w : Node σ} (hv : v.ty = elem) (hw : w.ty = elem) :
    (c.putChild (.entry key) v).putChild (.entry key) w = c.putChild (.entry key) w := by
  rcases eq_map_of_container h with ⟨order, rfl⟩ | ⟨rfl, rfl, others, rfl⟩
  · rw [putChild, putChild, putChild, Entries.put_put]
  · rcases eq_dynamic_of_ty hv with ⟨x, rfl⟩
    rcases eq_dynamic_of_ty hw with ⟨y, rfl⟩
    cases key with
    | text k => rw [putChild, putChild, putChild, Entries.put_put]
    | _ => rfl

theorem child?_putEntry (h : c.container = .map kind elem entries) {key : MapKey}
    (hkey : kind.Admits key) {v : Node σ} (hv : v.ty = elem) :
    (c.putChild (.entry key) v).child? (.entry key) = some v := by
  rcases eq_map_of_container h with ⟨order, rfl⟩ | ⟨rfl, rfl, others, rfl⟩
  · exact Entries.get?_put_self _ key v entries
  · rcases eq_dynamic_of_ty hv with ⟨x, rfl⟩
    cases key with
    | text k => rw [putChild, child?, Entries.get?_put_self, Option.map_some]
    | _ => exact hkey.elim

/-- The entries of a map have the type that it is for. -/
theorem ty_of_entry (hc : S.Typed loops c) (h : c.container = .map kind elem entries)
    {key : MapKey} {v : Node σ} (hv : c.child? (.entry key) = some v) : v.ty = elem := by
  rcases eq_map_of_container h with ⟨order, rfl⟩ | ⟨rfl, rfl, others, rfl⟩
  · cases hc with
    | map _ _ types _ => exact types _ (Entries.mem_of_get?_eq_some hv)
  · rcases child?_dynamic hv with ⟨d, rfl⟩
    rfl

/-- An erased entry is absent. -/
theorem child?_eraseEntry (h : c.container = .map kind elem entries) (key : MapKey) :
    (c.eraseEntry key).child? (.entry key) = none := by
  rcases eq_map_of_container h with ⟨order, rfl⟩ | ⟨-, -, others, rfl⟩
  · exact Entries.get?_erase_self key entries
  · cases key with
    | text k => rw [eraseEntry, child?, Entries.get?_erase_self, Option.map_none]
    | _ => rfl

/-- Erasing an entry that was written where none was gives the map from before. -/
theorem eraseEntry_putEntry (h : c.container = .map kind elem entries) {key : MapKey}
    (hkey : c.child? (.entry key) = none) {v : Node σ} (hv : v.ty = elem) :
    (c.putChild (.entry key) v).eraseEntry key = c := by
  have hnone := alterEntry_none h hkey
  rcases eq_map_of_container h with ⟨order, rfl⟩ | ⟨rfl, rfl, others, rfl⟩
  · rw [putChild, eraseEntry, Entries.erase_put]
    exact hnone
  · rcases eq_dynamic_of_ty hv with ⟨x, rfl⟩
    cases key with
    | text k =>
        rw [putChild, eraseEntry, Entries.erase_put]
        exact hnone
    | _ => rfl

/-! ## Fields -/

/-- Changes of different fields commute. -/
theorem putField_comm (c : Node σ) {i j : Nat} (hne : i ≠ j) (v w : Node σ) :
    (c.putChild (.field j) w).putChild (.field i) v =
      (c.putChild (.field i) v).putChild (.field j) w := by
  cases c with
  | record type fields state =>
      rw [putChild, putChild, putChild, putChild, List.modify_modify_ne _ _ _ hne]
  | dynamic d => cases d <;> rfl
  | _ => rfl

/-- A change of one field leaves the others. -/
theorem child?_putField_of_ne (c : Node σ) {i j : Nat} (hne : i ≠ j) (v : Node σ) :
    (c.putChild (.field i) v).child? (.field j) = c.child? (.field j) := by
  cases c with
  | record type fields state =>
      rw [putChild, child?, child?, List.getElem?_modify]
      simp [hne]
  | dynamic d => cases d <;> rfl
  | _ => rfl

theorem child?_replaceAt_of_ne (c : Node σ) {i j : Nat} (hne : i ≠ j) (a : Address) (v : Node σ) :
    (c.replaceAt (.field i :: a) v).child? (.field j) = c.child? (.field j) := by
  rw [replaceAt]
  split
  · exact child?_putField_of_ne c hne _
  · rfl

end Node

end TreeSync
