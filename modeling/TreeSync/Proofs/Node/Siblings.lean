import Mathlib.Data.List.InsertIdx
import TreeSync.Proofs.Node.Altering
import TreeSync.Proofs.Node.Replacing

/-!
# Siblings

Two containers are the same but for one child when they have the same type, the
same state and the same children at every other step.  A change of one field or
one entry leaves its siblings alone, and a change of a list sets, appends or takes
out one item.

Main definitions and results:

- `Node.SameBut`: the same but for one child.
- `Node.sameBut_putChild`, `Node.sameBut_alterEntry`: changes of one child.
- `Node.container_putElement`, `Node.container_append`, `Node.container_eraseItem`:
  changes of lists.
-/

namespace TreeSync

namespace Node

variable {σ : Type} {n c v w : Node σ} {s : Step}

/-- The state of a record. -/
def state? : Node σ → Option σ
  | record _ _ state => some state
  | _ => none

/-- The second container is the first one but for the child at a step. -/
structure SameBut (s : Step) (n m : Node σ) : Prop where
  ty_eq : m.ty = n.ty
  state_eq : m.state? = n.state?
  others : ∀ t, t ≠ s → m.child? t = n.child? t

/-! ## Records and maps -/

theorem child?_putChild_of_ne (hc : n.child? s = some c) {t : Step} (hne : t ≠ s) (v : Node σ) :
    (n.putChild s v).child? t = n.child? t := by
  unfold child? at hc
  split at hc
  · cases t <;> first | rfl | exact absurd rfl hne
  · cases t <;> first | rfl | exact absurd rfl hne
  · rename_i type fields state i
    cases t with
    | field j => exact child?_putField_of_ne _ (fun hij => hne (congrArg Step.field hij.symm)) v
    | _ => rfl
  · rename_i order kind elem entries k
    cases t with
    | entry other =>
        exact Entries.get?_put_of_ne _ (fun hkey => hne (congrArg Step.entry hkey)) v entries
    | _ => rfl
  · rename_i elem items i
    cases t with
    | element j =>
        have hij : i ≠ j := fun hij => hne (congrArg Step.element hij.symm)
        exact List.getElem?_set_ne hij
    | _ => rfl
  · rename_i entries k
    cases v with
    | dynamic d =>
        cases t with
        | entry other =>
            exact child?_alterEntry_of_ne (c := dynamic (.map entries)) rfl
              (fun hkey => hne (congrArg Step.entry hkey)) (some (dynamic d))
        | _ => rfl
    | _ => rfl
  · rename_i items i
    cases v with
    | dynamic d =>
        cases t with
        | element j =>
            have hij : i ≠ j := fun hij => hne (congrArg Step.element hij.symm)
            simp only [putChild, child?, List.getElem?_set_ne hij]
        | _ => rfl
    | _ => rfl
  · simp at hc

theorem state_putChild (n : Node σ) (s : Step) (v : Node σ) :
    (n.putChild s v).state? = n.state? := by
  unfold putChild
  split
  all_goals first | rfl | (split <;> rfl)

/-- A child replaced by one of its type. -/
theorem sameBut_putChild (hc : n.child? s = some c) (hty : v.ty = c.ty) :
    SameBut s n (n.putChild s v) :=
  ⟨ty_putChild hc hty, state_putChild n s v, fun _ hne => child?_putChild_of_ne hc hne v⟩

/-- An entry written or erased. -/
theorem sameBut_alterEntry {kind : KeyKind} {elem : Ty} {entries : List (MapKey × Node σ)}
    (hn : n.container = .map kind elem entries) (key : MapKey) (value : Option (Node σ)) :
    SameBut (.entry key) n (n.alterEntry key value) := by
  have hothers : ∀ t, t ≠ .entry key → (n.alterEntry key value).child? t = n.child? t := by
    intro t hne
    cases t with
    | entry other =>
        exact child?_alterEntry_of_ne hn (fun hkey => hne (congrArg Step.entry hkey)) value
    | _ =>
        rcases eq_map_of_container hn with ⟨order, rfl⟩ | ⟨rfl, rfl, others, rfl⟩
        · cases value <;> rfl
        · cases key with
          | text k =>
              rcases alterEntry_document k value with hsame | ⟨x, hx⟩
              · rw [hsame]
              · rw [hx]
                rfl
          | _ => cases value <;> rfl
  rcases eq_map_of_container hn with ⟨order, rfl⟩ | ⟨rfl, rfl, others, rfl⟩
  · cases value with
    | none => exact ⟨rfl, rfl, hothers⟩
    | some v => exact ⟨rfl, rfl, hothers⟩
  · cases key with
    | text k =>
        rcases alterEntry_document k value with hsame | ⟨x, hx⟩
        · rw [hsame] at hothers ⊢
          exact ⟨rfl, rfl, hothers⟩
        · rw [hx] at hothers ⊢
          exact ⟨rfl, rfl, hothers⟩
    | _ => cases value <;> exact ⟨rfl, rfl, hothers⟩

/-! ## Lists -/

section List

variable {elem : Ty} {items : List (Node σ)}

/-- A list is a typed list or a document. -/
theorem eq_list_of_container (h : c.container = .list elem items) :
    c = list elem items ∨
      elem = .dynamic ∧ ∃ others, items = others.map dynamic ∧ c = dynamic (.seq others) := by
  cases c with
  | list elem items =>
      obtain ⟨rfl, rfl⟩ : elem = _ ∧ items = _ := by simpa [container] using h
      exact .inl rfl
  | dynamic d =>
      cases d with
      | seq others =>
          obtain ⟨rfl, rfl⟩ : Ty.dynamic = _ ∧ others.map dynamic = _ := by
            simpa [container] using h
          exact .inr ⟨rfl, others, rfl, rfl⟩
      | _ => simp [container] at h
  | _ => simp [container] at h

/-- One item of a list is set. -/
theorem container_putElement (h : c.container = .list elem items) (i : Nat) (hty : w.ty = elem) :
    (c.putChild (.element i) w).container = .list elem (items.set i w) ∧
      (c.putChild (.element i) w).ty = c.ty := by
  rcases eq_list_of_container h with rfl | ⟨rfl, others, rfl, rfl⟩
  · exact ⟨rfl, rfl⟩
  · rcases eq_dynamic_of_ty hty with ⟨d, rfl⟩
    exact ⟨by rw [putChild, container, List.map_set], rfl⟩

/-- One item comes to the end of a list. -/
theorem container_append (h : c.container = .list elem items) (hty : w.ty = elem) :
    (c.append w).container = .list elem (items ++ [w]) ∧ (c.append w).ty = c.ty := by
  rcases eq_list_of_container h with rfl | ⟨rfl, others, rfl, rfl⟩
  · exact ⟨rfl, rfl⟩
  · rcases eq_dynamic_of_ty hty with ⟨d, rfl⟩
    exact ⟨by rw [append, container, List.map_append]; rfl, rfl⟩

/-- The item at the end is the one that was appended. -/
theorem child?_append (h : c.container = .list elem items) (hty : v.ty = elem) :
    (c.append v).child? (.element items.length) = some v := by
  rw [child?_element (container_append h hty).1, List.getElem?_concat_length]

/-- Changing the element that was appended is appending another one. -/
theorem putChild_append (h : c.container = .list elem items) (hv : v.ty = elem) {w : Node σ}
    (hw : w.ty = elem) : (c.append v).putChild (.element items.length) w = c.append w := by
  rcases eq_list_of_container h with rfl | ⟨rfl, others, rfl, rfl⟩
  · simp [append, putChild]
  · rcases eq_dynamic_of_ty hv with ⟨d, rfl⟩
    rcases eq_dynamic_of_ty hw with ⟨d', rfl⟩
    simp [append, putChild]

/-- The element that was appended, after a change of it. -/
theorem container_putAppended (h : c.container = .list elem items) (hv : v.ty = elem)
    {w : Node σ} (hw : w.ty = elem) :
    ((c.append v).putChild (.element items.length) w).container = .list elem (items ++ [w]) ∧
      ((c.append v).putChild (.element items.length) w).ty = c.ty := by
  rw [putChild_append h hv hw]
  exact container_append h hw

theorem container_eraseItem (h : c.container = .list elem items) (i : Nat) :
    (c.eraseItem i).container = .list elem (items.eraseIdx i) ∧ (c.eraseItem i).ty = c.ty := by
  rcases eq_list_of_container h with rfl | ⟨rfl, others, rfl, rfl⟩
  · exact ⟨rfl, rfl⟩
  · exact ⟨by rw [eraseItem, container, List.eraseIdx_map], rfl⟩

/-- Removing the element that was appended gives the list from before. -/
theorem eraseItem_append (h : c.container = .list elem items) (hty : w.ty = elem) :
    (c.append w).eraseItem items.length = c := by
  rcases eq_list_of_container h with rfl | ⟨rfl, others, rfl, rfl⟩
  · rw [append, eraseItem, List.eraseIdx_append_of_length_le (Nat.le_refl _)]
    simp
  · rcases eq_dynamic_of_ty hty with ⟨d, rfl⟩
    rw [append, eraseItem, List.length_map, List.eraseIdx_append_of_length_le (Nat.le_refl _)]
    simp

/-- The items of a list have the type that it is for. -/
theorem ty_of_element {S : Schema σ} {loops : Prop} (hc : S.Typed loops c)
    (h : c.container = .list elem items) {i : Nat} (hi : items[i]? = some v) : v.ty = elem := by
  rcases eq_list_of_container h with rfl | ⟨rfl, others, rfl, rfl⟩
  · cases hc with
    | list types _ => exact types v (List.mem_of_getElem? hi)
  · rw [List.getElem?_map] at hi
    rcases Option.map_eq_some_iff.1 hi with ⟨d, -, rfl⟩
    rfl

end List

end Node

end TreeSync
