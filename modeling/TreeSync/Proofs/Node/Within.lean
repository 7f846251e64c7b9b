import Mathlib.Data.List.Forall2
import TreeSync.Proofs.Node.Altering
import TreeSync.Proofs.Node.Replacing

/-!
# Nothing new in a node

A node holds nothing that another one does not hold when every filled optional
slot, map entry and list element in it was in the other one, at the same key and
in the same order.  What is hollow holds none of them at all.

Main definitions and results:

- `Node.Hollow`: no filled optional slot, no entry, no element.
- `Node.Within`: nothing but what another node holds.
- `Node.Within.replaceAt`: a descendant may be replaced by what is within it.
- `Schema.hollow_zero`: new values are hollow if new records are.
-/

namespace TreeSync

namespace Node

variable {σ : Type} {n m c v w : Node σ}

/-- The node holds no filled optional slot, map entry or list element. -/
inductive Hollow : Node σ → Prop where
  | scalar (slot : Slot) : Hollow (scalar slot)
  | absent (t : Ty) : Hollow (absent t)
  | boxed {v : Node σ} (h : Hollow v) : Hollow (boxed v)
  | list (elem : Ty) : Hollow (list elem [])
  | map (order : MapOrder) (key : KeyKind) (elem : Ty) : Hollow (map order key elem [])
  | array {elem : Ty} {items : List (Node σ)} (h : ∀ v ∈ items, Hollow v) :
      Hollow (array elem items)
  | dynamic {d : Document} (h : ∀ s, (dynamic d : Node σ).child? s = none) : Hollow (dynamic d)
  | record {type : String} {fields : List (Field × Node σ)} {state : σ}
      (h : ∀ f ∈ fields, Hollow f.2) : Hollow (record type fields state)
  | enclosing (type : String) : Hollow (enclosing type)

/-- Every filled optional slot, map entry and list element of the second node is
one of the first node.  A list may have lost elements but keeps their order. -/
inductive Within : Node σ → Node σ → Prop where
  | same (n : Node σ) : Within n n
  | hollow {n m : Node σ} (h : m.Hollow) : Within n m
  | present {v w : Node σ} (h : Within v w) : Within (present v) (present w)
  | boxed {v w : Node σ} (h : Within v w) : Within (boxed v) (boxed w)
  | record {type : String} {fields others : List (Field × Node σ)} {state : σ}
      (names : others.map Prod.fst = fields.map Prod.fst)
      (h : ∀ (i : Nat) (f g : Field × Node σ), fields[i]? = some f → others[i]? = some g →
        Within f.2 g.2) : Within (record type fields state) (record type others state)
  | map {n m : Node σ} {kind : KeyKind} {elem : Ty} {entries others : List (MapKey × Node σ)}
      (before : n.container = .map kind elem entries)
      (after : m.container = .map kind elem others)
      (keys : ∀ key, n.child? (.entry key) = none → m.child? (.entry key) = none)
      (h : ∀ key v w, n.child? (.entry key) = some v → m.child? (.entry key) = some w →
        Within v w) : Within n m
  | list {n m : Node σ} {elem : Ty} {items kept others : List (Node σ)}
      (before : n.container = .list elem items) (after : m.container = .list elem others)
      (order : kept.Sublist items) (h : List.Forall₂ Within kept others) : Within n m

/-- Only records have fields. -/
theorem exists_record_of_field {i : Nat} (hv : n.child? (.field i) = some v) :
    ∃ type fields state, n = .record type fields state := by
  unfold child? at hv
  split at hv
  all_goals first | exact ⟨_, _, _, rfl⟩ | simp_all

/-- A field of a record holds nothing but what it held before. -/
theorem Within.field {i : Nat} (h : n.Within m) (hv : n.child? (.field i) = some v)
    (hw : m.child? (.field i) = some w) : v.Within w := by
  obtain ⟨type, fields, state, rfl⟩ := exists_record_of_field hv
  obtain ⟨type', others, state', rfl⟩ := exists_record_of_field hw
  obtain ⟨f, hf, rfl⟩ := Option.map_eq_some_iff.1 hv
  obtain ⟨g, hg, rfl⟩ := Option.map_eq_some_iff.1 hw
  cases h with
  | same =>
      obtain rfl := Option.some.inj (hf.symm.trans hg)
      exact .same _
  | hollow hm =>
      cases hm with
      | record h => exact .hollow (h g (List.mem_of_getElem? hg))
  | record names h => exact h i f g hf hg
  | map before => simp [container] at before
  | list before => simp [container] at before

/-! ## One child -/

/-- One item of a list replaced. -/
theorem forall₂_within_set {items : List (Node σ)} {i : Nat} (hi : items[i]? = some c)
    (h : c.Within v) : List.Forall₂ Within items (items.set i v) := by
  induction items generalizing i with
  | nil => exact .nil
  | cons x rest ih =>
      cases i with
      | zero =>
          obtain rfl := Option.some.inj hi
          exact .cons h (List.forall₂_same.2 fun y _ => .same y)
      | succ i => exact .cons (.same x) (ih hi)

theorem Within.putField {type : String} {fields : List (Field × Node σ)} {state : σ} {i : Nat}
    {f : Field × Node σ} (hf : fields[i]? = some f) (h : f.2.Within v) :
    Within (.record type fields state)
      ((Node.record type fields state).putChild (.field i) v) := by
  refine .record ?_ fun j g g' hg hg' => ?_
  · refine List.ext_getElem? fun j => ?_
    simp only [List.getElem?_map, List.getElem?_modify]
    by_cases hij : i = j
    · subst hij
      simp [hf]
    · simp [hij]
  · rw [List.getElem?_modify, hg] at hg'
    obtain rfl := Option.some.inj hg'
    by_cases hij : i = j
    · subst hij
      obtain rfl := Option.some.inj (hf.symm.trans hg)
      simpa using h
    · simpa [hij] using Within.same g.2

theorem Within.putEntry {kind : KeyKind} {elem : Ty} {entries : List (MapKey × Node σ)}
    {key : MapKey} (hn : n.container = .map kind elem entries)
    (hc : n.child? (.entry key) = some c) (hty : v.ty = c.ty) (h : c.Within v) :
    n.Within (n.putChild (.entry key) v) := by
  rcases container_putEntry hn key v with ⟨others, hothers⟩
  have hother : ∀ other, other ≠ key →
      (n.putChild (.entry key) v).child? (.entry other) = n.child? (.entry other) :=
    fun other hne => child?_alterEntry_of_ne hn hne (some v)
  refine .map hn hothers (fun other hnone => ?_) fun other u w hu hw => ?_
  · have hne : other ≠ key := by
      rintro rfl
      rw [hc] at hnone
      simp at hnone
    rw [hother other hne, hnone]
  · by_cases hkey : other = key
    · subst hkey
      rw [child?_putChild hc hty] at hw
      obtain rfl := Option.some.inj hw
      obtain rfl := Option.some.inj (hc.symm.trans hu)
      exact h
    · rw [hother other hkey, hu] at hw
      obtain rfl := Option.some.inj hw
      exact .same u

/-- One child replaced by what is within it. -/
theorem Within.putChild {s : Step} (hc : n.child? s = some c) (hty : v.ty = c.ty)
    (h : c.Within v) : n.Within (n.putChild s v) := by
  have hchild := hc
  unfold child? at hc
  split at hc
  · obtain rfl := Option.some.inj hc
    exact .present h
  · obtain rfl := Option.some.inj hc
    exact .boxed h
  · obtain ⟨f, hf, rfl⟩ := Option.map_eq_some_iff.1 hc
    exact .putField hf h
  · exact .putEntry rfl hchild hty h
  · exact .list rfl rfl (List.Sublist.refl _) (forall₂_within_set hc h)
  · exact .putEntry rfl hchild hty h
  · rename_i items i
    obtain ⟨d, hd, rfl⟩ := Option.map_eq_some_iff.1 hc
    obtain ⟨x, rfl⟩ := eq_dynamic_of_ty hty
    refine .list rfl rfl (List.Sublist.refl _) ?_
    rw [List.map_set]
    exact forall₂_within_set (by rw [List.getElem?_map, hd]; rfl) h
  · simp at hc

/-- One descendant replaced by what is within it. -/
theorem Within.replaceAt {a : Address} (hc : n.get? a = some c) (hty : v.ty = c.ty)
    (h : c.Within v) : n.Within (n.replaceAt a v) := by
  induction a generalizing n with
  | nil =>
      obtain rfl := Option.some.inj hc
      exact h
  | cons s rest ih =>
      rcases Option.bind_eq_some_iff.1 hc with ⟨d, hd, hrest⟩
      simp only [Node.replaceAt, hd]
      exact .putChild hd (ty_replaceAt hrest hty) (ih hrest)

/-! ## Losing a child -/

theorem within_eraseEntry {kind : KeyKind} {elem : Ty} {entries : List (MapKey × Node σ)}
    (hn : n.container = .map kind elem entries) (key : MapKey) :
    n.Within (n.eraseEntry key) := by
  rcases container_alterEntry hn key none with ⟨others, hothers⟩
  have hother : ∀ other, other ≠ key →
      (n.eraseEntry key).child? (.entry other) = n.child? (.entry other) :=
    fun other hne => child?_alterEntry_of_ne hn hne none
  refine .map hn hothers (fun other hnone => ?_) fun other v w hv hw => ?_
  · by_cases hkey : other = key
    · subst hkey
      rw [show n.eraseEntry other = n.alterEntry other none from rfl, alterEntry_none hn hnone,
        hnone]
    · rw [hother other hkey, hnone]
  · by_cases hkey : other = key
    · subst hkey
      rw [child?_eraseEntry hn] at hw
      simp at hw
    · rw [hother other hkey, hv] at hw
      obtain rfl := Option.some.inj hw
      exact .same v

theorem within_eraseItem {elem : Ty} {items : List (Node σ)}
    (hn : n.container = .list elem items) (i : Nat) : n.Within (n.eraseItem i) := by
  have hsame : ∀ others : List (Node σ), List.Forall₂ Within others others :=
    fun others => List.forall₂_same.2 fun v _ => .same v
  cases n with
  | list elem items => exact .list rfl rfl (List.eraseIdx_sublist items i) (hsame _)
  | dynamic d =>
      cases d with
      | seq items =>
          refine .list rfl rfl ((List.eraseIdx_sublist items i).map dynamic) (hsame _)
      | _ => simp [container] at hn
  | _ => simp [container] at hn

end Node

namespace Schema

open Node

variable {σ : Type} {S : Schema σ}

/-- New records hold nothing, as the values that fields are reset to should. -/
def HollowDefaults (S : Schema σ) : Prop :=
  ∀ d ∈ S.records, ∀ f ∈ d.fields, f.2.Hollow

/-- New values hold nothing if new records do not. -/
theorem hollow_zero (h : S.HollowDefaults) (t : Ty) : (S.zero t).Hollow := by
  induction t with
  | scalar kind => exact .scalar _
  | option t => exact .absent t
  | box t ih => exact .boxed ih
  | list t => exact .list t
  | map order key t => exact .map order key t
  | array t n ih =>
      refine .array fun v hv => ?_
      rw [List.eq_of_mem_replicate hv]
      exact ih
  | dynamic => exact .dynamic fun s => by cases s <;> rfl
  | record name =>
      rw [zero]
      cases hd : S.find? name with
      | none => exact .record (List.forall_mem_nil _)
      | some d => exact .record (h d (List.mem_of_find?_eq_some hd))

end Schema

end TreeSync
