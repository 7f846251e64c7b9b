import TreeSync.Navigate.Find
import TreeSync.Proofs.Document.Nested
import TreeSync.Proofs.Node.Layers

/-!
# Well-typed nodes

A node is well typed when records have the fields that their declaration names,
elements and entries have the types that their list or map is for, and the keys
of maps are values of the key kind in their order.  Whether a record may have a
field that is the record itself is a parameter: a target without such fields is
a tree.  Such a field has the type of its record.

Replacing a descendant by a well-typed node of the same type keeps a node well
typed.

Main definitions and results:

- `Schema.Typed` and `Schema.Sound`.
- `Schema.Keeps`: a change that keeps type and well-typedness.
- `Schema.Keeps.replaceAt`: such changes compose along an address.
-/

namespace TreeSync

/-- Whether the node stands for the record around it. -/
def Node.isEnclosing {σ : Type} : Node σ → Bool
  | enclosing _ => true
  | _ => false

namespace Schema

variable {σ : Type} (S : Schema σ)

/-- The fields of a record type with their types. -/
def signature (name : String) : List (Field × Ty) :=
  match S.find? name with
  | some d => d.fields.map fun f => (f.1, f.2.ty)
  | none => []

/-- The node is well typed; a field that is the record around it may occur only
if `loops` holds. -/
inductive Typed (loops : Prop) : Node σ → Prop where
  | scalar (slot : Slot) : Typed loops (.scalar slot)
  | absent (t : Ty) : Typed loops (.absent t)
  | present {v : Node σ} (h : Typed loops v) : Typed loops (.present v)
  | boxed {v : Node σ} (h : Typed loops v) : Typed loops (.boxed v)
  | list {elem : Ty} {items : List (Node σ)} (types : ∀ v ∈ items, v.ty = elem)
      (h : ∀ v ∈ items, Typed loops v) : Typed loops (.list elem items)
  | map {order : MapOrder} {key : KeyKind} {elem : Ty} {entries : List (MapKey × Node σ)}
      (ascending : Entries.Ascending order.before entries)
      (admits : ∀ e ∈ entries, key.Admits e.1) (types : ∀ e ∈ entries, e.2.ty = elem)
      (h : ∀ e ∈ entries, Typed loops e.2) : Typed loops (.map order key elem entries)
  | array {elem : Ty} {items : List (Node σ)} (types : ∀ v ∈ items, v.ty = elem)
      (h : ∀ v ∈ items, Typed loops v) : Typed loops (.array elem items)
  | dynamic {d : Document} (h : d.Ordered) : Typed loops (.dynamic d)
  | record {type : String} {fields : List (Field × Node σ)} {state : σ}
      (types : fields.map (fun f => (f.1, f.2.ty)) = S.signature type)
      (within : ∀ f ∈ fields, f.2.isEnclosing = true → f.2.ty = .record type)
      (h : ∀ f ∈ fields, Typed loops f.2) : Typed loops (.record type fields state)
  | enclosing {type : String} (h : loops) : Typed loops (.enclosing type)

/-- The values of new records are well typed. -/
def Sound (loops : Prop) : Prop :=
  ∀ d ∈ S.records, ∀ f ∈ d.fields,
    S.Typed loops f.2 ∧ (f.2.isEnclosing = true → f.2.ty = .record d.name)

variable {S}

/-- Nothing in a tree stands for the record around it. -/
theorem Typed.isEnclosing_eq_false {n : Node σ} (h : S.Typed False n) : n.isEnclosing = false := by
  cases h with
  | enclosing h => exact h.elim
  | _ => rfl

/-- A record of a tree is well typed when its fields are, and have the types declared. -/
theorem Typed.record_of_tree {type : String} {fields : List (Field × Node σ)} {state : σ}
    (types : fields.map (fun f => (f.1, f.2.ty)) = S.signature type)
    (h : ∀ f ∈ fields, S.Typed False f.2) : S.Typed False (.record type fields state) :=
  .record types
    (fun f hf hloop => Bool.noConfusion ((h f hf).isEnclosing_eq_false.symm.trans hloop)) h

/-- Declarations are sound when the values of new records are well typed trees. -/
theorem sound_of_tree (h : ∀ d ∈ S.records, ∀ f ∈ d.fields, S.Typed False f.2) : S.Sound False :=
  fun d hd f hf => ⟨h d hd f hf, fun hloop =>
    Bool.noConfusion ((h d hd f hf).isEnclosing_eq_false.symm.trans hloop)⟩

/-- Without record types there is nothing to be well typed. -/
theorem sound_empty (blank : σ) : (empty blank).Sound False :=
  fun _ hd => absurd hd List.not_mem_nil

variable (S)

/-- One node can stand for another: it has the same type and is well typed if the
other one is, and it is the record around it only if the other one is. -/
structure Keeps (loops : Prop) (n m : Node σ) : Prop where
  ty_eq : m.ty = n.ty
  typed : S.Typed loops n → S.Typed loops m
  enclosing : m.isEnclosing = true → n.isEnclosing = true

namespace Keeps

variable {S} {loops : Prop} {n m k : Node σ}

theorem refl (n : Node σ) : S.Keeps loops n n :=
  ⟨rfl, id, id⟩

theorem trans (h : S.Keeps loops n m) (h' : S.Keeps loops m k) : S.Keeps loops n k :=
  ⟨h'.ty_eq.trans h.ty_eq, fun hn => h'.typed (h.typed hn), fun hk => h.enclosing (h'.enclosing hk)⟩

/-- A well-typed node of the same type can stand for any other one, unless it is the record
around it. -/
theorem of_typed (hty : m.ty = n.ty) (hm : S.Typed loops m) (hne : m.isEnclosing = false) :
    S.Keeps loops n m :=
  ⟨hty, fun _ => hm, fun h => Bool.noConfusion (hne.symm.trans h)⟩

theorem present (h : S.Keeps loops n m) : S.Keeps loops (.present n) (.present m) := by
  refine ⟨by rw [Node.ty, Node.ty, h.ty_eq], fun hn => ?_, id⟩
  cases hn with
  | present hn => exact .present (h.typed hn)

theorem boxed (h : S.Keeps loops n m) : S.Keeps loops (.boxed n) (.boxed m) := by
  refine ⟨by rw [Node.ty, Node.ty, h.ty_eq], fun hn => ?_, id⟩
  cases hn with
  | boxed hn => exact .boxed (h.typed hn)

end Keeps

/-! ## Documents -/

/-- A well-typed document is ordered. -/
theorem ordered_of_typed {loops : Prop} {d : Document} (h : S.Typed loops (.dynamic d)) :
    d.Ordered := by
  cases h with
  | dynamic h => exact h

/-! ## Children -/

variable {S} {loops : Prop} {n c v : Node σ}

/-- The children of a well-typed node are well typed. -/
theorem Typed.child (h : S.Typed loops n) {s : Step} (hc : n.child? s = some c) :
    S.Typed loops c := by
  unfold Node.child? at hc
  split at hc
  · cases h with
    | present h => exact Option.some.inj hc ▸ h
  · cases h with
    | boxed h => exact Option.some.inj hc ▸ h
  · cases h with
    | record _ _ h =>
        obtain ⟨f, hf, rfl⟩ := Option.map_eq_some_iff.1 hc
        exact h f (List.mem_of_getElem? hf)
  · cases h with
    | map _ _ _ h => exact h _ (Entries.mem_of_get?_eq_some hc)
  · cases h with
    | list _ h => exact h c (List.mem_of_getElem? hc)
  · obtain ⟨d, hd, rfl⟩ := Option.map_eq_some_iff.1 hc
    exact .dynamic ((S.ordered_of_typed h).get hd)
  · obtain ⟨d, hd, rfl⟩ := Option.map_eq_some_iff.1 hc
    exact .dynamic ((S.ordered_of_typed h).item (List.mem_of_getElem? hd))
  · simp at hc

/-- The descendants of a well-typed node are well typed. -/
theorem Typed.get (h : S.Typed loops n) {a : Address} (hc : n.get? a = some c) :
    S.Typed loops c := by
  induction a generalizing n with
  | nil => exact Option.some.inj hc ▸ h
  | cons s rest ih =>
      obtain ⟨d, hd, hc⟩ := Option.bind_eq_some_iff.1 hc
      exact ih (h.child hd) hc

/-- What stands below the layers of a well-typed node is well typed. -/
theorem Typed.innermost (h : S.Typed loops n) : S.Typed loops n.innermost :=
  h.get n.get?_coreAddress

/-- Putting a child where it already is changes nothing. -/
theorem Typed.putChild_self (h : S.Typed loops n) {s : Step} (hc : n.child? s = some c) :
    n.putChild s c = n := by
  unfold Node.child? at hc
  split at hc
  · exact congrArg Node.present (Option.some.inj hc).symm
  · exact congrArg Node.boxed (Option.some.inj hc).symm
  · rename_i type fields state i
    obtain ⟨f, hf, rfl⟩ := Option.map_eq_some_iff.1 hc
    have hsame : (fields.modify i fun g => (g.1, f.2)) = fields := by
      refine List.ext_getElem? fun j => ?_
      rw [List.getElem?_modify]
      by_cases hij : i = j
      · subst hij
        simp [hf]
      · simp [hij]
    rw [Node.putChild, hsame]
  · rename_i order key elem entries k
    cases h with
    | map ascending =>
        rw [Node.putChild, Entries.put_of_get?_eq_some (order.orders key) ascending hc]
  · rename_i elem items i
    obtain ⟨hi, rfl⟩ := List.getElem?_eq_some_iff.1 hc
    rw [Node.putChild, List.set_getElem_self]
  · rename_i entries k
    obtain ⟨d, hd, rfl⟩ := Option.map_eq_some_iff.1 hc
    have hasc := (S.ordered_of_typed h).ascending
    rw [Node.putChild, Entries.put_of_get?_eq_some Json.nameOrders hasc hd]
  · rename_i items i
    obtain ⟨d, hd, rfl⟩ := Option.map_eq_some_iff.1 hc
    obtain ⟨hi, rfl⟩ := List.getElem?_eq_some_iff.1 hd
    rw [Node.putChild, List.set_getElem_self]
  · simp at hc

/-- Putting a descendant where it already is changes nothing. -/
theorem Typed.replaceAt_self (h : S.Typed loops n) {a : Address} (hc : n.get? a = some c) :
    n.replaceAt a c = n := by
  induction a generalizing n with
  | nil => exact (Option.some.inj hc).symm
  | cons s rest ih =>
      obtain ⟨d, hd, hc⟩ := Option.bind_eq_some_iff.1 hc
      simp only [Node.replaceAt, hd]
      rw [ih (h.child hd) hc, h.putChild_self hd]

/-- A change of one field keeps a record. -/
theorem Keeps.putField {type : String} {fields : List (Field × Node σ)} {state : σ} {i : Nat}
    {f : Field × Node σ} (hf : fields[i]? = some f) (h : S.Keeps loops f.2 v) :
    S.Keeps loops (.record type fields state)
      ((Node.record type fields state).putChild (.field i) v) := by
  have hmem := List.mem_of_getElem? hf
  have hfields : ∀ g ∈ fields.modify i fun g => (g.1, v), g = (f.1, v) ∨ g ∈ fields := by
    intro g hg
    obtain ⟨j, hj⟩ := List.getElem?_of_mem hg
    rw [List.getElem?_modify] at hj
    by_cases hij : i = j
    · subst hij
      exact .inl (by simpa [hf] using hj.symm)
    · exact .inr (List.mem_of_getElem? (by simpa [hij] using hj))
  refine ⟨rfl, fun hn => ?_, id⟩
  cases hn with
  | record types within hall =>
      refine .record ?_ (fun g hg => ?_) fun g hg => ?_
      · rw [← types]
        refine List.ext_getElem? fun j => ?_
        simp only [List.getElem?_map, List.getElem?_modify]
        by_cases hij : i = j
        · subst hij
          simp [hf, h.ty_eq]
        · simp [hij]
      · rcases hfields g hg with rfl | hg
        · exact fun hv => h.ty_eq.trans (within f hmem (h.enclosing hv))
        · exact within g hg
      · rcases hfields g hg with rfl | hg
        · exact h.typed (hall f hmem)
        · exact hall g hg

/-- A map with a well-typed value under a key that it admits is well typed. -/
theorem Typed.putEntry {order : MapOrder} {key : KeyKind} {elem : Ty}
    {entries : List (MapKey × Node σ)} (hn : S.Typed loops (.map order key elem entries))
    {k : MapKey} (hk : key.Admits k) (hty : v.ty = elem) (hv : S.Typed loops v) :
    S.Typed loops ((Node.map order key elem entries).putChild (.entry k) v) := by
  cases hn with
  | map ascending admits types hall =>
      refine .map (ascending.put (order.orders key) hk v admits) (fun e he => ?_)
        (fun e he => ?_) fun e he => ?_
      all_goals rcases Entries.mem_put _ he with rfl | he
      · exact hk
      · exact admits e he
      · exact hty
      · exact types e he
      · exact hv
      · exact hall e he

/-- A change of one child keeps a node. -/
theorem Keeps.putChild {s : Step} (hc : n.child? s = some c) (h : S.Keeps loops c v) :
    S.Keeps loops n (n.putChild s v) := by
  unfold Node.child? at hc
  split at hc
  · obtain rfl := Option.some.inj hc
    exact h.present
  · obtain rfl := Option.some.inj hc
    exact h.boxed
  · obtain ⟨f, hf, rfl⟩ := Option.map_eq_some_iff.1 hc
    exact .putField hf h
  · refine ⟨rfl, fun hn => ?_, id⟩
    have hmem := Entries.mem_of_get?_eq_some hc
    have hv := h.typed (hn.child (s := .entry _) hc)
    cases hn with
    | map ascending admits types hall =>
        exact Typed.putEntry (.map ascending admits types hall) (admits _ hmem)
          (h.ty_eq.trans (types _ hmem)) hv
  · rename_i elem items i
    refine ⟨rfl, fun hn => ?_, id⟩
    cases hn with
    | list types hall =>
        have hmem := List.mem_of_getElem? hc
        refine .list (fun w hw => ?_) fun w hw => ?_
        all_goals rcases List.mem_or_eq_of_mem_set hw with hw | rfl
        · exact types w hw
        · exact h.ty_eq.trans (types c hmem)
        · exact hall w hw
        · exact h.typed (hall c hmem)
  · rename_i entries k
    obtain ⟨d, hd, rfl⟩ := Option.map_eq_some_iff.1 hc
    obtain ⟨e, rfl⟩ := Node.eq_dynamic_of_ty h.ty_eq
    refine ⟨rfl, fun hn => .dynamic ((S.ordered_of_typed hn).put k ?_), id⟩
    exact S.ordered_of_typed (h.typed (.dynamic ((S.ordered_of_typed hn).get hd)))
  · rename_i items i
    obtain ⟨d, hd, rfl⟩ := Option.map_eq_some_iff.1 hc
    obtain ⟨e, rfl⟩ := Node.eq_dynamic_of_ty h.ty_eq
    refine ⟨rfl, fun hn => .dynamic (.seq fun w hw => ?_), id⟩
    have hitems := S.ordered_of_typed hn
    rcases List.mem_or_eq_of_mem_set hw with hw | rfl
    · exact hitems.item hw
    · exact S.ordered_of_typed (h.typed (.dynamic (hitems.item (List.mem_of_getElem? hd))))
  · simp at hc

/-- A change of one descendant keeps a node. -/
theorem Keeps.replaceAt {a : Address} (hc : n.get? a = some c) (h : S.Keeps loops c v) :
    S.Keeps loops n (n.replaceAt a v) := by
  induction a generalizing n with
  | nil =>
      obtain rfl := Option.some.inj hc
      exact h
  | cons s rest ih =>
      obtain ⟨d, hd, hc⟩ := Option.bind_eq_some_iff.1 hc
      simp only [Node.replaceAt, hd]
      exact (ih hc).putChild hd

/-- A change below the layers keeps the node well typed. -/
theorem Keeps.withCore (h : S.Keeps loops n.innermost v) : S.Keeps loops n (n.withCore v) :=
  h.replaceAt n.get?_coreAddress

theorem Keeps.putBack {α : Type} {a : Address} {r : Node σ × α} (hc : n.get? a = some c)
    (h : S.Keeps loops c r.1) : S.Keeps loops n (n.putBack a r).1 :=
  h.replaceAt hc

end Schema

end TreeSync
