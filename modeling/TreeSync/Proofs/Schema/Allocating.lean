import TreeSync.Proofs.Schema.Matching

/-!
# What eager building leaves empty

With the option to allocate children, an element is built from a key with every slot filled
that fields and layers lead to.  A slot stays empty if a type above it is the one that its
value would have.  It also stays empty in a record that was not allocated for a slot, but
that a new record further up holds from the start, if this happens inside a record of its
own type: there allocation does not look any further.

Main definitions and results:

- `Schema.Filled`: what eager allocation leaves of a node.
- `Schema.Trail`: the types that it has seen on its way.
- `Schema.filled_allocateChildren`, `Schema.filled_fill`: it is left by allocating and kept by
  filling in what a key describes.
- `Schema.absent_of_build`: the empty slots of a built element.
-/

namespace TreeSync

namespace Ty

theorem core_core (t : Ty) : t.core.core = t.core := by
  induction t with
  | option t ih => exact ih
  | box t ih => exact ih
  | _ => rfl

/-- A core is no larger than the type around it, which carries the induction on types. -/
theorem sizeOf_core_le (t : Ty) : sizeOf t.core ≤ sizeOf t := by
  induction t with
  | option t ih => exact Nat.le_trans ih (by simp)
  | box t ih => exact Nat.le_trans ih (by simp)
  | _ => exact Nat.le_refl _

/-- The type below the boxes of a new value is the one below all layers. -/
theorem eq_core_of_freshTarget {t u : Ty} (h : t.freshTarget? = some u) : u = t.core := by
  induction t with
  | option t => simp [freshTarget?] at h
  | box t ih => exact ih h
  | _ => exact (Option.some.inj h).symm

/-- What a fresh slot is for is none of the types around the slot, which are larger. -/
theorem ne_of_freshTarget {t u p : Ty} (h : t.freshTarget? = some u) (hlt : sizeOf t < sizeOf p) :
    u ≠ p := by
  rintro rfl
  have hle := t.sizeOf_core_le
  rw [← eq_core_of_freshTarget h] at hle
  omega

end Ty

namespace Address

/-- The address leads through record fields and layers only. -/
def Inline (a : Address) : Prop :=
  ∀ s ∈ a, s = .pointee ∨ ∃ i, s = .field i

/-- An inline address goes through layers and fields only. -/
theorem Inline.of_cons {s : Step} {rest : Address} (h : Inline (s :: rest)) :
    (s = .pointee ∨ ∃ i, s = .field i) ∧ Inline rest :=
  ⟨h s List.mem_cons_self, fun t ht => h t (List.mem_cons_of_mem s ht)⟩

end Address

namespace Node

variable {σ : Type} {n : Node σ} {a : Address} {t : Ty}

/-- A node of the type stands properly above the address. -/
def Encloses (n : Node σ) (a : Address) (t : Ty) : Prop :=
  ∃ b, b <+: a ∧ b ≠ a ∧ (n.get? b).map ty = some t

/-- What encloses an address encloses every address behind it. -/
theorem Encloses.step (h : n.Encloses a t) (s : Step) : n.Encloses (a ++ [s]) t := by
  obtain ⟨b, hb, -, hty⟩ := h
  refine ⟨b, hb.trans (List.prefix_append a [s]), fun heq => ?_, hty⟩
  have hlength := hb.length_le
  rw [heq, List.length_append, List.length_singleton] at hlength
  omega

/-- A node encloses its children. -/
theorem encloses_of_get? {v : Node σ} (h : n.get? a = some v) (s : Step) :
    n.Encloses (a ++ [s]) v.ty :=
  ⟨a, List.prefix_append a [s], by simp, by rw [h, Option.map_some]⟩

theorem get?_concat {v : Node σ} (h : n.get? a = some v) (s : Step) :
    n.get? (a ++ [s]) = v.child? s := by
  rw [get?_append, h, Option.bind_some, get?]
  cases v.child? s <;> rfl

/-- Nothing stands below a scalar. -/
theorem not_encloses_scalar {v : Node σ} {kind : ScalarKind} (h : n.get? a = some v) :
    ¬ n.Encloses a (.scalar kind) := by
  rintro ⟨b, ⟨rest, rfl⟩, hne, hty⟩
  obtain ⟨w, hw, hscalar⟩ := Option.map_eq_some_iff.1 hty
  obtain ⟨slot, rfl⟩ := eq_scalar_of_ty hscalar
  rw [get?_append, hw, Option.bind_some] at h
  cases rest with
  | nil => exact hne (List.append_nil b).symm
  | cons s rest => simp [get?, child?] at h

/-! ## Layers as steps -/

/-- Only layers have something to point to. -/
theorem kind_of_layer {v : Node σ} (h : n.child? .pointee = some v) : n.kind = .pointer := by
  cases n <;> simp_all [child?, kind]

theorem core_ty_of_layer {v : Node σ} (h : n.child? .pointee = some v) :
    n.ty.core = v.ty.core := by
  cases n <;> simp_all [child?, ty, Ty.core]

theorem child?_field_of_layer {v : Node σ} (h : n.child? .pointee = some v) (i : Nat) :
    n.child? (.field i) = none := by
  cases n <;> simp_all [child?]

end Node

namespace Schema

open Node

variable {σ : Type} {S : Schema σ} {o : Options} {above ancestors : List Ty}
  {start : Option (Node σ)} {n m v u : Node σ} {a b : Address} {t : Ty} {type : String}
  {fields : List (Field × Node σ)} {state : σ}

/-! ## What is held from the start -/

/-- A new value of a record type is a record of this type. -/
theorem exists_zero_record (S : Schema σ) (type : String) :
    ∃ fields state, S.zero (.record type) = .record type fields state :=
  eq_record_of_ty (S.isEnclosing_zero _) (S.ty_zero _)

/-- A new record of the type that stands further up holds the node at this address. -/
def Holds (S : Schema σ) (m : Node σ) (a : Address) (u : Node σ) : Prop :=
  ∃ b k outer, k ≠ [] ∧ b ++ k = a ∧ (m.get? b).map ty = some (.record outer) ∧
    (S.zero (.record outer)).get? k = some u

/-- At the address stands a record inside another of its type, and a new record further up
holds it from the start. -/
def HeldWithin (S : Schema σ) (m : Node σ) (a : Address) : Prop :=
  ∃ u type, S.Holds m a u ∧ u.ty = .record type ∧ (m.get? a).map ty = some (.record type) ∧
    m.Encloses a (.record type)

/-- What a new record holds from the start, it holds with its children. -/
theorem Holds.step (h : S.Holds m a u) {s : Step} (hv : u.child? s = some v) :
    S.Holds m (a ++ [s]) v := by
  obtain ⟨b, k, outer, -, rfl, hty, hu⟩ := h
  refine ⟨b, k ++ [s], outer, by simp, (List.append_assoc ..).symm, hty, ?_⟩
  rw [get?_concat hu, hv]

/-- A new record holds its fields from the start. -/
theorem holds_of_record (hm : (m.get? a).map ty = some (.record type)) {s : Step}
    (hv : (S.zero (.record type)).child? s = some v) : S.Holds m (a ++ [s]) v := by
  refine ⟨a, [s], type, by simp, rfl, hm, ?_⟩
  rw [get?, hv, Option.bind_some, get?]

/-! ## Filled nodes -/

/-- Behind a layer stands what a new record further up holds there, or something else. -/
def Inherited (start below : Option (Node σ)) : Prop :=
  below = none ∨ below = start.bind fun u => u.child? .pointee

/-- What eager allocation leaves of a node inside records of the types `above`.  The value
`start`, if there is one, is what a new record further up holds in the place of the node. -/
inductive Filled (S : Schema σ) : List Ty → Option (Node σ) → Node σ → Prop where
  /-- Neither a layer nor a record. -/
  | leaf {above : List Ty} {start : Option (Node σ)} {n : Node σ} (hbare : n.Bare)
      (hrecord : ∀ type fields state, n ≠ .record type fields state) : Filled S above start n
  /-- An empty slot for a type above. -/
  | absent {above : List Ty} {start : Option (Node σ)} {t : Ty} (h : t.core ∈ above) :
      Filled S above start (.absent t)
  /-- A filled slot or a boxed value. -/
  | layer {above : List Ty} {start below : Option (Node σ)} {n v : Node σ}
      (hv : n.child? .pointee = some v) (hbelow : Inherited start below)
      (h : Filled S above below v) : Filled S above start n
  /-- A record whose fields were filled. -/
  | record {above : List Ty} {start : Option (Node σ)} {type : String}
      {fields : List (Field × Node σ)} {state : σ}
      (h : ∀ i f v, fields[i]? = some (f, v) →
        Filled S (.record type :: above)
          ((start.getD (S.zero (.record type))).child? (.field i)) v) :
      Filled S above start (.record type fields state)
  /-- A record inside another of its type, held from the start. -/
  | held {above : List Ty} {u : Node σ} {type : String} {fields : List (Field × Node σ)}
      {state : σ} (hu : u.ty = .record type) (h : .record type ∈ above) :
      Filled S above (some u) (.record type fields state)

/-- What eager allocation may find in the place of a node: what it left on another pass, or
what a new record holds from the start. -/
inductive Fillable (S : Schema σ) : List Ty → Option (Node σ) → Node σ → Prop where
  /-- Filled before. -/
  | filled {above : List Ty} {start : Option (Node σ)} {n : Node σ} (h : S.Filled above start n) :
      Fillable S above start n
  /-- An empty slot. -/
  | absent {above : List Ty} {start : Option (Node σ)} (t : Ty) : Fillable S above start (.absent t)
  /-- A filled slot or a boxed value. -/
  | layer {above : List Ty} {start below : Option (Node σ)} {n v : Node σ}
      (hv : n.child? .pointee = some v) (hbelow : Inherited start below)
      (h : Fillable S above below v) : Fillable S above start n
  /-- A record as it is held from the start. -/
  | record {above : List Ty} (type : String) (fields : List (Field × Node σ)) (state : σ) :
      Fillable S above (some (.record type fields state)) (.record type fields state)

/-- What is held from the start is as eager allocation may find it. -/
theorem fillable_self (S : Schema σ) (above : List Ty) (n : Node σ) : S.Fillable above (some n) n := by
  induction n using layers_induction with
  | absent t => exact .absent t
  | present v ih => exact .layer rfl (.inr rfl) ih
  | boxed v ih => exact .layer rfl (.inr rfl) ih
  | bare n hn =>
      cases n with
      | record type fields state => exact .record type fields state
      | _ => exact .filled (.leaf hn (by simp))

/-- Nothing has to be done inside a type that stands above. -/
theorem Fillable.filled_of_mem (h : S.Fillable above start n) (hmem : n.ty.core ∈ above) :
    S.Filled above start n := by
  induction h with
  | filled h => exact h
  | absent t => exact .absent hmem
  | layer hv hbelow _ ih => exact .layer hv hbelow (ih (core_ty_of_layer hv ▸ hmem))
  | record type fields state => exact .held rfl hmem

/-- What a filled layer points to is filled. -/
theorem Filled.of_layer (h : S.Filled above start n) (hv : n.child? .pointee = some v) :
    ∃ below, Inherited start below ∧ S.Filled above below v := by
  cases h with
  | leaf hbare => exact absurd (kind_of_layer hv) hbare
  | layer hw hbelow h =>
      obtain rfl := Option.some.inj (hv.symm.trans hw)
      exact ⟨_, hbelow, h⟩
  | _ => simp [child?] at hv

/-- What a layer points to can be filled as well. -/
theorem Fillable.of_layer (h : S.Fillable above start n) (hv : n.child? .pointee = some v) :
    ∃ below, Inherited start below ∧ S.Fillable above below v := by
  cases h with
  | filled h =>
      obtain ⟨below, hbelow, h⟩ := h.of_layer hv
      exact ⟨below, hbelow, .filled h⟩
  | layer hw hbelow h =>
      obtain rfl := Option.some.inj (hv.symm.trans hw)
      exact ⟨_, hbelow, h⟩
  | _ => simp [child?] at hv

/-- The fields of a record that a new record holds, as eager allocation finds them. -/
theorem fillable_field {i : Nat} {f : Field} (hf : fields[i]? = some (f, v)) :
    S.Fillable above ((Node.record type fields state).child? (.field i)) v := by
  have hchild : (Node.record type fields state).child? (.field i) = some v := by
    rw [child?, hf, Option.map_some]
  rw [hchild]
  exact fillable_self S above v

/-- A record stays as it is inside its own type, or its fields are as allocation may find
them. -/
theorem Fillable.of_record (h : S.Fillable above start (.record type fields state)) :
    (∀ others, S.Filled above start (.record type others state)) ∨
      ∀ i f v, fields[i]? = some (f, v) →
        S.Fillable (.record type :: above)
          ((start.getD (S.zero (.record type))).child? (.field i)) v := by
  cases h with
  | filled h =>
      cases h with
      | leaf _ hrecord => exact absurd rfl (hrecord type fields state)
      | layer hv => simp [child?] at hv
      | record h => exact .inr fun i f v hf => .filled (h i f v hf)
      | held hu h => exact .inl fun others => .held hu h
  | layer hv => simp [child?] at hv
  | record => exact .inr fun i f v hf => fillable_field hf

/-! ## The way to a node -/

/-- The types that allocation has met on its way to a node of type `t` inside records of the
types `above`: records that are above, and layers around such records or around the node. -/
structure Trail (above ancestors : List Ty) (t : Ty) : Prop where
  /-- What is no layer is above. -/
  above_of_mem : ∀ p ∈ ancestors, p.core = p → p ∈ above
  /-- What is around the node is larger. -/
  layer : ∀ p ∈ ancestors, p.core ∈ ancestors ∨ p.core = t.core ∧ sizeOf t < sizeOf p

namespace Trail

theorem nil (above : List Ty) (t : Ty) : Trail above [] t :=
  ⟨nofun, nofun⟩

theorem core_mem (h : Trail above ancestors t) (ht : t ∈ ancestors) : t.core ∈ ancestors :=
  (h.layer t ht).resolve_right fun hlt => absurd hlt.2 (Nat.lt_irrefl _)

/-- What was met on the way and no layer is above. -/
theorem core_above (h : Trail above ancestors t) {p : Ty} (hp : p.core ∈ ancestors) :
    p.core ∈ above :=
  h.above_of_mem p.core hp p.core_core

/-- The way into a record, whatever the type of the field is. -/
theorem record (h : Trail above ancestors (.record type)) (t : Ty) :
    Trail (.record type :: above) (.record type :: ancestors) t := by
  refine ⟨fun p hp hcore => ?_, fun p hp => .inl ?_⟩
  · rcases List.mem_cons.1 hp with rfl | hp
    · exact List.mem_cons_self
    · exact List.mem_cons_of_mem _ (h.above_of_mem p hp hcore)
  · rcases List.mem_cons.1 hp with rfl | hp
    · exact List.mem_cons_self
    · rcases h.layer p hp with hmem | ⟨hcore, -⟩
      · exact List.mem_cons_of_mem _ hmem
      · exact hcore ▸ List.mem_cons_self

/-- The way into a layer. -/
theorem into {p : Ty} (h : Trail above ancestors p) (hcore : p.core = t.core)
    (hlt : sizeOf t < sizeOf p) : Trail above (p :: ancestors) t := by
  refine ⟨fun q hq hself => ?_, fun q hq => ?_⟩
  · rcases List.mem_cons.1 hq with rfl | hq
    · have hle := t.sizeOf_core_le
      rw [← hcore, hself] at hle
      exact absurd hlt (Nat.not_lt.2 hle)
    · exact h.above_of_mem q hq hself
  · rcases List.mem_cons.1 hq with rfl | hq
    · exact .inr ⟨hcore, hlt⟩
    · rcases h.layer q hq with hmem | ⟨hq, hsize⟩
      · exact .inl (List.mem_cons_of_mem _ hmem)
      · exact .inr ⟨hq.trans hcore, Nat.lt_trans hlt hsize⟩

theorem option (h : Trail above ancestors (.option t)) :
    Trail above (.option t :: ancestors) t :=
  h.into rfl (by simp)

theorem box (h : Trail above ancestors (.box t)) : Trail above (.box t :: ancestors) t :=
  h.into rfl (by simp)

end Trail

/-! ## Eager allocation -/

/-- The eager value of a record type that was not met before is a record with its fields filled.
-/
theorem eager_record {d : RecordDef σ} (h : .record type ∉ ancestors)
    (hd : S.find? type = some d) :
    S.eager ancestors (.record type) =
      .record d.name (S.allocateFields (.record type :: ancestors) d.fields) d.state := by
  rw [eager, dif_neg h]
  simp only
  split
  · rename_i e he
    obtain rfl := Option.some.inj (hd.symm.trans he)
    rfl
  · rename_i he
    exact absurd (hd.symm.trans he) (by simp)

/-- The new value below an empty slot of a type above. -/
theorem filled_zero (hfresh : t.freshTarget? = none) (hmem : t.core ∈ above) :
    S.Filled above none (S.zero t) := by
  induction t with
  | option t => exact .absent hmem
  | box t ih => exact .layer rfl (.inl rfl) (ih hfresh hmem)
  | _ => simp [Ty.freshTarget?] at hfresh

/-- A slot is refused a value of a type on the way. -/
theorem core_mem_of_refused
    (h : (t.freshTarget?.any fun u => u ∈ Ty.option t :: ancestors) = true) :
    t.core ∈ ancestors := by
  cases hu : t.freshTarget? with
  | none => simp [hu] at h
  | some u =>
      rw [hu, Option.any_some, decide_eq_true_eq] at h
      rw [← Ty.eq_core_of_freshTarget hu]
      exact (List.mem_cons.1 h).resolve_left (Ty.ne_of_freshTarget hu (by simp))

/-- What a slot is not refused is not on the way. -/
theorem not_mem_of_not_refused
    (h : ¬(t.freshTarget?.any fun u => u ∈ Ty.option t :: ancestors) = true) (u : Ty)
    (hu : t.freshTarget? = some u) : u ∉ Ty.option t :: ancestors := by
  simpa [hu] using h

/-- What is new in a box is not on the way into the box. -/
theorem not_mem_of_box (h : ∀ u, (Ty.box t).freshTarget? = some u → u ∉ ancestors) (u : Ty)
    (hu : t.freshTarget? = some u) : u ∉ Ty.box t :: ancestors := by
  rw [List.mem_cons, not_or]
  exact ⟨Ty.ne_of_freshTarget hu (by simp), h u hu⟩

mutual

/-- Eager allocation fills what can be filled. It is proved together with that of fields and of
new values, by the measure of the visit. -/
theorem filled_allocateChildren (ancestors : List Ty) (n : Node σ) {above : List Ty}
    {start : Option (Node σ)} (h : S.Fillable above start n) (htrail : Trail above ancestors n.ty) :
    S.Filled above start (S.allocateChildren ancestors n) := by
  rw [allocateChildren.eq_def]
  split
  -- The visit ends at a type that it has met, so a record stays as it is held from the start.
  · rename_i hmem
    exact h.filled_of_mem (htrail.core_above (htrail.core_mem hmem))
  · cases n with
    | record type fields state =>
        rcases h.of_record with hheld | hfields
        · exact hheld _
        · exact .record (filled_allocateFields (.record type :: ancestors) fields _ hfields
            htrail.record)
    | present v =>
        obtain ⟨below, hbelow, hv⟩ := h.of_layer rfl
        exact .layer rfl hbelow (filled_allocateChildren (.option v.ty :: ancestors) v hv htrail.option)
    | boxed v =>
        obtain ⟨below, hbelow, hv⟩ := h.of_layer rfl
        exact .layer rfl hbelow (filled_allocateChildren (.box v.ty :: ancestors) v hv htrail.box)
    | absent t =>
        simp only
        split
        · rename_i hrefused
          exact .absent (htrail.core_above (core_mem_of_refused hrefused))
        · rename_i hrefused
          exact .layer rfl (.inl rfl) (filled_eager (.option t :: ancestors) t htrail.option
            (not_mem_of_not_refused hrefused))
    | _ => exact .leaf Kind.noConfusion (by simp)
termination_by (S.unseen ancestors, sizeOf n)
decreasing_by
  all_goals
    subst_vars
    refine Prod.Lex.right' _ (S.unseen_cons_le _ _) ?_
    simp_wf
    try omega

/-- The fields of a record are filled one after the other. -/
theorem filled_allocateFields (ancestors : List Ty) (fields : List (Field × Node σ))
    {above : List Ty} (start : Nat → Option (Node σ))
    (h : ∀ i f v, fields[i]? = some (f, v) → S.Fillable above (start i) v)
    (htrail : ∀ t, Trail above ancestors t) :
    ∀ i f v, (S.allocateFields ancestors fields)[i]? = some (f, v) →
      S.Filled above (start i) v := by
  match fields with
  | [] =>
      intro i f v hv
      rw [allocateFields] at hv
      simp at hv
  | (g, w) :: rest =>
      have hfirst := filled_allocateChildren ancestors w (h 0 g w rfl) (htrail w.ty)
      have hrest := filled_allocateFields ancestors rest (fun i => start (i + 1))
        (fun i f v hv => h (i + 1) f v hv) htrail
      intro i f v hv
      rw [allocateFields] at hv
      cases i with
      | zero =>
          obtain ⟨-, rfl⟩ := Prod.mk.inj (Option.some.inj hv)
          exact hfirst
      | succ i => exact hrest i f v hv
termination_by (S.unseen ancestors, sizeOf fields)

/-- An eager value is filled, unless it is a fresh slot for a type on the way. -/
theorem filled_eager (ancestors : List Ty) (t : Ty) {above : List Ty}
    (htrail : Trail above ancestors t)
    (hfresh : ∀ u, t.freshTarget? = some u → u ∉ ancestors) :
    S.Filled above none (S.eager ancestors t) := by
  rw [eager]
  split
  -- What is new is not on the way, so only an empty slot can end the visit here.
  · rename_i hmem
    have hcore := htrail.core_mem hmem
    cases ht : t.freshTarget? with
    | none => exact filled_zero ht (htrail.core_above hcore)
    | some u =>
        obtain rfl := Ty.eq_core_of_freshTarget ht
        exact absurd hcore (hfresh _ ht)
  · rename_i hmem
    cases t with
    | option u =>
        simp only
        split
        · rename_i hrefused
          exact .absent (htrail.core_above (core_mem_of_refused hrefused))
        · rename_i hrefused
          exact .layer rfl (.inl rfl) (filled_eager (.option u :: ancestors) u htrail.option
            (not_mem_of_not_refused hrefused))
    | box u =>
        exact .layer rfl (.inl rfl) (filled_eager (.box u :: ancestors) u htrail.box
          (not_mem_of_box hfresh))
    | record name =>
        simp only
        split
        · rename_i d hd
          have := S.unseen_cons_lt hd hmem
          have hname := S.name_of_find? hd
          have hzero : S.zero (.record name) = .record d.name d.fields d.state := by
            rw [zero, hd]
            rfl
          rw [hname] at hzero ⊢
          refine .record (filled_allocateFields (.record name :: ancestors) d.fields _ ?_
            htrail.record)
          intro i f v hf
          rw [Option.getD_none, hzero]
          exact fillable_field hf
        · rename_i hd
          rw [zero, hd]
          exact .record (by simp)
    | _ => exact .leaf Kind.noConfusion (by simp [zero])
termination_by (S.unseen ancestors, sizeOf t)
decreasing_by
  · subst_vars
    exact Prod.Lex.right' _ (S.unseen_cons_le _ _) (by simp_wf; try omega)
  · subst_vars
    exact Prod.Lex.right' _ (S.unseen_cons_le _ _) (by simp_wf; try omega)
  · subst_vars
    exact Prod.Lex.left _ _ this

end

/-! ## Preparing and filling -/

/-- A new record is filled by allocating below it. -/
theorem filled_new_record (above : List Ty) (type : String) :
    S.Filled above none (S.allocateChildren [] (S.zero (.record type))) := by
  obtain ⟨fields, state, hzero⟩ := S.exists_zero_record type
  rw [hzero, allocateChildren.eq_def, if_neg List.not_mem_nil]
  refine .record (filled_allocateFields _ fields _ (fun i f v hf => ?_)
    (Trail.nil above (.record type)).record)
  rw [Option.getD_none, hzero]
  exact fillable_field hf

/-- The part below the layers, with the children of a record allocated. -/
def settled (S : Schema σ) (c : Node σ) : Node σ :=
  if c.kind == .record then S.allocateChildren [] c else c

theorem bare_settled {c : Node σ} (hc : c.Bare) : (S.settled c).Bare := by
  rw [settled]
  split
  · rw [allocateChildren.eq_def]
    cases c with
    | record type fields state => exact Kind.noConfusion
    | enclosing type => exact Kind.noConfusion
    | _ => simp_all [Bare, kind]
  · exact hc

/-- Preparing a node settles what is below its layers. -/
theorem prepare_eq (ho : o.allocateChildren = true) (n : Node σ) :
    S.prepare o n = (S.allocate n).withCore (S.settled (S.allocate n).innermost) := by
  rw [prepare, settled, ho]
  simp only [Bool.true_and]
  split
  · rfl
  · exact (withCore_innermost _).symm

/-- A new value is filled when it is settled. -/
theorem filled_settled_zero (t : Ty) : S.Filled above none (S.settled (S.zero t.core)) := by
  induction t with
  | option t ih => exact ih
  | box t ih => exact ih
  | record type =>
      obtain ⟨fields, state, hzero⟩ := S.exists_zero_record type
      have hnew := filled_new_record (S := S) above type
      rw [hzero] at hnew
      rw [Ty.core, hzero, settled, kind]
      · exact hnew
      · simp
      · simp
  | _ => exact .leaf Kind.noConfusion (by simp [settled, zero, Ty.core, kind])

/-- A filled node stays filled when it is settled. -/
theorem filled_settled {c : Node σ} (h : S.Filled above start c) :
    S.Filled above start (S.settled c) := by
  rw [settled]
  split
  · exact filled_allocateChildren [] c (.filled h) (Trail.nil above c.ty)
  · exact h

/-- New layers around a filled part are filled. -/
theorem filled_withCore_filled {c : Node σ} (t : Ty) (hc : S.Filled above none c) :
    S.Filled above none ((S.filled t).withCore c) := by
  induction t with
  | option t ih => exact .layer rfl (.inl rfl) ih
  | box t ih => exact .layer rfl (.inl rfl) ih
  | record type =>
      obtain ⟨fields, state, hzero⟩ := S.exists_zero_record type
      change S.Filled above none ((S.zero (.record type)).withCore c)
      rwa [hzero]
  | _ => exact hc

theorem filled_withCore_allocate {c : Node σ} (t : Ty) (hc : S.Filled above none c) :
    S.Filled above none ((S.allocate (S.zero t)).withCore c) := by
  induction t with
  | option t => exact .layer rfl (.inl rfl) (filled_withCore_filled t hc)
  | box t ih => exact .layer rfl (.inl rfl) ih
  | record type =>
      obtain ⟨fields, state, hzero⟩ := S.exists_zero_record type
      rwa [hzero]
  | _ => exact hc

/-- Allocating the layers of a node. -/
theorem exists_filled_allocate (h : S.Filled above start n) :
    ∃ below, S.Filled above below (S.settled (S.allocate n).innermost) ∧
      ∀ c, S.Filled above below c → S.Filled above start ((S.allocate n).withCore c) := by
  induction n using layers_induction generalizing start with
  | absent t =>
      refine ⟨none, ?_, fun c hc => ?_⟩
      · rw [allocate, innermost, innermost_filled]
        exact filled_settled_zero t
      · rw [allocate, withCore_present]
        exact .layer rfl (.inl rfl) (filled_withCore_filled t hc)
  | present v ih =>
      obtain ⟨middle, hmiddle, hv⟩ := h.of_layer rfl
      obtain ⟨below, hsettled, hcore⟩ := ih hv
      exact ⟨below, hsettled, fun c hc => .layer rfl hmiddle (hcore c hc)⟩
  | boxed v ih =>
      obtain ⟨middle, hmiddle, hv⟩ := h.of_layer rfl
      obtain ⟨below, hsettled, hcore⟩ := ih hv
      exact ⟨below, hsettled, fun c hc => .layer rfl hmiddle (hcore c hc)⟩
  | bare n hn =>
      rw [S.allocate_of_bare hn, innermost_of_bare hn]
      refine ⟨start, filled_settled h, fun c hc => ?_⟩
      rwa [withCore_of_bare hn]

/-- After preparing the node, a filled part stands below its layers, and the node is filled
with any filled part there. -/
def Prepared (S : Schema σ) (o : Options) (above : List Ty) (start : Option (Node σ))
    (n : Node σ) : Prop :=
  ∃ below, S.Filled above below (S.prepare o n).innermost ∧
    ∀ c, S.Filled above below c → S.Filled above start ((S.prepare o n).withCore c)

/-- A node is prepared when the part below its layers is filled once it is settled, and when any
filled part may stand there. -/
theorem prepared_of_settled (ho : o.allocateChildren = true) {below : Option (Node σ)}
    (hsettled : S.Filled above below (S.settled (S.allocate n).innermost))
    (hcore : ∀ c, S.Filled above below c → S.Filled above start ((S.allocate n).withCore c)) :
    S.Prepared o above start n := by
  have hbare := S.bare_settled (S.bare_innermost_allocate n)
  refine ⟨below, ?_, fun c hc => ?_⟩
  · rwa [prepare_eq ho, innermost_withCore _ hbare]
  · rw [prepare_eq ho, withCore_withCore _ hbare]
    exact hcore c hc

theorem prepared_of_filled (ho : o.allocateChildren = true) (h : S.Filled above start n) :
    S.Prepared o above start n := by
  obtain ⟨below, hsettled, hcore⟩ := exists_filled_allocate h
  exact prepared_of_settled ho hsettled hcore

/-- A new element is prepared. -/
theorem prepared_zero (ho : o.allocateChildren = true) (above : List Ty) (t : Ty) :
    S.Prepared o above none (S.zero t) := by
  have hsettled : S.Filled above none (S.settled (S.allocate (S.zero t)).innermost) := by
    rw [innermost_allocate_zero]
    exact filled_settled_zero t
  exact prepared_of_settled ho hsettled fun c hc => filled_withCore_allocate t hc

/-- What replaces the value of a field is filled in every place where the value is. -/
theorem Filled.replaceAt_field {i : Nat} {f : Field} {w : Node σ}
    (h : S.Filled above start (.record type fields state)) (hf : fields[i]? = some (f, v))
    (hw : ∀ above start, S.Filled above start v → S.Filled above start w) :
    S.Filled above start ((Node.record type fields state).replaceAt [.field i] w) := by
  have hreplace : (Node.record type fields state).replaceAt [.field i] w =
      .record type (fields.modify i fun f => (f.1, w)) state := by
    simp [replaceAt, child?, hf, putChild]
  rw [hreplace]
  cases h with
  | leaf _ hrecord => exact absurd rfl (hrecord type fields state)
  | layer hv => simp [child?] at hv
  | held hu h => exact .held hu h
  | record h =>
      refine .record fun j g x hx => ?_
      rw [List.getElem?_modify] at hx
      obtain ⟨old, hold, hx⟩ := Option.map_eq_some_iff.1 hx
      by_cases hij : i = j
      · subst hij
        rw [hf] at hold
        obtain rfl := Option.some.inj hold
        rw [if_pos rfl] at hx
        obtain ⟨-, rfl⟩ := Prod.mk.inj hx
        exact hw _ _ (h i f v hf)
      · rw [if_neg hij] at hx
        exact h j g x (hx ▸ hold)

mutual

/-- A literal written into a prepared node leaves the node filled. -/
theorem filled_fill (ho : o.allocateChildren = true) (n : Node σ) (literal : String)
    {above : List Ty} {start : Option (Node σ)} (h : S.Prepared o above start n) {m : Node σ}
    (hfill : S.fill o n literal = .ok m) : S.Filled above start m := by
  rw [fill] at hfill
  obtain ⟨c, hc, rfl⟩ := map_eq_ok.1 hfill
  obtain ⟨below, hinner, hcore⟩ := h
  refine hcore c ?_
  split at hc
  · split at hc
    · simp at hc
    · rename_i key hkey
      have := Key.weight_of_decode hkey
      exact filled_fillFields ho _ key.qualifiers hinner hc
  · obtain ⟨d, -, rfl⟩ := map_eq_ok.1 hc
    exact .leaf Kind.noConfusion (by simp)
  · obtain ⟨slot, -, rfl⟩ := map_eq_ok.1 hc
    exact .leaf Kind.noConfusion (by simp)
  · simp at hc
  · split at hc
    · exact Except.ok.inj hc ▸ hinner
    · simp at hc
  · split at hc
    · exact Except.ok.inj hc ▸ hinner
    · simp at hc
  all_goals simp at hc
termination_by (literal.length, 1)
decreasing_by exact Prod.Lex.right' _ this (by decide)

/-- Qualifiers leave a filled element filled. The recursion goes through structured values. -/
theorem filled_fillFields (ho : o.allocateChildren = true) (n : Node σ)
    (qualifiers : List (String × String)) {above : List Ty} {start : Option (Node σ)}
    (h : S.Filled above start n) {m : Node σ} (hfill : S.fillFields o n qualifiers = .ok m) :
    S.Filled above start m := by
  match qualifiers with
  | [] =>
      rw [fillFields] at hfill
      exact Except.ok.inj hfill ▸ h
  | (field, value) :: rest =>
      cases n with
      | record type fields state =>
          rw [fillFields] at hfill
          split at hfill
          · simp at hfill
          · rename_i place hplace
            split at hfill
            · simp at hfill
            · rename_i child hchild
              refine filled_fillFields ho _ rest ?_ hfill
              have hfilled : ∀ above start, S.Filled above start place.node →
                  S.Filled above start child :=
                fun above start hv =>
                  filled_fill ho place.node value (prepared_of_filled ho hv) hchild
              rcases fieldPlace_eq_ok hplace with
                ⟨i, f, v, -, hf, -, ⟨type, -, rfl⟩ | ⟨-, rfl⟩⟩
              · exact hfilled above start h
              · exact h.replaceAt_field hf hfilled
      | _ =>
          rw [fillFields] at hfill
          · exact Except.ok.inj hfill ▸ h
          · simp
termination_by (Key.weight qualifiers, 0)
decreasing_by
  all_goals
    simp only [Key.weight]
    refine Prod.Lex.left _ _ ?_
    omega

end

/-! ## The empty slots of an element -/

/-- What is inherited through a layer was held from the start. -/
theorem Inherited.holds {below : Option (Node σ)} (h : Inherited start below)
    (hstart : ∀ u, start = some u → S.Holds m a u) :
    ∀ u, below = some u → S.Holds m (a ++ [.pointee]) u := by
  intro u hu
  rcases h with rfl | rfl
  · exact absurd hu (by simp)
  · obtain ⟨w, hw, hu⟩ := Option.bind_eq_some_iff.1 hu
    exact (hstart w hw).step hu

/-- The empty slots below a filled node `n` at an address `a` of `m`. -/
theorem Filled.encloses_or_heldWithin (h : S.Filled above start n) (hn : m.get? a = some n)
    (habove : ∀ u ∈ above, m.Encloses a u) (hstart : ∀ u, start = some u → S.Holds m a u)
    {b : Address} (hb : b.Inline) (hslot : n.get? b = some (.absent t)) :
    m.Encloses (a ++ b) t.core ∨ ∃ c, c <+: a ++ b ∧ S.HeldWithin m c := by
  induction h generalizing a b with
  | @leaf above start n hbare hrecord =>
      cases b with
      | nil =>
          obtain rfl := Option.some.inj hslot
          exact absurd rfl hbare
      | cons s rest =>
          rcases hb.of_cons.1 with rfl | ⟨i, rfl⟩
          all_goals cases n <;> simp_all [Bare, kind, Node.get?, child?]
  | @absent above start u h =>
      cases b with
      | nil =>
          obtain rfl := Ty.option.inj (congrArg ty (Option.some.inj hslot))
          rw [List.append_nil]
          exact .inl (habove _ h)
      | cons s rest => simp [Node.get?, child?] at hslot
  | @layer above start below n v hv hbelow h ih =>
      cases b with
      | nil =>
          obtain rfl := Option.some.inj hslot
          simp [child?] at hv
      | cons s rest =>
          obtain ⟨rfl | ⟨i, rfl⟩, hrest⟩ := hb.of_cons
          · rw [Node.get?, hv, Option.bind_some] at hslot
            have hfound := ih ((get?_concat hn .pointee).trans hv)
              (fun u hu => (habove u hu).step _) (hbelow.holds hstart) hrest hslot
            rwa [List.append_assoc] at hfound
          · rw [Node.get?, child?_field_of_layer hv] at hslot
            simp at hslot
  | @record above start type fields state h ih =>
      cases b with
      | nil => simp [Node.get?] at hslot
      | cons s rest =>
          obtain ⟨rfl | ⟨i, rfl⟩, hrest⟩ := hb.of_cons
          · simp [Node.get?, child?] at hslot
          · obtain ⟨v, hv, hslot⟩ := Option.bind_eq_some_iff.1 hslot
            obtain ⟨⟨f, w⟩, hf, rfl⟩ := Option.map_eq_some_iff.1 hv
            have hbelow : ∀ u ∈ .record type :: above, m.Encloses (a ++ [.field i]) u := by
              intro u hu
              rcases List.mem_cons.1 hu with rfl | hu
              · exact encloses_of_get? hn _
              · exact (habove u hu).step _
            have hheld : ∀ u, (start.getD (S.zero (.record type))).child? (.field i) = some u →
                S.Holds m (a ++ [.field i]) u := by
              intro u hu
              cases start with
              | none => exact holds_of_record (by rw [hn, Option.map_some, ty]) hu
              | some x => exact (hstart x rfl).step hu
            have hfound := ih i f w hf ((get?_concat hn _).trans hv) hbelow hheld hrest hslot
            rwa [List.append_assoc] at hfound
  | @held above u type fields state hu h =>
      refine .inr ⟨a, List.prefix_append a b, u, type, hstart u rfl, hu, ?_, habove _ h⟩
      rw [hn, Option.map_some, ty]

/-- A slot that is left empty when an element is built with all children allocated has a type
above it that is the one of its value, or it lies in a record inside another of its type that
a new record further up holds from the start. -/
theorem absent_of_build (ho : o.allocateChildren = true) {elem : Ty} {key : String}
    {built : Node σ} (hbuilt : S.build o elem key = .ok built) (ha : a.Inline)
    (hslot : built.get? a = some (.absent t)) :
    built.Encloses a t.core ∨ ∃ c, c <+: a ∧ S.HeldWithin built c := by
  have hfilled := filled_fill ho (S.zero elem) key (prepared_zero ho [] elem) hbuilt
  exact hfilled.encloses_or_heldWithin (a := []) rfl nofun nofun ha hslot

/-- A field that events may write. -/
def openField (name : String) (h : name ≠ "" := by decide) : Field :=
  ⟨name, none, true, h, Field.none_ne_empty⟩

/-- An interface with its uplink and its description. -/
def interfaceOf (uplink description : Node Unit) : Node Unit :=
  .record "Interface" [(openField "uplink", uplink), (openField "description", description)] ()

/-- A new interface has neither. -/
def idle : Node Unit :=
  interfaceOf (.absent (.box (.record "Link"))) (.absent (.scalar .string))

/-- A described interface with a new link, which holds a new interface at its far end. -/
def linked (description : String) : Node Unit :=
  interfaceOf (.present (.boxed (.record "Link" [(openField "far", idle)] ())))
    (.present (.scalar (.text description)))

/-- An interface may have an uplink, which is a link, and a link holds the interface at its far
end. -/
def links : Schema Unit :=
  ((empty ()).declare "Interface" [(openField "uplink", .option (.box (.record "Link"))),
    (openField "description", .option (.scalar .string))] ()).declare
      "Link" [(openField "far", .record "Interface")] ()

theorem prepare_idle : links.prepare { allocateChildren := true } idle = linked "" := by
  have hlink : links.find? "Link" =
      some { name := "Link", fields := [(openField "far", idle)], state := () } := rfl
  simp [prepare, idle, linked, interfaceOf, allocate, innermost, kind, allocateChildren,
    allocateFields, eager, eager_record _ hlink, ty, Ty.freshTarget?, coreAddress, replaceAt,
    zero, Slot.zero]

theorem fillFields_linked :
    links.fillFields { allocateChildren := true } (linked "") [("description", "lan")] =
      .ok (linked "lan") := by
  have hplace : (linked "").fieldPlace { allocateChildren := true } true "Interface"
      [(openField "uplink", .present (.boxed (.record "Link" [(openField "far", idle)] ()))),
        (openField "description", .present (.scalar (.text "")))] "description" =
      .ok ⟨[.field 1], .present (.scalar (.text ""))⟩ := rfl
  have hfill : links.fill { allocateChildren := true } (.present (.scalar (.text ""))) "lan" =
      .ok (.present (.scalar (.text "lan"))) := by
    rw [fill]
    rfl
  rw [linked, interfaceOf] at hplace ⊢
  rw [fillFields, hplace]
  simp only [hfill]
  rw [fillFields]
  rfl

theorem build_linked :
    links.build { allocateChildren := true } (.record "Interface") "[description=lan]" =
      .ok (linked "lan") := by
  have hkey : Key.decode "[description=lan]" = .ok ⟨"", [("description", "lan")]⟩ :=
    eq_ok_of_toOption (by decide +kernel)
  have hzero : links.zero (.record "Interface") = idle := rfl
  have hcore : (linked "").innermost = linked "" := rfl
  rw [build, hzero, fill, prepare_idle, hcore, map_eq_ok]
  refine ⟨linked "lan", ?_, rfl⟩
  simp only [linked, interfaceOf]
  split
  · rename_i err herr
    exact absurd (hkey.symm.trans herr) (by simp)
  · rename_i key hdecode
    obtain rfl := Except.ok.inj (hkey.symm.trans hdecode)
    exact fillFields_linked

/-- The uplink at the far end of the uplink. -/
def farUplink : Address :=
  [.field 0, .pointee, .pointee, .field 0, .field 0]

/-- The description at the far end of the uplink. -/
def farDescription : Address :=
  [.field 0, .pointee, .pointee, .field 0, .field 1]

/-- The uplink at the far end stays empty: it lies inside the link at the near one. -/
theorem absent_of_build_linked :
    ∃ built, links.build { allocateChildren := true } (.record "Interface") "[description=lan]" =
        .ok built ∧
      built.get? farUplink = some (.absent (.box (.record "Link"))) ∧
      (built.Encloses farUplink (.record "Link") ∨
        ∃ c, c <+: farUplink ∧ links.HeldWithin built c) := by
  have hslot : (linked "lan").get? farUplink = some (.absent (.box (.record "Link"))) := rfl
  have hinline : farUplink.Inline := by simp [farUplink, Address.Inline]
  exact ⟨_, build_linked, hslot, absent_of_build rfl build_linked hinline hslot⟩

/-- The description at the far end stays empty although no text is around it. -/
theorem far_description_empty :
    ∃ built, links.build { allocateChildren := true } (.record "Interface") "[description=lan]" =
        .ok built ∧
      farDescription.Inline ∧ built.get? farDescription = some (.absent (.scalar .string)) ∧
      ¬ built.Encloses farDescription (.scalar .string) := by
  have hslot : (linked "lan").get? farDescription = some (.absent (.scalar .string)) := rfl
  have hinline : farDescription.Inline := by simp [farDescription, Address.Inline]
  exact ⟨_, build_linked, hinline, hslot, not_encloses_scalar hslot⟩

end Schema

end TreeSync
