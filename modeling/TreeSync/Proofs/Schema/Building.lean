import TreeSync.Proofs.Navigate.Places
import TreeSync.Proofs.Node.Typed

/-!
# New values are well typed

A new node of a type has that type and is well typed, as long as the values of
new records are.  So are nodes after their layers were filled, and list elements
built from keys.

Main results:

- `Schema.ty_zero`, `Schema.typed_zero`: new values.
- `Schema.keeps_allocate`: filling layers.
- `Schema.keeps_fill`, `Schema.typed_build`: what a key describes.
-/

namespace TreeSync

namespace Schema

variable {σ : Type} {S : Schema σ} {loops : Prop}

/-! ## New values -/

/-- New values have the type that they are for. -/
theorem ty_zero (t : Ty) : (S.zero t).ty = t := by
  induction t with
  | scalar k => cases k <;> rfl
  | box t ih => rw [zero, Node.ty, ih]
  | array t n ih =>
      rw [zero, Node.ty, List.length_replicate]
  | record name =>
      rw [zero]
      cases h : S.find? name with
      | none => rfl
      | some d => exact congrArg Ty.record (S.name_of_find? h)
  | _ => rfl

theorem mem_of_find? {name : String} {d : RecordDef σ} (h : S.find? name = some d) :
    d ∈ S.records :=
  List.mem_of_find?_eq_some h

/-- The signature of a declared type is read off the fields of a new record. -/
theorem signature_of_find? {name : String} {d : RecordDef σ} (h : S.find? name = some d) :
    S.signature name = d.fields.map fun f => (f.1, f.2.ty) := by
  rw [signature, h]

/-- New values are well typed if the defaults of all declarations are. -/
theorem typed_zero (hS : S.Sound loops) (t : Ty) : S.Typed loops (S.zero t) := by
  induction t with
  | scalar k => exact .scalar _
  | option t => exact .absent t
  | box t ih => exact .boxed ih
  | list t => exact .list (fun v hv => by simp at hv) fun v hv => by simp at hv
  | map order key t =>
      exact .map List.Pairwise.nil (fun e he => by simp at he) (fun e he => by simp at he)
        fun e he => by simp at he
  | array t n ih =>
      refine .array (fun v hv => ?_) fun v hv => ?_
      · rw [List.eq_of_mem_replicate hv, ty_zero]
      · rw [List.eq_of_mem_replicate hv]
        exact ih
  | dynamic => exact .dynamic (.leaf rfl)
  | record name =>
      rw [zero]
      cases h : S.find? name with
      | none =>
          refine .record ?_ (fun f hf => by simp at hf) fun f hf => by simp at hf
          rw [signature, h]
          rfl
      | some d =>
          have hd := hS d (mem_of_find? h)
          refine .record ?_ (fun f hf => (hd f hf).2) fun f hf => (hd f hf).1
          rw [S.name_of_find? h, signature_of_find? h]

/-- No new value is the record around it. -/
theorem isEnclosing_zero (S : Schema σ) (t : Ty) : (S.zero t).isEnclosing = false := by
  cases t with
  | record name =>
      rw [zero]
      cases S.find? name with
      | none => rfl
      | some d => rfl
  | _ => rfl

/-- New values with filled layers have the type that they are for. -/
theorem ty_filled (t : Ty) : (S.filled t).ty = t := by
  induction t with
  | option t ih => rw [filled, Node.ty, ih]
  | box t ih => rw [filled, Node.ty, ih]
  | _ => exact ty_zero _

/-- New values with filled layers are well typed. -/
theorem typed_filled (hS : S.Sound loops) (t : Ty) : S.Typed loops (S.filled t) := by
  induction t with
  | option t ih => exact .present ih
  | box t ih => exact .boxed ih
  | _ => exact typed_zero hS _

/-- Filling the layers keeps a node. -/
theorem keeps_allocate (hS : S.Sound loops) (n : Node σ) : S.Keeps loops n (S.allocate n) := by
  induction n using Node.layers_induction with
  | absent t =>
      exact .of_typed (congrArg Ty.option (ty_filled t)) (.present (typed_filled hS t)) rfl
  | present v ih => exact ih.present
  | boxed v ih => exact ih.boxed
  | bare n hn =>
      rw [S.allocate_of_bare hn]
      exact .refl n

/-- Resetting keeps the type of a node. -/
theorem keeps_reset (hS : S.Sound loops) (n : Node σ) : S.Keeps loops n (S.reset n) :=
  .of_typed (ty_zero n.ty) (typed_zero hS n.ty) (S.isEnclosing_zero n.ty)

/-! ## Eager values -/

mutual

/-- Eager allocation below a node keeps the node well typed. It is proved together with that of
fields and of new values, by the measure of the visit. -/
theorem keeps_allocateChildren (hS : S.Sound loops) (ancestors : List Ty) (n : Node σ) :
    S.Keeps loops n (S.allocateChildren ancestors n) := by
  rw [allocateChildren.eq_def]
  split
  · exact .refl n
  · cases n with
    | record type fields state =>
        rcases keeps_allocateFields hS (.record type :: ancestors) fields with
          ⟨htypes, hwithin, hall⟩
        refine ⟨rfl, fun hn => ?_, id⟩
        cases hn with
        | record types within h => exact .record (htypes.trans types) (hwithin _ within) (hall h)
    | present v => exact (keeps_allocateChildren hS (.option v.ty :: ancestors) v).present
    | boxed v => exact (keeps_allocateChildren hS (.box v.ty :: ancestors) v).boxed
    | absent t =>
        simp only
        split
        · exact .refl _
        · rcases keeps_eager hS (.option t :: ancestors) t with ⟨hty, htyped⟩
          exact .of_typed (congrArg Ty.option hty) (.present htyped) rfl
    | _ => exact .refl _
termination_by (S.unseen ancestors, sizeOf n)
decreasing_by
  all_goals
    refine Prod.Lex.right' _ (S.unseen_cons_le _ _) ?_
    simp_wf
    try omega

theorem keeps_allocateFields (hS : S.Sound loops) (ancestors : List Ty)
    (fields : List (Field × Node σ)) :
    (S.allocateFields ancestors fields).map (fun f => (f.1, f.2.ty)) =
        fields.map (fun f => (f.1, f.2.ty)) ∧
      (∀ t, (∀ f ∈ fields, f.2.isEnclosing = true → f.2.ty = t) →
        ∀ f ∈ S.allocateFields ancestors fields, f.2.isEnclosing = true → f.2.ty = t) ∧
      ((∀ f ∈ fields, S.Typed loops f.2) →
        ∀ f ∈ S.allocateFields ancestors fields, S.Typed loops f.2) := by
  match fields with
  | [] =>
      rw [allocateFields]
      exact ⟨rfl, fun t h => h, fun h => h⟩
  | (f, v) :: rest =>
      have hv := keeps_allocateChildren hS ancestors v
      rcases keeps_allocateFields hS ancestors rest with ⟨htypes, hwithin, hall⟩
      rw [allocateFields]
      refine ⟨?_, fun t h g hg => ?_, fun h g hg => ?_⟩
      · rw [List.map_cons, List.map_cons, htypes, hv.ty_eq]
      · rcases List.mem_cons.1 hg with rfl | hg
        · exact fun hg => hv.ty_eq.trans (h (f, v) List.mem_cons_self (hv.enclosing hg))
        · exact hwithin t (fun g hg => h g (List.mem_cons_of_mem _ hg)) g hg
      · rcases List.mem_cons.1 hg with rfl | hg
        · exact hv.typed (h (f, v) List.mem_cons_self)
        · exact hall (fun g hg => h g (List.mem_cons_of_mem _ hg)) g hg
termination_by (S.unseen ancestors, sizeOf fields)

/-- Eager values are well typed. -/
theorem keeps_eager (hS : S.Sound loops) (ancestors : List Ty) (t : Ty) :
    (S.eager ancestors t).ty = t ∧ S.Typed loops (S.eager ancestors t) := by
  rw [eager]
  split
  · exact ⟨ty_zero t, typed_zero hS t⟩
  · rename_i h
    cases t with
    | option u =>
        simp only
        split
        · exact ⟨rfl, .absent u⟩
        · rcases keeps_eager hS (.option u :: ancestors) u with ⟨hty, htyped⟩
          exact ⟨by rw [Node.ty, hty], .present htyped⟩
    | box u =>
        rcases keeps_eager hS (.box u :: ancestors) u with ⟨hty, htyped⟩
        exact ⟨by rw [Node.ty, hty], .boxed htyped⟩
    | record name =>
        simp only
        split
        · rename_i d hd
          have := S.unseen_cons_lt hd h
          rcases keeps_allocateFields hS (.record name :: ancestors) d.fields with
            ⟨htypes, hwithin, hall⟩
          have hdef := hS d (mem_of_find? hd)
          refine ⟨congrArg Ty.record (S.name_of_find? hd), .record ?_
            (hwithin _ fun f hf => (hdef f hf).2) (hall fun f hf => (hdef f hf).1)⟩
          rw [htypes, S.name_of_find? hd, signature_of_find? hd]
        · exact ⟨ty_zero _, typed_zero hS _⟩
    | _ => exact ⟨ty_zero _, typed_zero hS _⟩
termination_by (S.unseen ancestors, sizeOf t)
decreasing_by
  · exact Prod.Lex.right' _ (S.unseen_cons_le _ _) (by simp_wf; try omega)
  · exact Prod.Lex.right' _ (S.unseen_cons_le _ _) (by simp_wf; try omega)
  · exact Prod.Lex.left _ _ this

end

/-! ## Elements built from keys -/

mutual

/-- A document built from a literal is ordered. -/
theorem ordered_build (literal : String) {d : Document} (h : Document.build literal = .ok d) :
    d.Ordered := by
  rw [Document.build] at h
  split at h
  · split at h
    · simp at h
    · rename_i key hkey
      have := Key.weight_of_decode hkey
      rcases map_eq_ok.1 h with ⟨entries, hentries, rfl⟩
      exact ordered_buildEntries key.qualifiers [] Document.ordered_emptyMap hentries
  · obtain rfl := Except.ok.inj h
    exact .leaf rfl
termination_by (literal.length, 1)
decreasing_by exact Prod.Lex.right' _ this (by decide)

/-- The members built from qualifiers are put one after the other into an ordered map. -/
theorem ordered_buildEntries (qualifiers : List (String × String))
    (done : List (String × Document)) (hdone : (Document.map done).Ordered)
    {entries : List (String × Document)}
    (h : Document.buildEntries done qualifiers = .ok entries) :
    (Document.map entries).Ordered := by
  match qualifiers with
  | [] =>
      rw [Document.buildEntries] at h
      exact Except.ok.inj h ▸ hdone
  | (field, value) :: rest =>
      rw [Document.buildEntries] at h
      split at h
      · simp at h
      · rename_i d hd
        exact ordered_buildEntries rest _ (hdone.put field (ordered_build value hd)) h
termination_by (Key.weight qualifiers, 0)
decreasing_by
  all_goals
    simp only [Key.weight]
    refine Prod.Lex.left _ _ ?_
    omega

end

/-- A dynamic element is the document that the key describes. -/
theorem build_dynamic (o : Options) (key : String) :
    S.build o .dynamic key = .dynamic <$> Document.build key := by
  have hprepare : S.prepare o (S.zero .dynamic) = .dynamic .null := by
    have hbare : (Node.dynamic .null : Node σ).Bare := Kind.noConfusion
    rw [prepare, zero, S.allocate_of_bare hbare]
    exact if_neg (by simp [Node.innermost, Node.kind])
  rw [build, fill, hprepare]
  cases Document.build key with
  | error e => rfl
  | ok d => rfl

/-- A plain key describes the text that it is. -/
theorem build_plain {o : Options} {key : String} (hplain : Key.isStructured key = false) :
    S.build o .dynamic key = .ok (.dynamic (.text key)) := by
  have hdocument : Document.build key = .ok (.text key) := by
    rw [Document.build, hplain]
    rfl
  rw [build_dynamic, hdocument]
  rfl

theorem keeps_prepare (hS : S.Sound loops) (o : Options) (n : Node σ) :
    S.Keeps loops n (S.prepare o n) := by
  have hallocate := keeps_allocate hS n
  rw [prepare]
  split
  · exact hallocate.trans (Keeps.withCore (keeps_allocateChildren hS [] _))
  · exact hallocate

/-- A converted scalar stays in its kind. -/
theorem kind_of_ofScalar {kind : ScalarKind} {s : Scalar} {slot : Slot}
    (h : Slot.ofScalar kind s = .ok slot) : slot.kind = kind := by
  cases kind with
  | string =>
      obtain rfl := Except.ok.inj h
      rfl
  | _ =>
      rcases map_eq_ok.1 h with ⟨v, -, rfl⟩
      rfl

/-- A slot built from a literal keeps its kind. -/
theorem kind_of_build {slot built : Slot} {literal : String}
    (h : slot.build literal = .ok built) : built.kind = slot.kind := by
  rw [Slot.build] at h
  simp only at h
  split at h
  · rcases bind_eq_ok.1 h with ⟨key, -, hkey⟩
    split at hkey
    all_goals
      split at hkey
      · rename_i s hs
        obtain rfl := Except.ok.inj hkey
        exact kind_of_ofScalar hs
      · simp at hkey
  · split at h
    · rename_i s hs
      obtain rfl := Except.ok.inj h
      exact kind_of_ofScalar hs
    · simp at h

mutual

/-- Filling a node with the content of a key keeps it. -/
theorem keeps_fill (hS : S.Sound loops) (o : Options) (n : Node σ) (literal : String)
    {m : Node σ} (h : S.fill o n literal = .ok m) : S.Keeps loops n m := by
  have hprepare := keeps_prepare hS o n
  rw [fill] at h
  rcases map_eq_ok.1 h with ⟨c, hc, rfl⟩
  refine hprepare.trans (Keeps.withCore ?_)
  split at hc
  · split at hc
    · simp at hc
    · rename_i key hkey
      have := Key.weight_of_decode hkey
      exact keeps_fillFields hS o _ key.qualifiers hc
  · rename_i d hd
    rcases map_eq_ok.1 hc with ⟨e, he, rfl⟩
    rw [hd]
    exact .of_typed rfl (.dynamic (ordered_build literal he)) rfl
  · rename_i slot hslot
    rcases map_eq_ok.1 hc with ⟨built, hbuilt, rfl⟩
    rw [hslot]
    exact .of_typed (congrArg Ty.scalar (kind_of_build hbuilt)) (.scalar built) rfl
  · simp at hc
  · split at hc
    · exact Except.ok.inj hc ▸ .refl _
    · simp at hc
  · split at hc
    · exact Except.ok.inj hc ▸ .refl _
    · simp at hc
  all_goals simp at hc
termination_by (literal.length, 1)
decreasing_by exact Prod.Lex.right' _ this (by decide)

/-- Writing the qualifiers of a key into an element keeps it well typed. -/
theorem keeps_fillFields (hS : S.Sound loops) (o : Options) (n : Node σ)
    (qualifiers : List (String × String)) {m : Node σ}
    (h : S.fillFields o n qualifiers = .ok m) : S.Keeps loops n m := by
  match qualifiers with
  | [] =>
      rw [fillFields] at h
      exact Except.ok.inj h ▸ .refl n
  | (field, value) :: rest =>
      cases n with
      | record type fields state =>
          rw [fillFields] at h
          split at h
          · simp at h
          · rename_i place hplace
            split at h
            · simp at h
            · rename_i child hchild
              have hget := Node.get?_fieldPlace rfl hplace
              have hkeeps := keeps_fill hS o place.node value hchild
              exact (hkeeps.replaceAt hget).trans (keeps_fillFields hS o _ rest h)
      | _ =>
          rw [fillFields] at h
          · exact Except.ok.inj h ▸ .refl _
          · simp
termination_by (Key.weight qualifiers, 0)
decreasing_by
  all_goals
    simp only [Key.weight]
    refine Prod.Lex.left _ _ ?_
    omega

end

/-- An element built from a key has the type asked for and is well typed. -/
theorem typed_build (hS : S.Sound loops) {o : Options} {elem : Ty} {key : String} {m : Node σ}
    (h : S.build o elem key = .ok m) : m.ty = elem ∧ S.Typed loops m := by
  have hkeeps := keeps_fill hS o (S.zero elem) key h
  exact ⟨hkeeps.ty_eq.trans (ty_zero elem), hkeeps.typed (typed_zero hS elem)⟩

theorem isEnclosing_build (hS : S.Sound loops) {o : Options} {elem : Ty} {key : String}
    {m : Node σ} (h : S.build o elem key = .ok m) : m.isEnclosing = false := by
  have hzero := S.isEnclosing_zero elem
  cases hm : m.isEnclosing with
  | false => rfl
  | true => exact absurd ((keeps_fill hS o (S.zero elem) key h).enclosing hm) (by simp [hzero])

end Schema

end TreeSync
