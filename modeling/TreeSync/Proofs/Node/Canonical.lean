import TreeSync.Proofs.Node.Comparing
import TreeSync.Proofs.Node.KeyReading

/-!
# Equality and canonical forms

Structural equality is equality of canonical forms as long as every key finds an entry that is
spelled as it is.  That is so where all maps are keyed alike.  Only a text can find an entry with
another spelling, in a map that is not keyed by text, and the spelling of that entry does not
find the text: equality is symmetric up to such keys and no further.

Main definitions and results:

- `Schema.Uniform`: trees without fixed arrays whose maps are all keyed alike.
- `Schema.same_iff_form_eq`: on them equality is equality of canonical forms.
- `Node.Respells`: a key that finds an entry spelled otherwise.
- `Schema.same_comm_iff`: when equality is symmetric.
-/

namespace TreeSync

namespace Node

variable {σ : Type}

/-- Below corresponding places of two nodes a key of the first one finds an entry of the second
one whose key is spelled otherwise. -/
inductive Respells : Node σ → Node σ → Prop where
  | here {a b u v : Node σ} {s t : Step} (hu : a.below? s = some u) (ht : b.answer? s = some t)
      (hv : b.below? t = some v) (hne : t.spelled ≠ s.spelled) : Respells a b
  | deeper {a b u v : Node σ} {s t : Step} (hu : a.below? s = some u) (ht : b.answer? s = some t)
      (hv : b.below? t = some v) (h : Respells u v) : Respells a b

/-- Every map in the node has keys of one kind. -/
def KeyedBy (kind : KeyKind) (n : Node σ) : Prop :=
  ∀ a m other elem entries, n.get? a = some m → m.container = .map other elem entries →
    other = kind

variable {n u : Node σ} {s : Step} {kind : KeyKind}

/-- The maps below a node are keyed as those in it. -/
theorem KeyedBy.of_below (h : n.KeyedBy kind) (hu : n.below? s = some u) : u.KeyedBy kind :=
  fun a m other elem entries ha hm => h _ m other elem entries ((get?_below hu a).trans ha) hm

/-- No list of fixed length stands below a node without one. -/
theorem ArrayFree.of_below (h : n.ArrayFree) (hu : n.below? s = some u) : u.ArrayFree :=
  fun a elem items ha => h _ elem items ((get?_below hu a).trans ha)

end Node

namespace Schema

open Node

variable {σ : Type} {S : Schema σ} {loops : Prop} {a b u v : Node σ} {s t : Step}

/-- What stands below the layers of a well-typed node is well typed. -/
theorem Typed.of_below (ha : S.Typed loops a) (hu : a.below? s = some u) : S.Typed loops u :=
  ha.innermost.child hu

/-! ## Answers and spellings -/

/-- Only maps have entries. -/
theorem exists_map_of_entry {c : Node σ} {key : MapKey} (h : c.child? (.entry key) = some v) :
    ∃ kind elem entries, c.container = .map kind elem entries ∧ (key, v) ∈ entries := by
  have hmap : ∃ kind elem entries, c.container = .map kind elem entries := by
    cases c with
    | map order kind elem entries => exact ⟨kind, elem, entries, rfl⟩
    | dynamic d =>
        cases d with
        | map entries => exact ⟨_, _, _, rfl⟩
        | _ => simp [child?] at h
    | _ => simp [child?] at h
  obtain ⟨kind, elem, entries, hc⟩ := hmap
  rw [child?_entry hc] at h
  exact ⟨kind, elem, entries, hc, Entries.mem_of_get?_eq_some h⟩

/-- A step answers every step of the same spelling that leads to a child. -/
theorem answer_of_spelled (hb : S.Typed loops b) (hv : b.below? t = some v)
    (h : t.spelled = s.spelled) : b.answer? s = some t := by
  cases s with
  | entry key =>
      cases t with
      | entry k =>
          obtain ⟨kind, elem, entries, hmap, hmem⟩ := exists_map_of_entry hv
          have hliteral : k.literal = key.literal := MapKey.text.inj (Step.entry.inj h)
          have hread := KeyKind.readKey_literal (hb.admits hmap _ hmem)
          rw [hliteral] at hread
          simp [answer?, hmap, hread, Except.toOption]
      | _ => simp [Step.spelled] at h
  | _ =>
      cases t with
      | entry k => simp [Step.spelled] at h
      | _ => exact congrArg some h.symm

/-- Fields answer fields, elements elements and keys the keys that they are read as. -/
theorem answer_cases (h : b.answer? s = some t) :
    t = s ∨ ∃ key k kind elem entries, s = .entry key ∧ t = .entry k ∧
      b.innermost.container = .map kind elem entries ∧ kind.readKey key.literal = .ok k := by
  cases s with
  | entry key =>
      rw [answer?] at h
      split at h
      · rename_i kind elem entries hmap
        obtain ⟨k, hk, rfl⟩ := Option.map_eq_some_iff.1 h
        exact .inr ⟨key, k, kind, elem, entries, rfl, rfl, hmap, eq_ok_of_toOption hk⟩
      · simp at h
  | _ => exact .inl (Option.some.inj h).symm

/-- Texts are the keys of every spelling. -/
theorem spelled_of_text {elem : Ty} {entries : List (MapKey × Node σ)}
    (hb : b.innermost.container = .map .string elem entries) (h : b.answer? s = some t) :
    t.spelled = s.spelled := by
  rcases answer_cases h with rfl | ⟨key, k, kind, elem, entries, rfl, rfl, hmap, hread⟩
  · rfl
  · obtain ⟨rfl, -, -⟩ := Container.map.inj (hb.symm.trans hmap)
    obtain rfl := Except.ok.inj hread
    rfl

/-- Keys that are no text find entries of their own spelling only. -/
theorem spelled_of_not_text (ha : S.Typed loops a) (hu : a.below? s = some u)
    (hkind : ∀ elem entries, a.innermost.container ≠ .map .string elem entries)
    (h : b.answer? s = some t) : t.spelled = s.spelled := by
  rcases answer_cases h with rfl | ⟨key, k, kind, elem, entries, rfl, rfl, -, hread⟩
  · rfl
  · obtain ⟨own, value, others, hmap, hmem⟩ := exists_map_of_entry hu
    have hown : own ≠ .string := by
      rintro rfl
      exact hkind _ _ hmap
    have hliteral := KeyKind.literal_of_readKey (ha.admits hmap _ hmem) hown hread
    rw [Step.spelled, Step.spelled, hliteral]

/-- Of two nodes one is answered by the other without any change of spelling. -/
theorem spelled_answer (ha : S.Typed loops a) :
    (∀ s t u, a.below? s = some u → b.answer? s = some t → t.spelled = s.spelled) ∨
      ∀ s t v, b.below? s = some v → a.answer? s = some t → t.spelled = s.spelled := by
  by_cases htext : ∃ elem entries, a.innermost.container = .map .string elem entries
  · obtain ⟨elem, entries, hmap⟩ := htext
    exact .inr fun s t v _ h => spelled_of_text hmap h
  · exact .inl fun s t u hu h =>
      spelled_of_not_text ha hu (fun elem entries hmap => htext ⟨elem, entries, hmap⟩) h

/-! ## Equal nodes -/

/-- Where nothing is respelled, a key is answered by its own literal, and nothing is respelled
further down. -/
theorem respells_of_answer (hu : a.below? s = some u) (ht : b.answer? s = some t)
    (hv : b.below? t = some v) (h : ¬ Respells a b) : t.spelled = s.spelled ∧ ¬ Respells u v :=
  ⟨by_contra fun hne => h (.here hu ht hv hne), fun hdeep => h (.deeper hu ht hv hdeep)⟩

/-- Equal nodes have one form unless a key is respelled. -/
theorem form_eq_of_same (ha : S.Typed loops a) (hb : S.Typed loops b) (h : a.same b = true)
    (hspell : ¬ Respells a b) : a.form = b.form := by
  induction a using content_induction generalizing b with
  | step a ih =>
      obtain ⟨hhead, -, hanswered⟩ := (same_iff ha hb).1 h
      refine (form_eq_iff ha hb).2 ⟨hhead, fun s u hu => ?_⟩
      obtain ⟨t, v, ht, hv, huv⟩ := hanswered s u hu
      obtain ⟨hst, hno⟩ := respells_of_answer hu ht hv hspell
      exact ⟨t, v, hst, hv, ih s u hu (ha.of_below hu) (hb.of_below hv) huv hno⟩

/-- Keys of nodes with one form are spelled alike. -/
theorem not_respells_of_form (ha : S.Typed loops a) (hb : S.Typed loops b)
    (h : a.form = b.form) : ¬ Respells a b := by
  intro hspell
  induction hspell with
  | @here a b u v s t hu ht hv hne =>
      obtain ⟨t', v', hst, hv', -⟩ := ((form_eq_iff ha hb).1 h).2 s u hu
      obtain rfl := Option.some.inj (ht.symm.trans (answer_of_spelled hb hv' hst))
      exact hne hst
  | @deeper a b u v s t hu ht hv _ ih =>
      obtain ⟨t', v', hst, hv', huv⟩ := ((form_eq_iff ha hb).1 h).2 s u hu
      obtain rfl := Option.some.inj (ht.symm.trans (answer_of_spelled hb hv' hst))
      obtain rfl := Option.some.inj (hv.symm.trans hv')
      exact ih (ha.of_below hu) (hb.of_below hv) huv

/-- With one form equality in one direction is equality in the other one. -/
theorem same_symm_of_form (ha : S.Typed loops a) (hb : S.Typed loops b) (hform : a.form = b.form)
    (h : a.same b = true) : b.same a = true := by
  induction a using content_induction generalizing b with
  | step a ih =>
      obtain ⟨hhead, hlike, hanswered⟩ := (same_iff ha hb).1 h
      refine (same_iff hb ha).2 ⟨hhead.symm, hhead ▸ hlike, fun s v hv => ?_⟩
      obtain ⟨t, u, hts, hu, hvu⟩ := ((form_eq_iff hb ha).1 hform.symm).2 s v hv
      obtain ⟨s', v', hs', hv', huv⟩ := hanswered t u hu
      obtain rfl := Option.some.inj (hs'.symm.trans (answer_of_spelled hb hv hts.symm))
      obtain rfl := Option.some.inj (hv'.symm.trans hv)
      exact ⟨t, u, answer_of_spelled ha hu hts, hu,
        ih t u hu (ha.of_below hu) (hb.of_below hv) hvu.symm huv⟩

/-- Nodes that equal each other have equal children at the same literals. -/
theorem aligned_of_same (ha : S.Typed loops a) (hb : S.Typed loops b) (h : a.same b = true)
    (h' : b.same a = true)
    (hspell : ∀ s t u, a.below? s = some u → b.answer? s = some t → t.spelled = s.spelled) :
    Aligned (fun u v => u.same v = true ∧ v.same u = true) a b := by
  intro s u hu
  obtain ⟨t, v, ht, hv, huv⟩ := ((same_iff ha hb).1 h).2.2 s u hu
  have hst := hspell s t u hu ht
  obtain ⟨s', u', hs', hu', hvu⟩ := ((same_iff hb ha).1 h').2.2 t v hv
  obtain rfl := Option.some.inj (hs'.symm.trans (answer_of_spelled ha hu hst.symm))
  obtain rfl := Option.some.inj (hu'.symm.trans hu)
  exact ⟨t, v, hst, hv, huv, hvu⟩

/-- Nodes that equal each other have one form. -/
theorem form_eq_of_same_same (ha : S.Typed loops a) (hb : S.Typed loops b) (h : a.same b = true)
    (h' : b.same a = true) : a.form = b.form := by
  induction a using content_induction generalizing b with
  | step a ih =>
      have hhead := ((same_iff ha hb).1 h).1
      rcases spelled_answer ha with hspell | hspell
      · refine (form_eq_iff ha hb).2 ⟨hhead, fun s u hu => ?_⟩
        obtain ⟨t, v, hst, hv, huv, hvu⟩ := aligned_of_same ha hb h h' hspell s u hu
        exact ⟨t, v, hst, hv, ih s u hu (ha.of_below hu) (hb.of_below hv) huv hvu⟩
      · refine ((form_eq_iff hb ha).2 ⟨hhead.symm, fun s v hv => ?_⟩).symm
        obtain ⟨t, u, hst, hu, hvu, huv⟩ := aligned_of_same hb ha h' h hspell s v hv
        exact ⟨t, u, hst, hu, (ih t u hu (ha.of_below hu) (hb.of_below hv) huv hvu).symm⟩

/-! ## Nodes whose maps are keyed alike -/

/-- A tree without fixed arrays whose maps have keys of one kind. -/
structure Uniform (S : Schema σ) (kind : KeyKind) (n : Node σ) : Prop where
  typed : S.Typed False n
  arrayFree : n.ArrayFree
  keyed : n.KeyedBy kind

variable {kind : KeyKind}

/-- What stands below a uniform node is uniform. -/
theorem Uniform.of_below (h : S.Uniform kind a) (hu : a.below? s = some u) : S.Uniform kind u :=
  ⟨h.typed.of_below hu, h.arrayFree.of_below hu, h.keyed.of_below hu⟩

/-- A tree is uniform if its children are and it is not itself a fixed array or a map with other
keys. -/
theorem uniform_of_below (typed : S.Typed False a) (hfixed : a.innermost.container ≠ .fixed)
    (hkeyed : ∀ other elem entries, a.innermost.container = .map other elem entries →
      other = kind)
    (h : ∀ s u, a.below? s = some u → S.Uniform kind u) : S.Uniform kind a where
  typed := typed
  arrayFree address elem items ha := by
    rcases get?_cases ha with hinner | ⟨s, u, rest, hu, hrest⟩
    · exact hfixed (by rw [← hinner]; rfl)
    · exact (h s u hu).arrayFree rest elem items hrest
  keyed address m other elem entries hm hc := by
    rcases get?_cases hm with hinner | ⟨s, u, rest, hu, hrest⟩
    · rw [innermost_of_bare (bare_of_container hc)] at hinner
      exact hkeyed other elem entries (hinner ▸ hc)
    · exact (h s u hu).keyed rest m other elem entries hrest hc

/-- A map of leaves is uniform. -/
theorem uniform_of_leaves {elem : Ty} {entries : List (MapKey × Node σ)}
    (typed : S.Typed False a) (hmap : a.innermost.container = .map kind elem entries)
    (hleaves : ∀ e ∈ entries, e.2.innermost.container = .leaf) : S.Uniform kind a := by
  refine uniform_of_below typed (by simp [hmap]) (by simp +contextual [hmap]) fun s u hu => ?_
  obtain ⟨key, rfl, hkey⟩ := (child?_of_map hmap).1 hu
  have hleaf := hleaves _ (Entries.mem_of_get?_eq_some hkey)
  refine uniform_of_below (typed.of_below hu) (by simp [hleaf]) (by simp [hleaf]) fun s v hv => ?_
  rw [below?_of_leaf (.inl hleaf)] at hv
  simp at hv

/-- The one kind of keys is that of every map. -/
theorem Uniform.keyed_innermost (h : S.Uniform kind a) {other : KeyKind} {elem : Ty}
    {entries : List (MapKey × Node σ)} (hc : a.innermost.container = .map other elem entries) :
    other = kind :=
  h.keyed _ _ other elem entries a.get?_coreAddress hc

/-- Keys of one kind are never respelled. -/
theorem Uniform.not_respells (ha : S.Uniform kind a) (hb : S.Uniform kind b) :
    ¬ Respells a b := by
  intro hspell
  induction hspell with
  | @here a b u v s t hu ht hv hne =>
      rcases answer_cases ht with rfl | ⟨key, k, own, elem, entries, rfl, rfl, hmap, hread⟩
      · exact hne rfl
      · obtain ⟨other, value, others, hother, hmem⟩ := exists_map_of_entry hu
        obtain rfl := ha.keyed_innermost hother
        obtain rfl := hb.keyed_innermost hmap
        rw [KeyKind.readKey_literal (ha.typed.admits hother _ hmem)] at hread
        obtain rfl := Except.ok.inj hread
        exact hne rfl
  | @deeper a b u v s t hu ht hv _ ih => exact ih (ha.of_below hu) (hb.of_below hv)

/-- A uniform node has a form that equals something. -/
theorem Uniform.head_ne (h : S.Uniform kind a) : a.head ≠ .leaf .unlike := by
  have harray := h.arrayFree a.coreAddress
  have htree := h.typed.innermost.isEnclosing_eq_false
  rw [get?_coreAddress] at harray
  rw [head]
  generalize hc : a.innermost = c at harray htree
  cases c with
  | present v => exact absurd hc (innermost_ne_present a v)
  | boxed v => exact absurd hc (innermost_ne_boxed a v)
  | array elem items => exact absurd rfl (harray elem items)
  | enclosing type => simp [isEnclosing] at htree
  | dynamic d => cases d <;> simp [container, leafForm, Document.form]
  | _ => simp [container, leafForm]

/-- Uniform nodes with one form are equal. The induction is on the content of the first one. -/
theorem Uniform.same_of_form (ha : S.Uniform kind a) (hb : S.Uniform kind b)
    (h : a.form = b.form) : a.same b = true := by
  induction a using content_induction generalizing b with
  | step a ih =>
      obtain ⟨hhead, haligned⟩ := (form_eq_iff ha.typed hb.typed).1 h
      refine (same_iff ha.typed hb.typed).2 ⟨hhead, ha.head_ne, fun s u hu => ?_⟩
      obtain ⟨t, v, hst, hv, huv⟩ := haligned s u hu
      exact ⟨t, v, answer_of_spelled hb.typed hv hst, hv,
        ih s u hu (ha.of_below hu) (hb.of_below hv) huv⟩

/-- Where all maps are keyed alike and no fixed array stands, nodes are equal when their canonical
forms are, so equality is an equivalence. -/
theorem same_iff_form_eq (S : Schema σ) (kind : KeyKind) :
    (∀ a b : { n : Node σ // S.Uniform kind n }, a.1.same b.1 = true ↔ a.1.form = b.1.form) ∧
      Equivalence fun a b : { n : Node σ // S.Uniform kind n } => a.1.same b.1 = true := by
  have hiff (a b : { n : Node σ // S.Uniform kind n }) :
      a.1.same b.1 = true ↔ a.1.form = b.1.form :=
    ⟨fun h => form_eq_of_same a.2.typed b.2.typed h (a.2.not_respells b.2),
      a.2.same_of_form b.2⟩
  refine ⟨hiff, fun a => ?_, fun h => ?_, fun h h' => ?_⟩
  · exact (hiff a a).2 rfl
  · exact (hiff _ _).2 ((hiff _ _).1 h).symm
  · exact (hiff _ _).2 (((hiff _ _).1 h).trans ((hiff _ _).1 h'))

/-- Services by their ports. -/
def services : Node Unit :=
  .map .sorted (.int .u16) (.scalar .string)
    [(.int 80, .scalar (.text "http")), (.int 443, .scalar (.text "https"))]

/-- The same services as documents behind a layer, in the order of their literals. -/
def sharedServices : Node Unit :=
  .present (.map .hashed (.int .u16) .dynamic
    [(.int 443, .dynamic (.text "https")), (.int 80, .dynamic (.text "http"))])

theorem forall_mem_pair {α : Type} {p : α → Prop} {x y : α} (hx : p x) (hy : p y) :
    ∀ e ∈ [x, y], p e :=
  List.forall_mem_cons.2 ⟨hx, List.forall_mem_singleton.2 hy⟩

theorem uniform_services : (empty ()).Uniform (.int .u16) services := by
  refine uniform_of_leaves (.map (List.pairwise_pair.2 (by decide)) ?_ ?_ ?_) rfl
    (forall_mem_pair rfl rfl)
  · exact forall_mem_pair (show IntKind.u16.Contains 80 by decide)
      (show IntKind.u16.Contains 443 by decide)
  · exact forall_mem_pair rfl rfl
  · exact forall_mem_pair (.scalar _) (.scalar _)

theorem uniform_sharedServices : (empty ()).Uniform (.int .u16) sharedServices := by
  refine uniform_of_leaves (.present (.map (List.pairwise_pair.2 (by decide)) ?_ ?_ ?_)) rfl
    (forall_mem_pair rfl rfl)
  · exact forall_mem_pair (show IntKind.u16.Contains 443 by decide)
      (show IntKind.u16.Contains 80 by decide)
  · exact forall_mem_pair rfl rfl
  · exact forall_mem_pair (.dynamic (.leaf rfl)) (.dynamic (.leaf rfl))

theorem same_iff_form_eq_services :
    services.form = sharedServices.form ∧ services.same sharedServices = true := by
  have hform : services.form = sharedServices.form := by rfl
  have hiff := (same_iff_form_eq (empty ()) (.int .u16)).1 ⟨services, uniform_services⟩
    ⟨sharedServices, uniform_sharedServices⟩
  exact ⟨hform, hiff.2 hform⟩

/-! ## Symmetry -/

/-- Equality of two nodes is symmetric just when neither equals the other by way of a key that is
respelled. -/
theorem same_comm_iff (ha : S.Typed loops a) (hb : S.Typed loops b) :
    a.same b = b.same a ↔
      (a.same b = true → ¬ Respells a b) ∧ (b.same a = true → ¬ Respells b a) := by
  constructor
  · intro hcomm
    refine ⟨fun h => ?_, fun h => ?_⟩
    · exact not_respells_of_form ha hb (form_eq_of_same_same ha hb h (hcomm ▸ h))
    · exact not_respells_of_form hb ha (form_eq_of_same_same hb ha h (hcomm.symm ▸ h))
  · rintro ⟨hab, hba⟩
    refine Bool.eq_iff_iff.2 ⟨fun h => ?_, fun h => ?_⟩
    · exact same_symm_of_form ha hb (form_eq_of_same ha hb h (hab h)) h
    · exact same_symm_of_form hb ha (form_eq_of_same hb ha h (hba h)) h

/-- One service by its port. -/
def service : Node Unit :=
  .map .sorted (.int .u16) (.scalar .string) [(.int 80, .scalar (.text "http"))]

/-- The service in a document, by a spelling of its port. -/
def servicesBy (port : String) : Node Unit :=
  .dynamic (.map [(port, .text "http")])

theorem typed_service : (empty ()).Typed False service :=
  .map (List.pairwise_singleton _ _)
    (List.forall_mem_singleton.2 (show IntKind.u16.Contains 80 by decide))
    (List.forall_mem_singleton.2 rfl) (List.forall_mem_singleton.2 (.scalar _))

theorem typed_servicesBy (port : String) : (empty ()).Typed False (servicesBy port) :=
  .dynamic (.map (List.pairwise_singleton _ _) (List.forall_mem_singleton.2 (.leaf rfl)))

theorem same_comm_iff_service :
    service.same (servicesBy "80") = (servicesBy "80").same service ∧
      ¬ Respells service (servicesBy "80") ∧ ¬ Respells (servicesBy "80") service := by
  have hcomm : service.same (servicesBy "80") = (servicesBy "80").same service := by decide +kernel
  have hspell := (same_comm_iff typed_service (typed_servicesBy "80")).1 hcomm
  exact ⟨hcomm, hspell.1 (by decide +kernel), hspell.2 (by decide +kernel)⟩

/-- The text `080` finds the port 80, whose literal does not find the text. -/
theorem padded_port_one_way :
    (empty ()).Typed False service ∧ (empty ()).Typed False (servicesBy "080") ∧
      service.same (servicesBy "080") = false ∧ (servicesBy "080").same service = true ∧
      Respells (servicesBy "080") service :=
  ⟨typed_service, typed_servicesBy "080", by decide +kernel, by decide +kernel,
    .here (s := .entry (.text "080")) (t := .entry (.int 80)) rfl (by decide +kernel) rfl
      (by decide +kernel)⟩

end Schema

end TreeSync
