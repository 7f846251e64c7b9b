import TreeSync.Proofs.Node.Siblings
import TreeSync.Proofs.Schema.Matching

/-!
# Records built from keys

A key builds a record by assigning literals to the fields of a new one, in the order of its
qualifiers.  An assignment changes one field.  So a field that no qualifier names keeps its
default, and of several assignments to one field the last one decides what it holds.  A
qualifier of a field that is the record itself assigns whatever its literal assigns.

Main definitions and results:

- `Schema.assignments`: the fields that qualifiers name, with their literals.
- `Schema.Assigned`: a record after assignments.
- `Schema.assigned_of_fillFields`: the qualifiers of a key assign.
- `Schema.Refuses`, `Schema.Accepts`: qualifiers that no record takes, and that all do.
- `Schema.build_assigns`: what a built record holds, and whether one is built.
-/

namespace TreeSync

namespace Slot

variable {kind : ScalarKind} {s : Scalar}

/-- What a slot holds after a conversion is the converted scalar, unless it is rounded to single
precision. -/
theorem get_ofScalar (hkind : kind ≠ .f32) (s : Scalar) :
    get <$> ofScalar kind s = s.convert kind := by
  cases kind with
  | f32 => exact absurd rfl hkind
  | string => rfl
  | _ => exact Functor.map_map _ _ _

/-- A slot refuses what does not convert to its kind. -/
theorem ofScalar_eq_error_iff {err : ConversionError} :
    ofScalar kind s = .error err ↔ s.convert kind = .error err := by
  cases kind with
  | string => exact iff_of_false error_ne_ok.symm error_ne_ok.symm
  | _ => rw [ofScalar, Scalar.convert, map_eq_error, map_eq_error]

/-- A plain key is written as it is. -/
theorem build_eq_ok_iff {slot built : Slot} {literal : String}
    (hplain : Key.isStructured literal = false) :
    slot.build literal = .ok built ↔ slot.setLiteral literal = .ok built := by
  rw [build, hplain]
  simp only [Bool.false_eq_true, if_false]
  cases slot.setLiteral literal with
  | ok s => exact ⟨fun h => congrArg _ (Except.ok.inj h), fun h => congrArg _ (Except.ok.inj h)⟩
  | error err => exact iff_of_false error_ne_ok error_ne_ok

end Slot

namespace Schema

open Node

variable {σ : Type} {S : Schema σ} {o : Options} {loops : Prop} {c d m v w : Node σ}
  {type name literal key : String} {fields : List (Field × Node σ)} {i : Nat}
  {kind : ScalarKind} {qualifiers : List (String × String)} {as bs : List (Nat × String)}

/-! ## Assignments -/

variable (S) in
/-- In new records of a type the field stands for the record around it. -/
def isSelf (type : String) (i : Nat) : Bool :=
  ((S.zero (.record type)).child? (.field i)).any isEnclosing

theorem isSelf_of_tree (hS : S.Sound False) (type : String) (i : Nat) :
    S.isSelf type i = false := by
  rw [isSelf]
  cases hv : (S.zero (.record type)).child? (.field i) with
  | none => rfl
  | some v => exact ((typed_zero hS _).child hv).isEnclosing_eq_false

variable (S o) in
/-- The fields of a record type that qualifiers name, with their literals and in their order.
A field that is the record itself stands for what the literal names in turn. -/
def assignments (type : String) : List (String × String) → List (Nat × String)
  | [] => []
  | (name, literal) :: rest =>
      match S.fieldOf? o false type name with
      | .error _ => assignments type rest
      | .ok i =>
          if S.isSelf type i then
            match h : Key.decode literal with
            | .error _ => assignments type rest
            | .ok key =>
                have := Key.weight_of_decode h
                assignments type key.qualifiers ++ assignments type rest
          else (i, literal) :: assignments type rest
termination_by qualifiers => Key.weight qualifiers
decreasing_by
  all_goals
    simp only [Key.weight]
    omega

theorem assignments_field (hi : S.fieldOf? o false type name = .ok i)
    (hself : S.isSelf type i = false) :
    S.assignments o type ((name, literal) :: qualifiers) =
      (i, literal) :: S.assignments o type qualifiers := by
  rw [assignments]
  simp only [hi, hself, Bool.false_eq_true, if_false]

theorem assignments_self (hi : S.fieldOf? o false type name = .ok i)
    (hself : S.isSelf type i = true) {inner : Key} (hinner : Key.decode literal = .ok inner) :
    S.assignments o type ((name, literal) :: qualifiers) =
      S.assignments o type inner.qualifiers ++ S.assignments o type qualifiers := by
  rw [assignments]
  simp only [hi, hself, if_true]
  split
  · rename_i err herr
    simp [hinner] at herr
  · rename_i other hother
    obtain rfl := Except.ok.inj (hinner.symm.trans hother)
    rfl

/-- In a tree qualifiers assign to the fields that they name, and to nothing else. -/
theorem assignments_of_tree (hS : S.Sound False) (type : String)
    (qualifiers : List (String × String)) :
    S.assignments o type qualifiers =
      qualifiers.filterMap fun q => (S.fieldOf? o false type q.1).toOption.map (·, q.2) := by
  induction qualifiers with
  | nil => rw [assignments, List.filterMap_nil]
  | cons q rest ih =>
      obtain ⟨name, literal⟩ := q
      cases hi : S.fieldOf? o false type name with
      | error err =>
          rw [assignments, List.filterMap_cons]
          simp only [hi, ih, Except.toOption, Option.map_none]
      | ok i =>
          rw [assignments_field hi (isSelf_of_tree hS type i), List.filterMap_cons, ih, hi]
          rfl

variable (S o) in
/-- A record and the record after assignments to its fields. -/
inductive Assigned : Node σ → List (Nat × String) → Node σ → Prop
  | nil (c : Node σ) : Assigned c [] c
  | cons {c v w m : Node σ} {i : Nat} {literal : String} {rest : List (Nat × String)}
      (child : c.child? (.field i) = some v) (own : v.isEnclosing = false)
      (filled : S.fill o v literal = .ok w)
      (later : Assigned (c.putChild (.field i) w) rest m) : Assigned c ((i, literal) :: rest) m

namespace Assigned

theorem append (h : S.Assigned o c as d) (h' : S.Assigned o d bs m) :
    S.Assigned o c (as ++ bs) m := by
  induction h with
  | nil c => exact h'
  | cons child own filled _ ih => exact .cons child own filled (ih h')

theorem exists_between (h : S.Assigned o c (as ++ bs) m) :
    ∃ d, S.Assigned o c as d ∧ S.Assigned o d bs m := by
  induction as generalizing c with
  | nil => exact ⟨c, .nil c, h⟩
  | cons a as ih =>
      cases h with
      | cons child own filled later =>
          obtain ⟨d, hd, hm⟩ := ih later
          exact ⟨d, .cons child own filled hd, hm⟩

theorem keeps (hS : S.Sound loops) (h : S.Assigned o c as m) : S.Keeps loops c m := by
  induction h with
  | nil c => exact .refl c
  | cons child _ filled _ ih =>
      exact (Keeps.putChild child (keeps_fill hS o _ _ filled)).trans ih

/-- A field to which nothing is assigned stays as it is. -/
theorem child?_eq (h : S.Assigned o c as m) (hnone : ∀ a ∈ as, a.1 ≠ i) :
    m.child? (.field i) = c.child? (.field i) := by
  induction h with
  | nil c => rfl
  | cons child _ _ _ ih =>
      have hne := hnone _ List.mem_cons_self
      rw [ih fun a ha => hnone a (List.mem_cons_of_mem _ ha)]
      exact child?_putChild_of_ne child (fun h => hne (Step.field.inj h).symm) _

/-- The last assignment to a field decides what it holds. -/
theorem exists_filled (hS : S.Sound loops) (h : S.Assigned o c (as ++ (i, literal) :: bs) m)
    (hlast : ∀ b ∈ bs, b.1 ≠ i) :
    ∃ d v w, S.Keeps loops c d ∧ d.child? (.field i) = some v ∧ S.fill o v literal = .ok w ∧
      m.child? (.field i) = some w := by
  obtain ⟨d, hd, hm⟩ := h.exists_between
  cases hm with
  | @cons _ v w _ _ _ _ child own filled later =>
      have hput := child?_putChild child (keeps_fill hS o v literal filled).ty_eq
      exact ⟨d, v, w, hd.keeps hS, child, filled, (later.child?_eq hlast).trans hput⟩

end Assigned

/-! ## Qualifiers assign -/

theorem prepare_of_lazy (hlazy : o.allocateChildren = false) (n : Node σ) :
    S.prepare o n = S.allocate n := by
  rw [prepare, hlazy]
  rfl

/-- Filling one field, and then the others in what comes of it. -/
theorem fillFields_cons (hrecord : c.container = .record type fields) {place : Place σ}
    (hplace : c.fieldPlace o true type fields name = .ok place)
    (hfill : S.fill o place.node literal = .ok w) :
    S.fillFields o c ((name, literal) :: qualifiers) =
      S.fillFields o (c.replaceAt place.address w) qualifiers := by
  obtain ⟨state, rfl⟩ := eq_record_of_container hrecord
  rw [fillFields]
  simp only [hplace, hfill]

/-- Filling one field and then the others. -/
theorem exists_step_of_fillFields (hS : S.Sound loops) (hc : S.Typed loops c)
    (hrecord : c.container = .record type fields)
    (h : S.fillFields o c ((name, literal) :: qualifiers) = .ok m) :
    ∃ i v next, S.fieldOf? o true type name = .ok i ∧ c.child? (.field i) = some v ∧
      S.Keeps loops c next ∧ S.fillFields o next qualifiers = .ok m ∧
        if v.isEnclosing then S.fill o c literal = .ok next
        else ∃ w, S.fill o v literal = .ok w ∧ next = c.putChild (.field i) w := by
  obtain ⟨state, rfl⟩ := eq_record_of_container hrecord
  have hstep := fieldPlace_record hc hrecord o true name
  rw [fillFields] at h
  split at h
  · simp at h
  · rename_i place hplace
    split at h
    · simp at h
    · rename_i w hw
      have hkeeps := (keeps_fill hS o _ _ hw).replaceAt (Node.get?_fieldPlace rfl hplace)
      split at hstep
      · simp [hstep] at hplace
      · rename_i i hi
        obtain ⟨v, hv, hfound⟩ := hstep
        obtain rfl := Except.ok.inj (hplace.symm.trans hfound)
        refine ⟨i, v, _, hi, hv, hkeeps, h, ?_⟩
        split
        · rename_i hself
          simpa only [hself, if_true, replaceAt] using hw
        · rename_i hown
          simp only [hown, Bool.false_eq_true, if_false] at hw ⊢
          refine ⟨w, hw, ?_⟩
          rw [replaceAt, hv]
          rfl

/-- Filling a record is filling its fields. -/
theorem fill_record (hlazy : o.allocateChildren = false) {state : σ} :
    S.fill o (.record type fields state) literal = .ok m ↔
      ∃ inner, Key.decode literal = .ok inner ∧
        S.fillFields o (.record type fields state) inner.qualifiers = .ok m := by
  have hbare : (record type fields state : Node σ).Bare := Kind.noConfusion
  rw [fill, prepare_of_lazy hlazy, S.allocate_of_bare hbare, map_eq_ok]
  simp only [innermost]
  split
  · rename_i err herr
    simp [herr]
  · rename_i inner hinner
    rw [hinner]
    constructor
    · rintro ⟨c, hc, rfl⟩
      exact ⟨inner, rfl, hc⟩
    · rintro ⟨other, hother, hfilled⟩
      obtain rfl := Except.ok.inj hother
      exact ⟨m, hfilled, rfl⟩

/-- The fields that stand for the record are those that do so in new records. -/
def SelfFields (S : Schema σ) (type : String) (c : Node σ) : Prop :=
  ∀ i v, c.child? (.field i) = some v → v.isEnclosing = S.isSelf type i

theorem selfFields_zero (S : Schema σ) (type : String) :
    S.SelfFields type (S.zero (.record type)) := by
  intro i v hv
  rw [isSelf, hv]
  rfl

theorem SelfFields.putChild (h : S.SelfFields type c) (hv : c.child? (.field i) = some v)
    (hown : v.isEnclosing = false) (hkeeps : S.Keeps loops v w) :
    S.SelfFields type (c.putChild (.field i) w) := by
  intro j u hu
  by_cases hij : j = i
  · subst hij
    rw [child?_putChild hv hkeeps.ty_eq] at hu
    obtain rfl := Option.some.inj hu
    have hw : w.isEnclosing = false :=
      Bool.eq_false_iff.2 fun hw => Bool.noConfusion (hown.symm.trans (hkeeps.enclosing hw))
    rw [hw, ← h j v hv, hown]
  · rw [child?_putChild_of_ne hv fun hs => hij (Step.field.inj hs)] at hu
    exact h j u hu

theorem SelfFields.assigned (hS : S.Sound loops) (h : S.SelfFields type c)
    (hm : S.Assigned o c as m) : S.SelfFields type m := by
  induction hm with
  | nil c => exact h
  | cons child own filled _ ih => exact ih (h.putChild child own (keeps_fill hS o _ _ filled))

/-- Filling the fields that qualifiers name assigns their literals. -/
theorem assigned_of_fillFields (hS : S.Sound loops) (hlazy : o.allocateChildren = false)
    (hc : S.Typed loops c) (hrecord : c.container = .record type fields)
    (hself : S.SelfFields type c) (h : S.fillFields o c qualifiers = .ok m) :
    S.Assigned o c (S.assignments o type qualifiers) m := by
  -- By the weight of the qualifiers: the literal for a self field has qualifiers of its own.
  induction hweight : Key.weight qualifiers using Nat.strongRecOn
    generalizing c m fields qualifiers with
  | _ weight ih =>
      cases qualifiers with
      | nil =>
          rw [fillFields] at h
          rw [assignments]
          exact Except.ok.inj h ▸ .nil c
      | cons q rest =>
          obtain ⟨name, literal⟩ := q
          rw [Key.weight] at hweight
          obtain ⟨i, v, next, hi, hv, hkeeps, hrest, hnext⟩ :=
            exists_step_of_fillFields hS hc hrecord h
          obtain ⟨htyped, others, hothers⟩ := record_of_keeps hkeeps hc hrecord
          have hread := fieldOf_read hi
          have hless : Key.weight rest < weight := by omega
          cases hown : v.isEnclosing with
          | false =>
              simp only [hown, Bool.false_eq_true, if_false] at hnext
              obtain ⟨w, hw, rfl⟩ := hnext
              have hafter := hself.putChild hv hown (keeps_fill hS o v literal hw)
              rw [assignments_field hread ((hself i v hv).symm.trans hown)]
              exact .cons hv hown hw (ih _ hless htyped hothers hafter hrest rfl)
          | true =>
              -- The record is filled again as a whole before the key goes on.
              simp only [hown, if_true] at hnext
              obtain ⟨state, rfl⟩ := eq_record_of_container hrecord
              obtain ⟨inner, hinner, hfilled⟩ := (fill_record hlazy).1 hnext
              have hinside : Key.weight inner.qualifiers < weight := by
                have := Key.weight_of_decode hinner
                omega
              have hfirst := ih _ hinside hc hrecord hself hfilled rfl
              have hafter := hself.assigned hS hfirst
              rw [assignments_self hread ((hself i v hv).symm.trans hown) hinner]
              exact hfirst.append (ih _ hless htyped hothers hafter hrest rfl)

/-! ## Scalar fields -/

variable (S) in
/-- The field of a record type is a scalar of a kind, below any layers. -/
def ScalarField (type : String) (i : Nat) (kind : ScalarKind) : Prop :=
  ((S.signature type)[i]?).map (fun f => f.2.core) = some (.scalar kind)

theorem ScalarField.core_eq (h : S.ScalarField type i kind) (hc : S.Typed loops c)
    (hrecord : c.container = .record type fields) (hv : c.child? (.field i) = some v) :
    v.ty.core = .scalar kind := by
  have hty := congrArg (Option.map Ty.core) (ty_of_field hc hrecord hv)
  rw [Option.map_map] at hty
  exact Option.some.inj (hty.symm.trans h)

theorem isEnclosing_of_core (h : v.ty.core = .scalar kind) : v.isEnclosing = false := by
  cases v with
  | enclosing other => cases h
  | _ => rfl

/-- A plain key fills a scalar below its layers. -/
theorem fill_scalar (hv : v.ty.core = .scalar kind) (hplain : Key.isStructured literal = false) :
    S.fill o v literal = .ok w ↔
      ∃ slot, Slot.ofScalar kind (.text literal) = .ok slot ∧
        (S.allocate v).withCore (.scalar slot) = w := by
  obtain ⟨slot, hslot⟩ := eq_scalar_of_ty ((S.ty_innermost_allocate v).trans hv)
  have hkind : slot.kind = kind := by
    have hty := (S.ty_innermost_allocate v).trans hv
    rw [hslot] at hty
    exact Ty.scalar.inj hty
  have hprepare : S.prepare o v = S.allocate v := by
    rw [prepare, hslot]
    exact if_neg (by simp [Node.kind])
  rw [fill, hprepare, map_eq_ok]
  simp only [hslot, map_eq_ok, Slot.build_eq_ok_iff hplain, Slot.setLiteral, Slot.set, hkind]
  constructor
  · rintro ⟨_, ⟨filled, hfilled, rfl⟩, rfl⟩
    exact ⟨filled, hfilled, rfl⟩
  · rintro ⟨filled, hfilled, rfl⟩
    exact ⟨_, ⟨filled, hfilled, rfl⟩, rfl⟩

/-- A scalar that a plain key fills holds what the key reads as. -/
theorem scalar_of_fill (hv : v.ty.core = .scalar kind) (hkind : kind ≠ .f32)
    (hplain : Key.isStructured literal = false) (h : S.fill o v literal = .ok w) :
    ∃ s, w.scalar? = some s ∧ kind.read literal = .ok s := by
  obtain ⟨slot, hslot, rfl⟩ := (fill_scalar hv hplain).1 h
  have hbare : (scalar slot : Node σ).Bare := Kind.noConfusion
  have hcore := core_eq_ok_innermost (isAllocated_withCore (S.allocate v) hbare)
  rw [innermost_withCore _ hbare] at hcore
  refine ⟨slot.get, ?_, ?_⟩
  · rw [scalar?, core?, hcore]
    rfl
  · rw [ScalarKind.read, ← Slot.get_ofScalar hkind, hslot]
    rfl

/-! ## What is refused -/

variable (S o) in
/-- A qualifier that no record of a type takes. -/
inductive Refuses (type : String) : String × String → Prop
  /-- It names no field. -/
  | unknown {name literal : String} {err : NavError}
      (field : S.fieldOf? o false type name = .error err) : Refuses type (name, literal)
  /-- It names a field that must not be written. -/
  | readOnly {name literal : String} {i : Nat} {f : Field × Ty}
      (field : S.fieldOf? o false type name = .ok i) (declared : (S.signature type)[i]? = some f)
      (fixed : f.1.writable = false) : Refuses type (name, literal)
  /-- It names a scalar, and its plain literal is none of the kind. -/
  | unreadable {name literal : String} {i : Nat} {kind : ScalarKind} {err : ConversionError}
      (field : S.fieldOf? o false type name = .ok i) (scalar : S.ScalarField type i kind)
      (plain : Key.isStructured literal = false) (mismatch : kind.read literal = .error err) :
      Refuses type (name, literal)

variable (S o) in
/-- A qualifier that every record of a type takes: its plain literal is one of the kind of the
writable scalar that it names. -/
def Accepts (type : String) (q : String × String) : Prop :=
  ∃ i kind s, S.fieldOf? o true type q.1 = .ok i ∧ S.ScalarField type i kind ∧
    Key.isStructured q.2 = false ∧ kind.read q.2 = .ok s

theorem writable_of_fieldOf (h : S.fieldOf? o true type name = .ok i) {f : Field × Ty}
    (hf : (S.signature type)[i]? = some f) : f.1.writable = true := by
  rw [fieldOf?] at h
  split at h
  · simp at h
  · rename_i j hj
    split at h
    · simp at h
    · rename_i g hg
      split at h
      · simp at h
      · rename_i hwritable
        obtain rfl := Except.ok.inj h
        rw [List.getElem?_map, hf] at hg
        obtain rfl := Option.some.inj hg
        simpa using hwritable

/-- Where the fields of a record were filled, none of the qualifiers is refused. -/
theorem not_refuses_of_fillFields (hS : S.Sound loops) (hc : S.Typed loops c)
    (hrecord : c.container = .record type fields) (h : S.fillFields o c qualifiers = .ok m)
    {q : String × String} (hq : q ∈ qualifiers) : ¬ S.Refuses o type q := by
  induction qualifiers generalizing c fields with
  | nil => simp at hq
  | cons first rest ih =>
      obtain ⟨name, literal⟩ := first
      obtain ⟨i, v, next, hi, hv, hkeeps, hrest, hnext⟩ := exists_step_of_fillFields hS hc hrecord h
      obtain ⟨htyped, others, hothers⟩ := record_of_keeps hkeeps hc hrecord
      have hread := fieldOf_read hi
      rcases List.mem_cons.1 hq with rfl | hq
      · intro hrefuses
        cases hrefuses with
        | unknown hfield => simp [hread] at hfield
        | readOnly hfield hf hfixed =>
            obtain rfl := Except.ok.inj (hread.symm.trans hfield)
            simp [writable_of_fieldOf hi hf] at hfixed
        | unreadable hfield hscalar hplain hmismatch =>
            obtain rfl := Except.ok.inj (hread.symm.trans hfield)
            have hcore := hscalar.core_eq hc hrecord hv
            simp only [isEnclosing_of_core hcore, Bool.false_eq_true, if_false] at hnext
            obtain ⟨w, hw, -⟩ := hnext
            obtain ⟨slot, hslot, -⟩ := (fill_scalar hcore hplain).1 hw
            simp [Slot.ofScalar_eq_error_iff.2 hmismatch] at hslot
      · exact ih htyped hothers hrest hq

/-- Fields are filled from qualifiers that are all taken. -/
theorem exists_fillFields_of_accepts (hS : S.Sound loops) (hc : S.Typed loops c)
    (hrecord : c.container = .record type fields) (h : ∀ q ∈ qualifiers, S.Accepts o type q) :
    ∃ m, S.fillFields o c qualifiers = .ok m := by
  induction qualifiers generalizing c fields with
  | nil => exact ⟨c, by rw [fillFields]⟩
  | cons first rest ih =>
      obtain ⟨name, literal⟩ := first
      obtain ⟨i, kind, s, hi, hscalar, hplain, hread⟩ := h _ List.mem_cons_self
      have hplace := fieldPlace_record hc hrecord o true name
      simp only at hi hplain hread
      rw [hi] at hplace
      obtain ⟨v, hv, hplace⟩ := hplace
      have hcore := hscalar.core_eq hc hrecord hv
      rw [if_neg (Bool.eq_false_iff.1 (isEnclosing_of_core hcore))] at hplace
      cases hslot : Slot.ofScalar kind (.text literal) with
      | error err =>
          rw [ScalarKind.read, Slot.ofScalar_eq_error_iff.1 hslot] at hread
          simp at hread
      | ok slot =>
          have hfill : S.fill o v literal = .ok _ :=
            (fill_scalar hcore hplain).2 ⟨slot, hslot, rfl⟩
          have hkeeps := (keeps_fill hS o v literal hfill).replaceAt
            (Node.get?_fieldPlace hrecord hplace)
          obtain ⟨htyped, others, hothers⟩ := record_of_keeps hkeeps hc hrecord
          rw [fillFields_cons hrecord hplace hfill]
          exact ih htyped hothers fun q hq => h q (List.mem_cons_of_mem _ hq)

/-! ## Building -/

/-- Without eager children a key that builds a record assigns its qualifiers to a new one. -/
theorem assigned_of_build (hS : S.Sound loops) {elem : Ty} (helem : elem.core = .record type)
    (hlazy : o.allocateChildren = false) {parsed : Key} (hparsed : Key.decode key = .ok parsed)
    {built : Node σ} (h : S.build o elem key = .ok built) :
    S.Typed loops (S.zero (.record type)) ∧
      (∃ fields, (S.zero (.record type)).container = .record type fields) ∧
        S.Assigned o (S.zero (.record type)) (S.assignments o type parsed.qualifiers)
          built.innermost := by
  obtain ⟨other, c, fields, hother, hc, hrecord, hfill, -, hnew⟩ := exists_fillFields hS helem h
  obtain rfl := Except.ok.inj (hparsed.symm.trans hother)
  rw [prepare_of_lazy hlazy, innermost_allocate_zero, helem] at hnew
  subst hnew
  exact ⟨hc, ⟨fields, hrecord⟩,
    assigned_of_fillFields hS hlazy hc hrecord (selfFields_zero S type) hfill⟩

/-- A record that a key builds without eager children has its default in every field that the
qualifiers do not name, and in every scalar field that they name what the last plain literal for
it reads as.  Whatever the options, a key with a qualifier that is refused builds nothing, and
one whose qualifiers are all taken builds a record. -/
theorem build_assigns (hS : S.Sound loops) {template : Node σ}
    (htemplate : template.ty.core = .record type) {parsed : Key}
    (hparsed : Key.decode key = .ok parsed) :
    (o.allocateChildren = false → ∀ built, S.build o template.ty key = .ok built →
      (∀ i, (∀ a ∈ S.assignments o type parsed.qualifiers, a.1 ≠ i) →
        built.innermost.child? (.field i) = (S.zero (.record type)).child? (.field i)) ∧
      ∀ i kind as literal bs, S.assignments o type parsed.qualifiers = as ++ (i, literal) :: bs →
        (∀ b ∈ bs, b.1 ≠ i) → S.ScalarField type i kind → kind ≠ .f32 →
        Key.isStructured literal = false →
          ∃ v s, built.innermost.child? (.field i) = some v ∧ v.scalar? = some s ∧
            kind.read literal = .ok s) ∧
    ((∃ q ∈ parsed.qualifiers, S.Refuses o type q) →
      ∃ err, S.build o template.ty key = .error err) ∧
    ((∀ q ∈ parsed.qualifiers, S.Accepts o type q) →
      ∃ built, S.build o template.ty key = .ok built) := by
  refine ⟨fun hlazy built hbuilt => ?_, ?_, fun haccepts => ?_⟩
  · obtain ⟨hzero, ⟨fields, hrecord⟩, hassigned⟩ :=
      assigned_of_build hS htemplate hlazy hparsed hbuilt
    refine ⟨fun i hnone => hassigned.child?_eq hnone, ?_⟩
    intro i kind as literal bs hsplit hlast hscalar hkind hplain
    rw [hsplit] at hassigned
    obtain ⟨d, v, w, hkeeps, hv, hw, hchild⟩ := hassigned.exists_filled hS hlast
    obtain ⟨htyped, others, hothers⟩ := record_of_keeps hkeeps hzero hrecord
    obtain ⟨s, hs, hread⟩ :=
      scalar_of_fill (hscalar.core_eq htyped hothers hv) hkind hplain hw
    exact ⟨w, s, hchild, hs, hread⟩
  · rintro ⟨q, hq, hrefuses⟩
    cases hbuilt : S.build o template.ty key with
    | error err => exact ⟨err, rfl⟩
    | ok built =>
        obtain ⟨other, c, fields, hother, hc, hrecord, hfill, -⟩ :=
          exists_fillFields hS htemplate hbuilt
        obtain rfl := Except.ok.inj (hparsed.symm.trans hother)
        exact absurd hrefuses (not_refuses_of_fillFields hS hc hrecord hfill hq)
  · obtain ⟨fields, state, heq⟩ := exists_record_prepare hS o htemplate
    have htyped := ((keeps_prepare hS o (S.zero template.ty)).typed (typed_zero hS _)).innermost
    obtain ⟨m, hm⟩ := exists_fillFields_of_accepts hS htyped (congrArg container heq) haccepts
    exact ⟨_, (build_record_iff hS htemplate).2 ⟨parsed, m, hparsed, hm, rfl⟩⟩

/-- The fields of a counter: its count, and a limit that keys cannot change. -/
def counterFields (count : Slot) : List (Field × Node Unit) :=
  [(⟨"count", none, true, by decide, Field.none_ne_empty⟩, .scalar count),
    (⟨"limit", none, false, by decide, Field.none_ne_empty⟩, .scalar (.int .u8 9 (by decide)))]

/-- Counters start at zero, and their limit is nine. -/
def counter : Schema Unit where
  records := [{ name := "Counter", fields := counterFields (.zero (.int .u8)), state := () }]
  blank := ()

theorem sound_counter : counter.Sound False := by
  refine sound_of_tree fun d hd f hf => ?_
  obtain rfl := List.mem_singleton.1 hd
  simp only [counterFields, List.mem_cons, List.not_mem_nil, or_false] at hf
  rcases hf with rfl | rfl
  · exact .scalar _
  · exact .scalar _

/-- A counter is built with the count that comes last in any spelling of its name and with the
limit of all counters, whatever the other counters hold, and not at all from a key that names
the limit. -/
theorem build_assigns_counter :
    let template : Node Unit := .record "Counter" (counterFields (.int .u8 42 (by decide))) ()
    (∃ built, counter.build {} template.ty "[count=5][COUNT=7]" = .ok built ∧
      built.innermost.child? (.field 1) = some (.scalar (.int .u8 9 (by decide))) ∧
      ∃ v s, built.innermost.child? (.field 0) = some v ∧ v.scalar? = some s ∧
        (ScalarKind.int .u8).read "7" = .ok s) ∧
    ∃ err, counter.build {} template.ty "[limit=3]" = .error err := by
  intro template
  have htemplate : template.ty.core = .record "Counter" := rfl
  have hcounts : Key.decode "[count=5][COUNT=7]" = .ok ⟨"", [("count", "5"), ("COUNT", "7")]⟩ :=
    eq_ok_of_toOption (by decide +kernel)
  have hlimit : Key.decode "[limit=3]" = .ok ⟨"", [("limit", "3")]⟩ :=
    eq_ok_of_toOption (by decide +kernel)
  have hassigns : counter.assignments {} "Counter" [("count", "5"), ("COUNT", "7")] =
      [(0, "5"), (0, "7")] := by
    rw [assignments_of_tree sound_counter]
    rfl
  have haccepts : ∀ q ∈ [("count", "5"), ("COUNT", "7")], counter.Accepts {} "Counter" q := by
    intro q hq
    simp only [List.mem_cons, List.not_mem_nil, or_false] at hq
    rcases hq with rfl | rfl
    · exact ⟨0, .int .u8, .uint 5, rfl, rfl, by decide, by rfl⟩
    · exact ⟨0, .int .u8, .uint 7, rfl, rfl, by decide, by rfl⟩
  have hrefuses : counter.Refuses {} "Counter" ("limit", "3") := .readOnly (i := 1) rfl rfl rfl
  obtain ⟨hfills, -, hbuilds⟩ := build_assigns (o := {}) sound_counter htemplate hcounts
  obtain ⟨built, hbuilt⟩ := hbuilds haccepts
  obtain ⟨hdefault, hlast⟩ := hfills rfl built hbuilt
  rw [hassigns] at hdefault hlast
  refine ⟨⟨built, hbuilt, hdefault 1 (by simp), ?_⟩, ?_⟩
  · exact hlast 0 (.int .u8) [(0, "5")] "7" [] rfl (by simp) rfl (by decide) (by decide)
  · exact (build_assigns sound_counter htemplate hlimit).2.1
      ⟨_, List.mem_singleton_self _, hrefuses⟩

end Schema

end TreeSync
