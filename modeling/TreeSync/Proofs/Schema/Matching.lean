import TreeSync.Proofs.Navigate.Slots
import TreeSync.Proofs.Node.Sameness
import TreeSync.Proofs.Path.Bracketed
import TreeSync.Proofs.Schema.Building

/-!
# Elements and the keys that describe them

A structured key compares an element with a built one in the fields that it names,
so other fields do not matter, and the built element matches its own key unless a
named field holds a fixed array or a record inside itself.

Main definitions and results:

- `Ty.core`: the type below all layers.
- `Schema.agrees_congr`: only the named fields matter.
- `Schema.agrees_build`: a built element matches its key.
- `Schema.matchIndex_build`: the first element that matches.
-/

namespace TreeSync

namespace Ty

/-- The type below all optional and boxed layers. -/
def core : Ty → Ty
  | option t => t.core
  | box t => t.core
  | t => t

end Ty

namespace Key

/-- A text with an opening bracket is cut into groups. -/
theorem groups_ne_nil {cs : List Char} (hopen : '[' ∈ cs) {offset : Nat} {cut : Cut}
    (h : cutOutside offset cs = .ok cut) : cut.groups ≠ [] := by
  induction cs generalizing offset cut with
  | nil => simp at hopen
  | cons c rest ih =>
      rw [cutOutside] at h
      by_cases hc : c = '['
      · rw [if_pos hc] at h
        rcases map_eq_ok.1 h with ⟨r, -, rfl⟩
        exact List.cons_ne_nil _ _
      · rw [if_neg hc] at h
        split at h
        · simp at h
        · rcases map_eq_ok.1 h with ⟨r, hr, rfl⟩
          have hne : r.groups ≠ [] := ih ((List.mem_cons.1 hopen).resolve_left (Ne.symm hc)) hr
          exact hne

/-- A structured text has qualifiers. -/
theorem qualifiers_ne_nil {text : String} (h : isStructured text = true) {key : Key}
    (hkey : Key.decode text = .ok key) : key.qualifiers ≠ [] := by
  have hopen : '[' ∈ text.toList := by simpa [isStructured] using h
  rw [Key.decode, parse, cut] at hkey
  cases hcut : cutOutside 0 text.toList with
  | error offset => simp [hcut, bind, Except.bind] at hkey
  | ok c =>
      cases hgroups : c.groups with
      | nil => exact absurd hgroups (groups_ne_nil hopen hcut)
      | cons g rest =>
          simp only [hcut, hgroups, bind, Except.bind, pure, Except.pure, List.mapM_cons] at hkey
          cases hfirst : qualifier text g.1 with
          | error err => simp [hfirst] at hkey
          | ok q =>
              cases hrest : rest.mapM fun g => qualifier text g.1 with
              | error err => simp [hfirst, hrest] at hkey
              | ok qs =>
                  simp only [hfirst, hrest, Except.ok.injEq] at hkey
                  rw [← hkey]
                  exact List.cons_ne_nil q qs

/-- A bracketed text has qualifiers. -/
theorem Bracketed.qualifiers_ne_nil {text : String} (h : Bracketed text) {key : Key}
    (hkey : Key.decode text = .ok key) : key.qualifiers ≠ [] :=
  Key.qualifiers_ne_nil h.isStructured hkey

end Key

namespace Schema

open Node

variable {σ : Type} {S : Schema σ} {o : Options} {loops : Prop} {n m c v : Node σ}
  {type key : String} {fields : List (Field × Node σ)}

/-! ## Types below layers -/

/-- Below the layers of a new node with filled layers stands a new node. -/
theorem innermost_filled (S : Schema σ) (t : Ty) : (S.filled t).innermost = S.zero t.core := by
  induction t with
  | option t ih => exact ih
  | box t ih => exact ih
  | record name =>
      rw [filled, Ty.core, zero]
      · split
        · rfl
        · rfl
      · simp
      · simp
      · simp
      · simp
  | _ => rfl

theorem innermost_allocate_zero (S : Schema σ) (t : Ty) :
    (S.allocate (S.zero t)).innermost = S.zero t.core := by
  induction t with
  | option t => exact S.innermost_filled t
  | box t ih => exact ih
  | record name =>
      rw [Ty.core, zero]
      · split
        · rfl
        · rfl
      · simp
      · simp
  | _ => rfl

theorem ty_innermost_filled (S : Schema σ) (t : Ty) : (S.filled t).innermost.ty = t.core := by
  rw [innermost_filled, ty_zero]

theorem ty_innermost_allocate (S : Schema σ) (n : Node σ) :
    (S.allocate n).innermost.ty = n.ty.core := by
  induction n using allocate.induct with
  | case1 t => exact S.ty_innermost_filled t
  | case2 v ih => exact ih
  | case3 v ih => exact ih
  | case4 n habsent hpresent hboxed =>
      cases n with
      | absent t => exact absurd rfl (habsent t)
      | present v => exact absurd rfl (hpresent v)
      | boxed v => exact absurd rfl (hboxed v)
      | _ => rfl

theorem ty_innermost (h : n.isAllocated = true) : n.innermost.ty = n.ty.core := by
  induction n using layers_induction with
  | absent t => simp [isAllocated, core?, core, Except.toOption] at h
  | present v ih => exact ih h
  | boxed v ih => exact ih h
  | bare n hn =>
      rw [innermost_of_bare hn]
      cases n with
      | absent t => exact absurd rfl hn
      | present v => exact absurd rfl hn
      | boxed v => exact absurd rfl hn
      | _ => rfl

/-! ## Named fields -/

theorem namedField_of_core (h : n.core = .ok c) (o : Options) (name : String) :
    n.namedField? o name = c.namedField? o name := by
  rw [namedField?, namedField?, core?, core?, h, core_of_bare (bare_of_core h)]

/-- The type of a record decides which field a name stands for, unless it is the
record itself. -/
theorem namedField_record (hc : S.Typed loops c) (hrecord : c.container = .record type fields)
    (o : Options) {name : String}
    (hself : ∀ i, S.fieldOf? o false type name = .ok i → ¬ S.Itself type i) :
    c.namedField? o name =
      (S.fieldOf? o false type name).toOption.bind fun i => c.child? (.field i) := by
  have hplace := fieldPlace_record hc hrecord o false name
  have hcore : c.core = .ok c := by
    rcases eq_record_of_container hrecord with ⟨state, rfl⟩
    rfl
  rw [namedField?, core?, hcore]
  simp only [Except.toOption, hrecord]
  split at hplace
  · rename_i err herr
    rw [hplace, herr]
    rfl
  · rename_i i hi
    rcases hplace with ⟨v, hv, hplace⟩
    have hne := isEnclosing_of_not_itself hc hrecord hv (hself i hi)
    rw [hplace, if_neg (Bool.eq_false_iff.1 hne), hi]
    exact hv.symm

/-- Only the fields that a key names are compared. -/
theorem agrees_congr {names : List String} (hnames : names ≠ [])
    (h : ∀ name ∈ names, m.namedField? o name = n.namedField? o name) (built : Node σ) :
    agrees o names built m = agrees o names built n := by
  have hne : names.isEmpty = false := by simpa using hnames
  rw [agrees, agrees, hne]
  simp only [Bool.false_eq_true, if_false]
  rw [Bool.eq_iff_iff, List.all_eq_true, List.all_eq_true]
  constructor
  · intro hall name hname
    rw [← h name hname]
    exact hall name hname
  · intro hall name hname
    rw [h name hname]
    exact hall name hname

/-- A matching element has every named field. -/
theorem exists_namedField_of_agrees {names : List String} {built : Node σ}
    (h : agrees o names built n = true) {name : String} (hname : name ∈ names) :
    ∃ v, n.namedField? o name = some v := by
  have hne : names.isEmpty = false := by simpa using List.ne_nil_of_mem hname
  rw [agrees, hne] at h
  simp only [Bool.false_eq_true, if_false, List.all_eq_true] at h
  cases hv : n.namedField? o name with
  | none => simpa [hv] using h name hname
  | some v => exact ⟨v, rfl⟩

theorem isAllocated_of_namedField {name : String} (h : n.namedField? o name = some v) :
    n.isAllocated = true := by
  rw [isAllocated]
  cases hcore : n.core? with
  | none => simp [namedField?, hcore] at h
  | some c => rfl

/-- A named field stands below the layers of the node. -/
theorem exists_get?_of_namedField {name : String} (h : n.namedField? o name = some v) :
    ∃ a, n.innermost.get? a = some v := by
  have hcore := core_eq_ok_innermost (isAllocated_of_namedField h)
  rw [namedField?, core?, hcore] at h
  simp only [Except.toOption] at h
  split at h
  · rename_i type fields hrecord
    cases hplace : n.innermost.fieldPlace o false type fields name with
    | error err => simp [hplace] at h
    | ok place =>
        simp only [hplace, Option.map_some] at h
        obtain rfl := Option.some.inj h
        exact ⟨_, get?_fieldPlace hrecord hplace⟩
  · rename_i kind elem entries hmap
    rw [ entry?, hmap] at h
    simp only at h
    split at h
    · rename_i k hk
      refine ⟨[.entry k], ?_⟩
      rw [Node.get?, child?_entry hmap, h]
      rfl
    · simp at h
  · simp at h

/-- A named field of a well-typed node is well typed. -/
theorem typed_namedField (hn : S.Typed loops n) {name : String}
    (h : n.namedField? o name = some v) : S.Typed loops v := by
  rcases exists_get?_of_namedField h with ⟨a, ha⟩
  exact hn.innermost.get ha

/-- A well-typed node matches itself in fields that it has, unless they hold a fixed
array or a record inside itself. -/
theorem agrees_self (hn : S.Typed loops n) {names : List String} (hnames : names ≠ [])
    (h : ∀ name ∈ names, ∃ v, n.namedField? o name = some v ∧ v.ArrayFree ∧ v.LoopFree) :
    agrees o names n n = true := by
  have hne : names.isEmpty = false := by simpa using hnames
  rw [agrees, hne]
  simp only [Bool.false_eq_true, if_false, List.all_eq_true]
  intro name hname
  rcases h name hname with ⟨v, hv, harray, hloop⟩
  simp only [hv]
  exact same_self (typed_namedField hn hv) harray hloop

/-- An element of a record type that matches a key with qualifiers is a record below
layers that have a value. -/
theorem record_of_agrees {names : List String} (hnames : names ≠ []) {built : Node σ}
    (hty : n.ty.core = .record type) (h : agrees o names built n = true) :
    n.isAllocated = true ∧ ∃ fields, n.innermost.container = .record type fields := by
  rcases List.exists_mem_of_ne_nil names hnames with ⟨name, hmem⟩
  rcases exists_namedField_of_agrees h hmem with ⟨v, hname⟩
  have halloc := isAllocated_of_namedField hname
  have hown : n.innermost.isEnclosing = false := by
    cases hinner : n.innermost with
    | enclosing other =>
        have hcore := core_eq_ok_innermost halloc
        rw [hinner] at hcore
        simp [namedField?, core?, hcore, Except.toOption, container] at hname
    | _ => rfl
  rcases eq_record_of_ty hown ((ty_innermost halloc).trans hty) with
    ⟨fields, state, heq⟩
  exact ⟨halloc, fields, congrArg container heq⟩

/-! ## Built elements -/

/-- Filling fields finds all of them. -/
theorem fieldOf_of_fillFields (hS : S.Sound loops) {qualifiers : List (String × String)}
    (hn : S.Typed loops n) (hrecord : n.container = .record type fields)
    (h : S.fillFields o n qualifiers = .ok m) {q : String × String} (hq : q ∈ qualifiers) :
    ∃ i, S.fieldOf? o false type q.1 = .ok i := by
  induction qualifiers generalizing n fields with
  | nil => simp at hq
  | cons first rest ih =>
      obtain ⟨field, value⟩ := first
      rcases eq_record_of_container hrecord with ⟨state, rfl⟩
      rw [fillFields] at h
      split at h
      · simp at h
      · rename_i place hplace
        split at h
        · simp at h
        · rename_i child hchild
          rcases List.mem_cons.1 hq with rfl | hq
          · have hstep := fieldPlace_record hn rfl o true field
            split at hstep
            · rw [hstep] at hplace
              simp at hplace
            · rename_i i hi
              exact ⟨i, fieldOf_read hi⟩
          · have hkeeps := (keeps_fill hS o place.node value hchild).replaceAt
              (Node.get?_fieldPlace rfl hplace)
            rcases record_of_keeps hkeeps hn rfl with ⟨htyped, others, hothers⟩
            exact ih htyped hothers h hq

theorem isAllocated_prepare (hS : S.Sound loops) (o : Options) (n : Node σ) :
    (S.prepare o n).isAllocated = true := by
  rw [prepare]
  split
  · have hkeeps := keeps_allocateChildren hS [] (S.allocate n).innermost
    exact isAllocated_withCore _ ((S.bare_innermost_allocate n).of_ty_eq hkeeps.ty_eq)
  · exact S.isAllocated_allocate n

/-- A new element of a record type that is ready to be filled is a record below its layers. -/
theorem exists_record_prepare (hS : S.Sound loops) (o : Options) {elem : Ty}
    (helem : elem.core = .record type) :
    ∃ fields state, (S.prepare o (S.zero elem)).innermost = .record type fields state := by
  have hty : (S.prepare o (S.zero elem)).innermost.ty = .record type := by
    rw [ty_innermost (isAllocated_prepare hS o _), (keeps_prepare hS o _).ty_eq, S.ty_zero, helem]
  have hown : (S.allocate (S.zero elem)).innermost.isEnclosing = false := by
    rw [innermost_allocate_zero]
    exact S.isEnclosing_zero elem.core
  refine eq_record_of_ty ?_ hty
  rw [prepare]
  split
  · have hkeeps := keeps_allocateChildren hS [] (S.allocate (S.zero elem)).innermost
    rw [← withCore, innermost_withCore _ ((S.bare_innermost_allocate _).of_ty_eq hkeeps.ty_eq)]
    exact Bool.eq_false_iff.2 fun h => Bool.noConfusion (hown.symm.trans (hkeeps.enclosing h))
  · exact hown

/-- Building an element of a record type is filling the fields of a new record. -/
theorem build_record_iff (hS : S.Sound loops) {elem : Ty} (helem : elem.core = .record type)
    {built : Node σ} :
    S.build o elem key = .ok built ↔
      ∃ parsed m, Key.decode key = .ok parsed ∧
        S.fillFields o (S.prepare o (S.zero elem)).innermost parsed.qualifiers = .ok m ∧
          (S.prepare o (S.zero elem)).withCore m = built := by
  obtain ⟨fields, state, heq⟩ := exists_record_prepare hS o helem
  rw [build, fill, heq, map_eq_ok]
  simp only
  split
  · rename_i err herr
    simp [herr]
  · rename_i parsed hparsed
    rw [hparsed]
    constructor
    · rintro ⟨m, hm, rfl⟩
      exact ⟨parsed, m, rfl, hm, rfl⟩
    · rintro ⟨other, m, hother, hm, rfl⟩
      obtain rfl := Except.ok.inj hother
      exact ⟨m, hm, rfl⟩

/-- An element of a record type is built by filling the fields of a new record. -/
theorem exists_fillFields (hS : S.Sound loops) {elem : Ty} (helem : elem.core = .record type)
    {built : Node σ} (h : S.build o elem key = .ok built) :
    ∃ parsed c fields, Key.decode key = .ok parsed ∧ S.Typed loops c ∧
      c.container = .record type fields ∧
        S.fillFields o c parsed.qualifiers = .ok built.innermost ∧ built.isAllocated = true ∧
          c = (S.prepare o (S.zero elem)).innermost := by
  obtain ⟨parsed, m, hparsed, hm, rfl⟩ := (build_record_iff hS helem).1 h
  obtain ⟨fields, state, heq⟩ := exists_record_prepare hS o helem
  have htyped := ((keeps_prepare hS o (S.zero elem)).typed (typed_zero hS elem)).innermost
  have hfilled := keeps_fillFields hS o _ parsed.qualifiers hm
  have hbare := (bare_innermost (isAllocated_prepare hS o (S.zero elem))).of_ty_eq hfilled.ty_eq
  refine ⟨parsed, _, fields, hparsed, htyped, congrArg container heq, ?_,
    isAllocated_withCore _ hbare, rfl⟩
  rw [innermost_withCore _ hbare]
  exact hm

/-- The fields that a structured key constrains. -/
theorem constrained_of_decode (hstructured : Key.isStructured key = true) {parsed : Key}
    (hkey : Key.decode key = .ok parsed) :
    constrained key = .ok (parsed.qualifiers.map Prod.fst) := by
  rw [constrained, if_pos hstructured, hkey]
  rfl

/-- A built element of a record type is a record with all fields that its key
names. -/
theorem record_of_build (hS : S.Sound loops) {elem : Ty} (helem : elem.core = .record type)
    {built : Node σ} (h : S.build o elem key = .ok built) {parsed : Key}
    (hkey : Key.decode key = .ok parsed) :
    S.Typed loops built.innermost ∧ (∃ fields, built.innermost.container = .record type fields) ∧
      built.isAllocated = true ∧
        ∀ q ∈ parsed.qualifiers, ∃ i, S.fieldOf? o false type q.1 = .ok i := by
  rcases exists_fillFields hS helem h with ⟨other, c, fields, hother, hc, hrecord, hfill, halloc, -⟩
  obtain rfl := Except.ok.inj (hkey.symm.trans hother)
  have hkeeps := keeps_fillFields hS o c parsed.qualifiers hfill
  rcases record_of_keeps hkeeps hc hrecord with ⟨htyped, hfields⟩
  exact ⟨htyped, hfields, halloc, fun q hq => fieldOf_of_fillFields hS hc hrecord hfill hq⟩

/-- A record that is a field of itself is not free of loops. -/
theorem not_loopFree_of_itself (hn : S.Typed loops n) (hty : n.ty = .record type) {i : Nat}
    (hself : S.Itself type i) : ¬ n.LoopFree := by
  induction hn with
  | @record other fields state types within h ih =>
      obtain rfl := Ty.record.inj hty
      rw [Itself, ← types, List.getElem?_map] at hself
      rcases Option.map_eq_some_iff.1 hself with ⟨p, hp, hpair⟩
      rcases Option.map_eq_some_iff.1 hp with ⟨f, hf, rfl⟩
      intro hfree
      refine ih f (List.mem_of_getElem? hf) hpair (hfree.child (s := .field i) ?_)
      rw [child?, hf, Option.map_some]
  | @enclosing other _ =>
      intro hfree
      exact absurd (hfree [] (.enclosing other) rfl) (by simp [isEnclosing])
  | _ => simp [ty] at hty

/-- A field that a key names is not the element itself, if what a built element
holds there is free of loops. -/
theorem not_itself_of_build (hS : S.Sound loops) {elem : Ty} (helem : elem.core = .record type)
    {built : Node σ} (h : S.build o elem key = .ok built) {parsed : Key}
    (hkey : Key.decode key = .ok parsed) {name : String}
    (hfree : ∀ v, built.namedField? o name = some v → v.LoopFree) {i : Nat}
    (hi : S.fieldOf? o false type name = .ok i) : ¬ S.Itself type i := by
  intro hself
  rcases record_of_build hS helem h hkey with ⟨htyped, ⟨fields, hrecord⟩, halloc, -⟩
  have hcore := core_eq_ok_innermost halloc
  have hplace := fieldPlace_record htyped hrecord o false name
  rw [hi] at hplace
  rcases hplace with ⟨v, hv, hplace⟩
  have hnamed : built.namedField? o name =
      some (if v.isEnclosing then built.innermost else v) := by
    rw [namedField?, core?, hcore]
    simp only [Except.toOption, hrecord, hplace, Option.map_some]
    split <;> rfl
  have hloop := hfree _ hnamed
  split at hloop
  · rcases eq_record_of_container hrecord with ⟨state, heq⟩
    exact not_loopFree_of_itself htyped (congrArg ty heq) hself hloop
  · have hty := (ty_of_field htyped hrecord hv).symm.trans hself
    exact not_loopFree_of_itself (htyped.child hv) (Option.some.inj hty) hself hloop

/-- A built element of a record type has the fields that its key names. -/
theorem exists_namedField_of_build (hS : S.Sound loops) {elem : Ty}
    (helem : elem.core = .record type) {built : Node σ} (h : S.build o elem key = .ok built)
    {parsed : Key} (hkey : Key.decode key = .ok parsed) {q : String × String}
    (hq : q ∈ parsed.qualifiers) : ∃ v, built.namedField? o q.1 = some v := by
  rcases record_of_build hS helem h hkey with ⟨htyped, ⟨fields, hrecord⟩, halloc, hfields⟩
  rcases hfields q hq with ⟨i, hi⟩
  have hplace := fieldPlace_record htyped hrecord o false q.1
  rw [hi] at hplace
  rcases hplace with ⟨v, -, hplace⟩
  rw [namedField?, core?, core_eq_ok_innermost halloc]
  simp only [Except.toOption, hrecord, hplace, Option.map_some]
  exact ⟨_, rfl⟩

/-- A built element matches its own key. -/
theorem agrees_build (hS : S.Sound loops) {elem : Ty} (helem : elem.core = .record type)
    {built : Node σ} (h : S.build o elem key = .ok built) {parsed : Key}
    (hkey : Key.decode key = .ok parsed)
    (harrays : ∀ q ∈ parsed.qualifiers, ∀ v, built.namedField? o q.1 = some v → v.ArrayFree)
    (hloops : ∀ q ∈ parsed.qualifiers, ∀ v, built.namedField? o q.1 = some v → v.LoopFree)
    (hne : parsed.qualifiers ≠ []) :
    agrees o (parsed.qualifiers.map Prod.fst) built built = true := by
  refine agrees_self (typed_build hS h).2 (by simpa using hne) ?_
  intro name hname
  rcases List.mem_map.1 hname with ⟨q, hq, rfl⟩
  rcases exists_namedField_of_build hS helem h hkey hq with ⟨v, hv⟩
  exact ⟨v, hv, harrays q hq v hv, hloops q hq v hv⟩

/-- Among elements the first one that matches is looked for. -/
theorem matchIndex_build {elem : Ty} {built : Node σ} (h : S.build o elem key = .ok built)
    {names : List String} (hnames : constrained key = .ok names) (items : List (Node σ)) :
    S.matchIndex o elem items key = .ok (items.findIdx? fun item => agrees o names built item) := by
  rw [matchIndex, h, hnames]
  rfl

/-- A plain key looks for the first element that equals what it builds. -/
theorem matchIndex_of_plain (hplain : Key.isStructured key = false) {elem : Ty} {built : Node σ}
    (h : S.build o elem key = .ok built) (items : List (Node σ)) :
    S.matchIndex o elem items key = .ok (items.findIdx? fun item => item.same built) := by
  have hnames : constrained key = .ok [] := by
    rw [constrained, hplain]
    rfl
  exact matchIndex_build h hnames items

end Schema

end TreeSync
