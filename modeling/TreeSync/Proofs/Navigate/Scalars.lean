import TreeSync.Proofs.Navigate.Described

/-!
# Lists of scalars under keys

A scalar element can be built from a plain key, and from a structured one by its first
value.  It can be looked up by a plain key only: a structured key compares named fields, and a
scalar has none.  So a plain key is written once and leads back to its element, while every
write under a structured key appends another element that the key never finds.

Main definitions and results:

- `Schema.scalar_of_build`: a scalar element holds a scalar below its layers.
- `Schema.matchIndex_structured`: no scalar matches a structured key.
- `Schema.TakesUp`: a key that leads back to what is written under it.
- `Schema.write_structured`: a list of scalars grows under a structured key.
- `Schema.exists_takesUp_iff`: the keys that lists of scalars take up.
-/

namespace TreeSync

namespace Node

variable {σ : Type} {n b : Node σ}

/-- Layers around the first node make no difference either. -/
theorem same_innermost (h : n.isAllocated = true) (b : Node σ) : n.same b = n.innermost.same b := by
  induction n using layers_induction with
  | absent t => simp [isAllocated, core?, core, Except.toOption] at h
  | present v ih =>
      rw [same]
      exact ih h
  | boxed v ih =>
      rw [same]
      exact ih h
  | bare n hn => rw [innermost_of_bare hn]

end Node

namespace Schema

open Node

variable {σ : Type} {S : Schema σ} {o : Options} {loops : Prop} {n m c built : Node σ}
  {elem : Ty} {kind : ScalarKind} {key : String} {items : List (Node σ)} {i : Nat}

/-! ## Scalar elements -/

/-- A built scalar is the slot that its key describes, below layers that have a value. -/
theorem scalar_of_build (hS : S.Sound loops) (helem : elem.core = .scalar kind)
    (h : S.build o elem key = .ok built) :
    built.isAllocated = true ∧ ∃ old slot : Slot,
      old.build key = .ok slot ∧ built.innermost = .scalar slot := by
  have hkeeps := keeps_prepare hS o (S.zero elem)
  have hty : (S.prepare o (S.zero elem)).innermost.ty = .scalar kind := by
    rw [ty_innermost (isAllocated_prepare hS o (S.zero elem)), hkeeps.ty_eq, S.ty_zero, helem]
  rcases eq_scalar_of_ty hty with ⟨old, hold⟩
  rw [build, fill] at h
  rcases map_eq_ok.1 h with ⟨c, hc, rfl⟩
  rw [hold] at hc
  rcases map_eq_ok.1 hc with ⟨slot, hslot, rfl⟩
  have hbare : (scalar slot : Node σ).Bare := Kind.noConfusion
  exact ⟨isAllocated_withCore _ hbare, old, slot, hslot, innermost_withCore _ hbare⟩

/-- A key that builds a scalar can be taken apart. -/
theorem exists_decode_of_scalar (hS : S.Sound loops) (helem : elem.core = .scalar kind)
    (hkey : Key.isStructured key = true) (h : S.build o elem key = .ok built) :
    ∃ parsed, Key.decode key = .ok parsed := by
  rcases scalar_of_build hS helem h with ⟨-, old, slot, hslot, -⟩
  rw [Slot.build] at hslot
  simp only [hkey, if_true] at hslot
  obtain ⟨parsed, hparsed, -⟩ := bind_eq_ok.1 hslot
  exact ⟨parsed, hparsed⟩

/-- A built scalar equals itself. -/
theorem same_self_of_build (hS : S.Sound loops) (helem : elem.core = .scalar kind)
    (h : S.build o elem key = .ok built) : built.same built = true := by
  rcases scalar_of_build hS helem h with ⟨halloc, -, slot, -, hslot⟩
  have hcore := core_eq_ok_innermost halloc
  rw [same_innermost halloc, hslot, same, literal?, core?, hcore, hslot]
  exact beq_self_eq_true _

/-- A scalar that a plain key builds matches the key. -/
theorem agrees_plain (hS : S.Sound loops) (helem : elem.core = .scalar kind)
    (hplain : Key.isStructured key = false) (h : S.build o elem key = .ok built) :
    constrained key = .ok [] ∧ agrees o [] built built = true := by
  refine ⟨?_, same_self_of_build hS helem h⟩
  rw [constrained, hplain]
  rfl

/-- A built scalar has no fields. -/
theorem namedField_of_scalar (hS : S.Sound loops) (helem : elem.core = .scalar kind)
    (h : S.build o elem key = .ok built) (name : String) : built.namedField? o name = none := by
  rcases scalar_of_build hS helem h with ⟨halloc, -, slot, -, hslot⟩
  rw [namedField?, core?, core_eq_ok_innermost halloc, hslot]
  rfl

/-- No element matches a structured key that builds a scalar. -/
theorem matchIndex_structured (hS : S.Sound loops) (helem : elem.core = .scalar kind)
    (hkey : Key.isStructured key = true) (h : S.build o elem key = .ok built)
    (items : List (Node σ)) : S.matchIndex o elem items key = .ok none := by
  obtain ⟨parsed, hparsed⟩ := exists_decode_of_scalar hS helem hkey h
  obtain ⟨q, rest, hq⟩ := List.exists_cons_of_ne_nil (Key.qualifiers_ne_nil hkey hparsed)
  have hdiffers : ∀ item, agrees o (parsed.qualifiers.map Prod.fst) built item = false := by
    intro item
    simp [agrees, hq, namedField_of_scalar hS helem h]
  rw [matchIndex_build h (constrained_of_decode hkey hparsed)]
  simp [hdiffers]

/-! ## Writing, finding and removing -/

/-- A key removes the element that it matches, and fails without one. -/
theorem remove_content (halloc : n.isAllocated = true)
    (hlist : n.innermost.container = .list elem items) (hkey : key ≠ "") {found : Option Nat}
    (hmatch : S.matchIndex o elem items key = .ok found) :
    S.remove o n key .content = found.elim (.error (.entryNotFound key))
      fun i => .ok (n.withCore (n.innermost.eraseItem i)) := by
  have hitem : S.removeItem o n.innermost key .content =
      found.elim (.error (.entryNotFound key)) fun i => .ok (n.innermost.eraseItem i) := by
    rw [removeItem, hlist]
    simp only [locate, require_of_ne hkey, hmatch, bind, Except.bind]
    cases found with
    | none => rfl
    | some i => rfl
  rw [remove, core_eq_ok_innermost halloc]
  simp only [hlist, hitem]
  cases found with
  | none => rfl
  | some i => rfl

/-- Writing a literal under a key that no element matches puts the element that it describes
behind the others. -/
theorem exists_write_missing (hS : S.Sound loops)
    (hlist : (S.allocate n).innermost.container = .list elem items) (hkey : key ≠ "")
    (hmatch : S.matchIndex o elem items key = .ok none) (hbuild : S.build o elem key = .ok built)
    (text : String) (document : Option Document) :
    ∃ m, S.write o n key (.literal text document) .content = (m, .ok ()) ∧
      m.isAllocated = true ∧ m.innermost.container = .list elem (items ++ [built]) := by
  have happend := container_append hlist (typed_build hS hbuild).1
  have hbare := (S.bare_innermost_allocate n).of_ty_eq happend.2
  refine ⟨_, write_missing hlist hkey hmatch hbuild, isAllocated_withCore _ hbare, ?_⟩
  rw [innermost_withCore _ hbare]
  exact happend.1

variable (S) in
/-- A list takes a key up: what is written under the key is there, writing it again changes
nothing, and it can be removed. -/
structure TakesUp (o : Options) (elem : Ty) (key : String) (payload : Payload σ)
    (n m : Node σ) : Prop where
  write_eq : S.write o n key payload .content = (m, .ok ())
  exists_match : m.isAllocated = true ∧ ∃ items i, m.innermost.container = .list elem items ∧
    S.matchIndex o elem items key = .ok (some i)
  write_again : S.write o m key payload .content = (m, .ok ())
  exists_remove : ∃ r, S.remove o m key .content = .ok r

section Scalars

variable {text : String} {document : Option Document}

/-- A list takes a key up if what was written makes an element match. -/
theorem takesUp_of_write (hwrite : S.write o n key (.literal text document) .content = (m, .ok ()))
    (halloc : m.isAllocated = true) (hlist : m.innermost.container = .list elem items)
    (hkey : key ≠ "") (hmatch : S.matchIndex o elem items key = .ok (some i)) :
    S.TakesUp o elem key (.literal text document) n m where
  write_eq := hwrite
  exists_match := ⟨halloc, items, i, hlist, hmatch⟩
  write_again := by
    have hallocate := S.allocate_of_isAllocated halloc
    rw [← hallocate] at hlist
    rw [write_found hlist hkey hmatch, hallocate]
  exists_remove := ⟨_, remove_content halloc hlist hkey hmatch⟩

/-- A list of scalars takes a plain key up. -/
theorem exists_takesUp_of_plain (hS : S.Sound loops) (helem : elem.core = .scalar kind)
    (hlist : (S.allocate n).innermost.container = .list elem items) (hkey : key ≠ "")
    (hplain : Key.isStructured key = false) (hbuild : S.build o elem key = .ok built) :
    ∃ m, S.TakesUp o elem key (.literal text document) n m := by
  cases hfound : items.findIdx? fun item => item.same built with
  | some i =>
      have hmatch := (matchIndex_of_plain hplain hbuild items).trans (congrArg Except.ok hfound)
      have halloc := S.isAllocated_allocate n
      exact ⟨_, takesUp_of_write (write_found hlist hkey hmatch) halloc hlist hkey hmatch⟩
  | none =>
      have hmissing := (matchIndex_of_plain hplain hbuild items).trans (congrArg Except.ok hfound)
      obtain ⟨hnames, hself⟩ := agrees_plain hS helem hplain hbuild
      have hnow := matchIndex_append hbuild hnames hself hmissing
      obtain ⟨m, hwrite, halloc, hitems⟩ :=
        exists_write_missing hS hlist hkey hmissing hbuild text document
      exact ⟨m, takesUp_of_write hwrite halloc hitems hkey hnow⟩

/-- A list of scalars grows with every write under a structured key, and what was written
cannot be removed by the key. -/
theorem write_structured (hS : S.Sound loops) (helem : elem.core = .scalar kind)
    (hlist : (S.allocate n).innermost.container = .list elem items)
    (hkey : Key.isStructured key = true) (hbuild : S.build o elem key = .ok built)
    (text : String) (document : Option Document) :
    ∃ m, S.write o n key (.literal text document) .content = (m, .ok ()) ∧
      m.isAllocated = true ∧ m.innermost.container = .list elem (items ++ [built]) ∧
        S.remove o m key .content = .error (.entryNotFound key) := by
  have hne : key ≠ "" := by
    rintro rfl
    exact absurd hkey (by decide)
  have hmissing := matchIndex_structured hS helem hkey hbuild
  obtain ⟨m, hwrite, halloc, hitems⟩ :=
    exists_write_missing hS hlist hne (hmissing items) hbuild text document
  exact ⟨m, hwrite, halloc, hitems, remove_content halloc hitems hne (hmissing _)⟩

/-- A list of scalars takes no structured key up. -/
theorem not_takesUp_of_structured (hS : S.Sound loops) (helem : elem.core = .scalar kind)
    (hlist : (S.allocate n).innermost.container = .list elem items)
    (hkey : Key.isStructured key = true) (hbuild : S.build o elem key = .ok built) :
    ¬S.TakesUp o elem key (.literal text document) n m := by
  intro htakes
  obtain ⟨m', hwrite, -, -, hremove⟩ :=
    write_structured hS helem hlist hkey hbuild text document
  obtain ⟨rfl, -⟩ := Prod.mk.inj (htakes.write_eq.symm.trans hwrite)
  obtain ⟨r, hr⟩ := htakes.exists_remove
  rw [hremove] at hr
  simp at hr

/-- Lists of scalars take up the keys that build an element, as long as they are plain.
Under a structured key nothing is found or removed again. -/
theorem exists_takesUp_iff (hS : S.Sound loops) (helem : elem.core = .scalar kind)
    (hlist : (S.allocate n).innermost.container = .list elem items) (hkey : key ≠ "")
    (hbuild : S.build o elem key = .ok built) :
    (∃ m, S.TakesUp o elem key (.literal text document) n m) ↔ Key.isStructured key = false := by
  constructor
  · rintro ⟨m, htakes⟩
    rw [← Bool.not_eq_true]
    intro hstructured
    exact not_takesUp_of_structured hS helem hlist hstructured hbuild htakes
  · intro hplain
    exact exists_takesUp_of_plain hS helem hlist hkey hplain hbuild

end Scalars

/-- The names of some interfaces. -/
def names (texts : List String) : Node Unit :=
  .list (.scalar .string) (texts.map fun text => .scalar (.text text))

theorem build_name :
    (empty ()).build {} (.scalar .string) "eth0" = .ok (.scalar (.text "eth0") : Node Unit) := by
  rw [build, fill]
  rfl

/-- Another name is taken up. -/
theorem exists_takesUp_name :
    "eth0" ≠ "" ∧
      ∃ m, (empty ()).TakesUp {} (.scalar .string) "eth0" (.literal "" none) (names ["lo"]) m :=
  ⟨by decide, (exists_takesUp_iff (sound_empty ()) rfl rfl (by decide) build_name).2 (by decide)⟩

/-- The key in brackets builds the same name, and is not taken up. -/
theorem bracketed_name_lost :
    (empty ()).build {} (.scalar .string) "[value=eth0]" =
        .ok (.scalar (.text "eth0") : Node Unit) ∧
      ¬∃ m, (empty ()).TakesUp {} (.scalar .string) "[value=eth0]" (.literal "" none)
        (names ["lo"]) m := by
  have hdecode : Key.decode "[value=eth0]" = .ok ⟨"", [("value", "eth0")]⟩ :=
    eq_ok_of_toOption (by decide +kernel)
  have hslot : (Slot.text "").build "[value=eth0]" = .ok (.text "eth0") := by
    rw [Slot.build, if_pos (by decide), hdecode]
    rfl
  have hbuild : (empty ()).build {} (.scalar .string) "[value=eth0]" =
      .ok (.scalar (.text "eth0") : Node Unit) := by
    have hzero : (empty ()).prepare {} ((empty ()).zero (.scalar .string)) =
        (.scalar (.text "") : Node Unit) := rfl
    rw [build, fill, hzero]
    simp only [innermost, hslot]
    rfl
  refine ⟨hbuild, ?_⟩
  rintro ⟨m, htakes⟩
  have hlist : ((empty ()).allocate (names ["lo"])).innermost.container =
      .list (.scalar .string) [.scalar (.text "lo")] := rfl
  exact not_takesUp_of_structured (sound_empty ()) rfl hlist (by decide) hbuild htakes

end Schema

end TreeSync
