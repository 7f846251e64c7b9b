import TreeSync.Proofs.Navigate.Keeping
import TreeSync.Proofs.Node.Siblings
import TreeSync.Proofs.Schema.Matching

/-!
# Lists that a key describes elements of

A structured key builds an element of a list of records or documents, and finds one.
The built element matches its own key, so a list grows by it at most once: writing a
literal under the key, or making the element, appends it when nothing matches and
changes nothing from then on.

Main definitions and results:

- `Document.exists_get?_of_buildEntries`: a document has the entries that its key names.
- `Schema.Elementary`: element types that structured keys describe.
- `Schema.agrees_described`: a built element matches its own key.
- `Schema.Admits`: the first match of a list, or the new element at its end.
- `Schema.described_once`: writing or making under a key, once and again.
-/

namespace TreeSync

open Node

namespace Document

/-- Built entries are there for every field of the qualifiers, and for those that
were there before. -/
theorem exists_get?_of_buildEntries {qualifiers : List (String × String)}
    {done entries : List (String × Document)}
    (h : buildEntries done qualifiers = .ok entries) {field : String}
    (hfield : (∃ d, Entries.get? field done = some d) ∨ field ∈ qualifiers.map Prod.fst) :
    ∃ d, Entries.get? field entries = some d := by
  induction qualifiers generalizing done with
  | nil =>
      rw [buildEntries] at h
      obtain rfl := Except.ok.inj h
      exact hfield.resolve_right List.not_mem_nil
  | cons q rest ih =>
      obtain ⟨name, value⟩ := q
      rw [buildEntries] at h
      split at h
      · simp at h
      · rename_i d hd
        refine ih h ?_
        by_cases hname : field = name
        · subst hname
          exact .inl ⟨d, Entries.get?_put_self ..⟩
        · rw [Entries.get?_put_of_ne _ hname]
          rw [List.map_cons, List.mem_cons] at hfield
          rcases hfield with hdone | hfirst | hrest
          · exact .inl hdone
          · exact absurd hfirst hname
          · exact .inr hrest

end Document

namespace Schema

variable {σ : Type} {S : Schema σ} {o : Options} {loops : Prop} {n c built : Node σ}
  {elem : Ty} {key : String} {items : List (Node σ)} {i : Nat}

/-! ## Built elements -/

/-- A type of records or of documents, below any layers. -/
def Elementary (elem : Ty) : Prop :=
  elem.core = .dynamic ∨ ∃ type, elem.core = .record type

/-- An element of a dynamic type is the document that its key describes. -/
theorem document_of_build (hS : S.Sound loops) (helem : elem.core = .dynamic)
    (h : S.build o elem key = .ok built) :
    built.isAllocated = true ∧
      ∃ d, Document.build key = .ok d ∧ built.innermost = .dynamic d := by
  have hkeeps := keeps_prepare hS o (S.zero elem)
  have hty : (S.prepare o (S.zero elem)).innermost.ty = .dynamic := by
    rw [ty_innermost (isAllocated_prepare hS o (S.zero elem)), hkeeps.ty_eq, S.ty_zero, helem]
  rcases eq_dynamic_of_ty hty with ⟨old, hold⟩
  rw [build, fill] at h
  rcases map_eq_ok.1 h with ⟨c, hc, rfl⟩
  rw [hold] at hc
  rcases map_eq_ok.1 hc with ⟨d, hd, rfl⟩
  have hbare : (dynamic d : Node σ).Bare := Kind.noConfusion
  exact ⟨isAllocated_withCore _ hbare, d, hd, innermost_withCore _ hbare⟩

/-- A key that builds an element can be taken apart. -/
theorem exists_decode_of_build (hS : S.Sound loops) (helem : Elementary elem)
    (hkey : Key.isStructured key = true) (h : S.build o elem key = .ok built) :
    ∃ parsed, Key.decode key = .ok parsed := by
  rcases helem with hdynamic | ⟨type, hrecord⟩
  · rcases document_of_build hS hdynamic h with ⟨-, d, hd, -⟩
    rw [Document.build, if_pos hkey] at hd
    split at hd
    · simp at hd
    · rename_i parsed hparsed
      exact ⟨parsed, hparsed⟩
  · rcases exists_fillFields hS hrecord h with ⟨parsed, -, -, hparsed, -⟩
    exact ⟨parsed, hparsed⟩

/-- A built document has the fields that its key names. -/
theorem exists_namedField_of_document (hS : S.Sound loops) (helem : elem.core = .dynamic)
    (hkey : Key.isStructured key = true) (h : S.build o elem key = .ok built) {parsed : Key}
    (hparsed : Key.decode key = .ok parsed) {q : String × String} (hq : q ∈ parsed.qualifiers) :
    ∃ v, built.namedField? o q.1 = some v := by
  rcases document_of_build hS helem h with ⟨halloc, d, hd, hinner⟩
  rw [Document.build, if_pos hkey] at hd
  split at hd
  · simp at hd
  · rename_i other hother
    obtain rfl := Except.ok.inj (hparsed.symm.trans hother)
    rcases map_eq_ok.1 hd with ⟨entries, hentries, rfl⟩
    rcases Document.exists_get?_of_buildEntries hentries (.inr (List.mem_map_of_mem hq)) with
      ⟨d, hd⟩
    rw [namedField?, core?, core_eq_ok_innermost halloc, hinner]
    refine ⟨.dynamic d, ?_⟩
    simp only [Except.toOption, container, entry?, KeyKind.readKey, get?_documentEntries, hd,
      Option.map_some]

/-- What is the same in all named fields that an element built from a key has. -/
def NamedFields (o : Options) (key : String) (built : Node σ) (p : Node σ → Prop) : Prop :=
  ∀ parsed, Key.decode key = .ok parsed →
    ∀ q ∈ parsed.qualifiers, ∀ v, built.namedField? o q.1 = some v → p v

/-- No fixed array stands in an element of a dynamic type. -/
theorem namedFields_document (hS : S.Sound loops) (helem : elem.core = .dynamic)
    (h : S.build o elem key = .ok built) : NamedFields o key built ArrayFree := by
  intro parsed _ q _ v hv
  rcases document_of_build hS helem h with ⟨-, d, -, hinner⟩
  rcases exists_get?_of_namedField hv with ⟨a, ha⟩
  rw [hinner] at ha
  exact (arrayFree_dynamic d).get ha

/-- Where no record stands inside itself, nothing needs to be said about such records. -/
theorem Typed.loopFree (hn : S.Typed loops n) (h : ¬ loops) : n.LoopFree := by
  intro a v hv
  cases hn.get hv with
  | enclosing hloops => exact absurd hloops h
  | _ => rfl

/-- A built element matches its own key, unless a named field holds a fixed array or
a record inside itself. -/
theorem agrees_described (hS : S.Sound loops) (helem : Elementary elem)
    (hkey : Key.isStructured key = true) (h : S.build o elem key = .ok built)
    (harrays : NamedFields o key built ArrayFree)
    (hloops : loops → NamedFields o key built LoopFree) :
    ∃ names, constrained key = .ok names ∧ names ≠ [] ∧ agrees o names built built = true := by
  rcases exists_decode_of_build hS helem hkey h with ⟨parsed, hparsed⟩
  have hnames : parsed.qualifiers.map Prod.fst ≠ [] := by
    simpa using Key.qualifiers_ne_nil hkey hparsed
  refine ⟨_, constrained_of_decode hkey hparsed, hnames,
    agrees_self (typed_build hS h).2 hnames fun name hname => ?_⟩
  rcases List.mem_map.1 hname with ⟨q, hq, rfl⟩
  have hfield : ∃ v, built.namedField? o q.1 = some v := by
    rcases helem with hdynamic | ⟨type, hrecord⟩
    · exact exists_namedField_of_document hS hdynamic hkey h hparsed hq
    · exact exists_namedField_of_build hS hrecord h hparsed hq
  rcases hfield with ⟨v, hv⟩
  refine ⟨v, hv, harrays parsed hparsed q hq v hv, ?_⟩
  by_cases hloop : loops
  · exact hloops hloop parsed hparsed q hq v hv
  · exact (typed_namedField (typed_build hS h).2 hv).loopFree hloop

/-! ## Writing and making by content -/

section Content

variable {text : String} {document : Option Document}

/-- Writing a literal under the key of an element that is there changes nothing but
missing layers. -/
theorem write_found (hlist : (S.allocate n).innermost.container = .list elem items)
    (hkey : key ≠ "") (hmatch : S.matchIndex o elem items key = .ok (some i)) :
    S.write o n key (.literal text document) .content = (S.allocate n, .ok ()) := by
  have hitem : S.writeItem o (S.allocate n).innermost key (.literal text document) .content =
      ((S.allocate n).innermost, .ok ()) := by
    rw [writeItem, hlist]
    simp only [writeElement, duplicate?, require_of_ne hkey, hmatch, bind, Except.bind]
  rw [write, hlist]
  simp only [hitem]
  exact Prod.ext (withCore_innermost _) rfl

/-- Otherwise the element that the key describes is appended. -/
theorem write_missing (hlist : (S.allocate n).innermost.container = .list elem items)
    (hkey : key ≠ "") (hmatch : S.matchIndex o elem items key = .ok none)
    (hbuild : S.build o elem key = .ok built) :
    S.write o n key (.literal text document) .content =
      ((S.allocate n).withCore ((S.allocate n).innermost.append built), .ok ()) := by
  have hitem : S.writeItem o (S.allocate n).innermost key (.literal text document) .content =
      ((S.allocate n).innermost.append built, .ok ()) := by
    rw [writeItem, hlist]
    simp only [writeElement, duplicate?, require_of_ne hkey, hmatch, hbuild, bind, Except.bind]
  rw [write, hlist]
  simp only [hitem]
  rfl

/-- A literal that was written where no element matches has appended the element that the
key describes. -/
theorem exists_built_of_write (hlist : (S.allocate n).innermost.container = .list elem items)
    (hkey : key ≠ "") (hmissing : ∀ i, S.matchIndex o elem items key ≠ .ok (some i))
    (h : S.write o n key (.literal text document) .content = (c, .ok ())) :
    ∃ built, S.build o elem key = .ok built ∧ S.matchIndex o elem items key = .ok none ∧
      c = (S.allocate n).withCore ((S.allocate n).innermost.append built) := by
  cases hmatch : S.matchIndex o elem items key with
  | error err =>
      have hitem : S.writeItem o (S.allocate n).innermost key (.literal text document) .content =
          ((S.allocate n).innermost, .error err) := by
        rw [writeItem, hlist]
        simp only [writeElement, duplicate?, require_of_ne hkey, hmatch, bind, Except.bind]
      rw [write, hlist] at h
      simp only [hitem, putBack] at h
      simp at h
  | ok found =>
      cases found with
      | some i => exact absurd hmatch (hmissing i)
      | none =>
          rcases bind_eq_ok.1 hmatch with ⟨built, hbuild, -⟩
          rw [write_missing hlist hkey hmatch hbuild] at h
          exact ⟨built, hbuild, rfl, (Prod.mk.inj h).1.symm⟩

/-- Making the element of a key leads to the element at the position that the list
then has it at. -/
theorem findOrCreate_of_locateOrAppend {v : Node σ} {now : List (Node σ)}
    (hlist : (S.allocate n).innermost.container = .list elem items)
    (hmade : S.locateOrAppend o (S.allocate n).innermost elem items key .content = (c, .ok i))
    (hnow : c.container = .list elem now) (hv : now[i]? = some v) (halloc : v.isAllocated = true)
    (hm : S.Typed loops ((S.allocate n).withCore c)) :
    S.findOrCreate o n key .content =
      ((S.allocate n).withCore c,
        .ok ((S.allocate n).coreAddress ++ .element i :: v.coreAddress)) := by
  have hchild : S.createChild o (S.allocate n).innermost key .content =
      (c, .ok [.element i]) := by
    rw [createChild, hlist]
    simp only [createItem, hlist, hmade]
    rfl
  have hget : ((S.allocate n).withCore c).get? ((S.allocate n).coreAddress ++ [.element i]) =
      some v := by
    rw [get?_withCore_append]
    simp only [Node.get?, child?_element hnow, hv, Option.bind_some]
  have hput : (S.allocate n).putBack (S.allocate n).coreAddress
      (S.createChild o (S.allocate n).innermost key .content) =
        ((S.allocate n).withCore c, .ok [.element i]) := by
    rw [hchild]
    rfl
  rw [findOrCreate]
  simp only [hput, hget, S.allocate_of_isAllocated halloc, hm.replaceAt_self hget,
    List.append_assoc, List.singleton_append]

end Content

/-! ## Once and again -/

variable (S) in
/-- What looking a key up makes of a list: nothing if an element matches, else the new
element behind the others.  The position is that of the first match, or of the new
element. -/
inductive Admits (o : Options) (elem : Ty) (key : String) (built c : Node σ)
    (items : List (Node σ)) : Node σ → List (Node σ) → Nat → Prop where
  /-- An element matches. -/
  | found {i : Nat} (h : S.matchIndex o elem items key = .ok (some i)) :
      Admits o elem key built c items c items i
  /-- No element matches. -/
  | appended (h : S.matchIndex o elem items key = .ok none) :
      Admits o elem key built c items (c.append built) (items ++ [built]) items.length

variable (S) in
/-- Under a key, writing a literal, whatever it is, and making the element succeed and
turn one node into another. -/
structure Turns (o : Options) (key : String) (n m : Node σ) : Prop where
  write_eq : ∀ text document,
    S.write o n key (.literal text document) .content = (m, .ok ())
  findOrCreate_eq : ∃ a, S.findOrCreate o n key .content = (m, .ok a)

/-- The new element is the first match of a list without one. -/
theorem matchIndex_append (hbuild : S.build o elem key = .ok built) {names : List String}
    (hnames : constrained key = .ok names) (hself : agrees o names built built = true)
    (h : S.matchIndex o elem items key = .ok none) :
    S.matchIndex o elem (items ++ [built]) key = .ok (some items.length) := by
  rw [matchIndex_build hbuild hnames] at h ⊢
  rw [List.findIdx?_append, Except.ok.inj h]
  simp [hself]

/-- An element that a key matches is there, and all its layers have a value. -/
theorem exists_allocated_of_matchIndex (hbuild : S.build o elem key = .ok built)
    {names : List String} (hnames : constrained key = .ok names) (hne : names ≠ [])
    (h : S.matchIndex o elem items key = .ok (some i)) :
    ∃ v, items[i]? = some v ∧ v.isAllocated = true := by
  rw [matchIndex_build hbuild hnames] at h
  rcases List.findIdx?_eq_some_iff_getElem.1 (Except.ok.inj h) with ⟨hi, hmatch, -⟩
  rcases List.exists_mem_of_ne_nil names hne with ⟨name, hname⟩
  rcases exists_namedField_of_agrees hmatch hname with ⟨v, hv⟩
  exact ⟨items[i], List.getElem?_eq_getElem hi, isAllocated_of_namedField hv⟩

/-- The key of an element that is there fills the missing layers around the list. -/
theorem turns_found {m : Node σ} (hallocate : S.allocate n = m) (hm : S.Typed loops m)
    (hlist : m.innermost.container = .list elem items) (hkey : key ≠ "")
    (hbuild : S.build o elem key = .ok built) {names : List String}
    (hnames : constrained key = .ok names) (hne : names ≠ [])
    (hmatch : S.matchIndex o elem items key = .ok (some i)) : S.Turns o key n m := by
  subst hallocate
  rcases exists_allocated_of_matchIndex hbuild hnames hne hmatch with ⟨v, hv, halloc⟩
  have hmade : S.locateOrAppend o (S.allocate n).innermost elem items key .content =
      ((S.allocate n).innermost, .ok i) := by
    simp only [locateOrAppend, locate, require_of_ne hkey, hmatch, bind, Except.bind]
  rw [← (S.allocate n).withCore_innermost] at hm
  have hmake := findOrCreate_of_locateOrAppend hlist hmade hlist hv halloc hm
  rw [withCore_innermost] at hmake
  exact ⟨fun text document => write_found hlist hkey hmatch, _, hmake⟩

/-- The key of an element that is not there appends it. -/
theorem turns_appended (hlist : (S.allocate n).innermost.container = .list elem items)
    (hkey : key ≠ "") (hbuild : S.build o elem key = .ok built) (hty : built.ty = elem)
    (halloc : built.isAllocated = true) (hmatch : S.matchIndex o elem items key = .ok none)
    (hm : S.Typed loops ((S.allocate n).withCore ((S.allocate n).innermost.append built))) :
    S.Turns o key n ((S.allocate n).withCore ((S.allocate n).innermost.append built)) := by
  have hmade : S.locateOrAppend o (S.allocate n).innermost elem items key .content =
      ((S.allocate n).innermost.append built, .ok items.length) := by
    have hempty : key.isEmpty = false := by simpa using hkey
    simp only [locateOrAppend, locate, require_of_ne hkey, hmatch, hbuild, hempty, bind,
      Except.bind]
    rfl
  exact ⟨fun text document => write_missing hlist hkey hmatch hbuild, _,
    findOrCreate_of_locateOrAppend hlist hmade (container_append hlist hty).1
      List.getElem?_concat_length halloc hm⟩

/-- In a list of records or documents, a structured key that describes an element makes
the element at most once.  The list stays as it is when an element matches, and grows
by the described one otherwise; from then on the key stands for the first match, and
neither writing nor making under it changes anything. -/
theorem described_once (hS : S.Sound loops) (hn : S.Typed loops n)
    (hlist : (S.allocate n).innermost.container = .list elem items) (helem : Elementary elem)
    (hkey : Key.isStructured key = true) (hbuild : S.build o elem key = .ok built)
    (harrays : NamedFields o key built ArrayFree)
    (hloops : loops → NamedFields o key built LoopFree) :
    ∃ c now i, S.Admits o elem key built (S.allocate n).innermost items c now i ∧
      c.container = .list elem now ∧ S.matchIndex o elem now key = .ok (some i) ∧
        S.Turns o key n ((S.allocate n).withCore c) ∧
          S.Turns o key ((S.allocate n).withCore c) ((S.allocate n).withCore c) := by
  rcases agrees_described hS helem hkey hbuild harrays hloops with ⟨names, hnames, hne, hself⟩
  have hempty : key ≠ "" := by
    rintro rfl
    exact absurd hkey (by decide)
  have htyped := (keeps_allocate hS n).typed hn
  cases hmatch : S.matchIndex o elem items key with
  | error err => simp [matchIndex_build hbuild hnames] at hmatch
  | ok found =>
      cases found with
      | some i =>
          have hallocate : S.allocate (S.allocate n) = S.allocate n :=
            S.allocate_of_isAllocated (S.isAllocated_allocate n)
          refine ⟨_, items, i, .found hmatch, hlist, hmatch, ?_⟩
          rw [withCore_innermost]
          exact ⟨turns_found rfl htyped hlist hempty hbuild hnames hne hmatch,
            turns_found hallocate htyped hlist hempty hbuild hnames hne hmatch⟩
      | none =>
          have hbuilt := typed_build hS hbuild
          have hnow := matchIndex_append hbuild hnames hself hmatch
          have happend := container_append hlist hbuilt.1
          have hbare := (S.bare_innermost_allocate n).of_ty_eq happend.2
          have hkeeps := Keeps.withCore (n := S.allocate n) (keeps_append hlist hbuilt.1 hbuilt.2)
          have hallocate := S.allocate_of_isAllocated (isAllocated_withCore (S.allocate n) hbare)
          have hinner := innermost_withCore (S.allocate n) hbare
          rcases exists_allocated_of_matchIndex hbuild hnames hne hnow with ⟨v, hv, halloc⟩
          obtain rfl := Option.some.inj (List.getElem?_concat_length.symm.trans hv)
          exact ⟨_, _, _, .appended hmatch, happend.1, hnow,
            turns_appended hlist hempty hbuild hbuilt.1 halloc hmatch (hkeeps.typed htyped),
            turns_found hallocate (hkeeps.typed htyped) (by rw [hinner, happend.1]) hempty hbuild
              hnames hne hnow⟩

/-- An interface as a document. -/
def interface (name : String) : Document :=
  .map [("name", .text name)]

theorem decode_interface : Key.decode "if[name=eth0]" = .ok ⟨"if", [("name", "eth0")]⟩ :=
  eq_ok_of_toOption (by decide +kernel)

theorem build_interface :
    (empty ()).build {} .dynamic "if[name=eth0]" = .ok (.dynamic (interface "eth0")) := by
  have hname : Document.build "eth0" = .ok (.text "eth0") := by
    rw [Document.build]
    rfl
  have hentries : Document.buildEntries [] [("name", "eth0")] = .ok [("name", .text "eth0")] := by
    rw [Document.buildEntries, hname]
    simp only
    rw [Document.buildEntries]
    rfl
  have hbuild : Document.build "if[name=eth0]" = .ok (interface "eth0") := by
    have hstructured : Key.isStructured "if[name=eth0]" = true := by decide
    rw [Document.build, if_pos hstructured]
    split
    · rename_i err herr
      simp [decode_interface] at herr
    · rename_i key hkey
      obtain rfl := Except.ok.inj (decode_interface.symm.trans hkey)
      rw [hentries]
      rfl
  rw [build_dynamic, hbuild]
  rfl

/-- An interface is made once in a list that holds another one. -/
theorem described_once_interface :
    ∃ c now i, (empty ()).Admits {} .dynamic "if[name=eth0]" (.dynamic (interface "eth0"))
        (.dynamic (.seq [interface "lo"])) [.dynamic (interface "lo")] c now i ∧
      c.container = .list .dynamic now ∧
        (empty ()).matchIndex {} .dynamic now "if[name=eth0]" = .ok (some i) ∧
          (empty ()).Turns {} "if[name=eth0]" (.dynamic (.seq [interface "lo"])) c ∧
            (empty ()).Turns {} "if[name=eth0]" c c := by
  have hlo : (Document.seq [interface "lo"]).Ordered := by
    refine .seq fun d hd => ?_
    obtain rfl := List.mem_singleton.1 hd
    exact Document.ordered_emptyMap.put "name" (.leaf rfl)
  have harrays := namedFields_document (sound_empty ()) rfl build_interface
  exact described_once (n := .dynamic (.seq [interface "lo"])) (sound_empty ()) (.dynamic hlo) rfl
    (.inl rfl) (by decide) build_interface harrays False.elim

end Schema

end TreeSync
