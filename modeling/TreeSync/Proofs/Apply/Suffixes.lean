import TreeSync.Proofs.Apply.Commuting
import TreeSync.Proofs.Apply.ContentKeys
import TreeSync.Proofs.Apply.Rewriting
import TreeSync.Proofs.Navigate.Payloads

/-!
# Bracket groups behind a name or in a segment of their own

A key such as `interface[name=eth0]` leads through a field into what the field holds.
The same two steps can be written as two segments, the name of the field and the
bracket groups behind it.  Unless the field holds a document, which would take the
groups as a key of its own, both spellings change the target in the same way and fail
together.  Only the texts of their failures differ.

Main definitions and results:

- `Schema.Layered`: outcomes that are decided below the layers of a node.
- `Schema.performItem`: the action at an entry or element.
- `Schema.sameOutcome_walkItem`, `Schema.sameOutcome_performItem`: bracket groups below
  the layers of a field.
- `Schema.sameOutcome_append`: the induction along a common prefix.
- `Schema.apply_suffixed`: one event in both spellings.
-/

namespace TreeSync

open Node

variable {σ ε : Type}

/-- The last segment of an address is the key. -/
theorem Event.eq_of_address {e : Event} {init : List String} {last : String}
    (h : e.address = init ++ [last]) : e.path = init ∧ e.key = last := by
  obtain ⟨hpath, hkey⟩ := List.append_inj' h rfl
  exact ⟨hpath, List.head_eq_of_cons_eq hkey⟩

namespace Schema

variable {S : Schema σ} {o : Options} {e : Event} {n c d v : Node σ}
  {type name text : String} {i : Nat} {path path' : List String}

/-- Bracket groups describe an element of a list. -/
theorem ofKey_bracketed (htext : Key.Bracketed text) (o : Options) :
    Mode.ofKey o text = .content := by
  rw [Mode.ofKey, htext.isEmpty_eq, htext.isStructured]
  rfl

/-! ## Below layers -/

/-- What comes of a change at a node is what comes of a change of the part below its
layers.  Missing layers are filled first; an event that deletes fails at them. -/
structure Layered (S : Schema σ) (action : Action) (n : Node σ)
    (part : Node σ → Node σ × Except ε Unit) (whole : Node σ × Except ε Unit) : Prop where
  opened : n.isAllocated = true ∨ action ≠ .delete →
    whole = ((S.allocate n).withCore (part (S.allocate n).innermost).1,
      (part (S.allocate n).innermost).2)
  missing : action = .delete → n.isAllocated = false → ∃ err, whole = (n, .error err)

/-- What comes out the same below the layers comes out the same. -/
theorem Layered.sameOutcome {action : Action} {part part' : Node σ → Node σ × Except ε Unit}
    {whole whole' : Node σ × Except ε Unit} (h : S.Layered action n part whole)
    (h' : S.Layered action n part' whole')
    (hbelow : SameOutcome (part (S.allocate n).innermost) (part' (S.allocate n).innermost)) :
    SameOutcome whole whole' := by
  by_cases hopen : n.isAllocated = true ∨ action ≠ .delete
  · rw [h.opened hopen, h'.opened hopen]
    exact hbelow.around _
  · obtain ⟨halloc, haction⟩ := not_or.1 hopen
    rcases h.missing (not_not.1 haction) (Bool.eq_false_iff.2 halloc) with ⟨err, rfl⟩
    rcases h'.missing (not_not.1 haction) (Bool.eq_false_iff.2 halloc) with ⟨err', rfl⟩
    exact .failed n err err'

theorem layered_walk (hS : S.Sound False) (hn : S.Typed False n) (o : Options) (e : Event)
    (path : List String) :
    S.Layered e.action n (fun c => S.walk o e c path) (S.walk o e n path) := by
  refine ⟨fun h => ?_, fun haction halloc => walk_missing haction halloc path⟩
  by_cases haction : e.action = .delete
  · have halloc := h.resolve_right (not_not.2 haction)
    have hlift := walk_withCore hS (o := o) (e := e) (bare_innermost halloc)
      (fun hne => absurd haction hne) n path
    rw [withCore_innermost] at hlift
    rw [S.allocate_of_isAllocated halloc, hlift]
  · exact walk_allocate hS hn haction path

/-! ## Entries and elements -/

/-- A bare node that is no document stays as it is when it is entered. -/
theorem ready_of_ty_ne (hbare : d.Bare) (hty : d.ty ≠ .dynamic) : Ready d := by
  refine ⟨hbare, ?_⟩
  cases d with
  | dynamic document => exact absurd rfl hty
  | _ => rfl

/-- Bracket groups behind the name of a field lead below it where a segment of their
own leads. -/
theorem sameOutcome_walkItem (hS : S.Sound False) (hd : S.Typed False d) (hready : Ready d)
    (htext : Key.Bracketed text) (key : String) (rest : List String) :
    SameOutcome (S.walkItem o e d text .content key rest) (S.walk o e d (text :: rest)) := by
  by_cases hrecord : ∃ type fields, d.container = .record type fields
  · rcases hrecord with ⟨type, fields, hrecord⟩
    have hstep := walk_field hS (o := o) (e := e) hd hrecord text rest
    rw [slotOf_bracketed htext] at hstep
    rw [hstep, walkItem, findItem, createItem, hrecord]
    simp only [Functor.map, Except.map, ite_self]
    exact .failed d _ _
  · rw [walk_item hS hd hready fun type fields heq => hrecord ⟨type, fields, heq⟩,
      ofKey_bracketed htext, walkItem, walkItem]
    split
    · exact .failed _ _ _
    · split
      · exact .failed _ _ _
      · exact .refl _

/-- What an event does at its leaf to an entry or element. -/
def performItem (S : Schema σ) (o : Options) (e : Event) (c : Node σ) (text : String)
    (mode : Mode) : Node σ × Except SyncError Unit :=
  ofNavigation <|
    if e.action = .delete then
      match S.removeItem o c text mode with
      | .ok m => (m, .ok ())
      | .error err => (c, .error err)
    else S.putItem o e c text mode

/-- At the leaf, bracket groups behind the name of a field do what they do as a key. -/
theorem sameOutcome_performItem (hd : S.Typed False d) (hready : Ready d)
    (htext : Key.Bracketed text) (path : List String) :
    SameOutcome (S.performItem o e d text .content)
      (S.perform o { e with path := path, key := text } d) := by
  by_cases hrecord : ∃ type fields, d.container = .record type fields
  · rcases hrecord with ⟨type, fields, hrecord⟩
    have hleaf := perform_field (o := o) (e := { e with path := path, key := text }) hd hrecord
    rw [slotOf_bracketed htext] at hleaf
    rw [hleaf, performItem]
    by_cases haction : e.action = .delete
    · rw [if_pos haction, removeItem, hrecord]
      exact .failed d _ _
    · rw [if_neg haction, putItem]
      split
      · rw [shapeItem, hrecord]
        exact .failed d _ _
      · rw [writeItem, hrecord]
        exact .failed d _ _
  · have hother : ∀ type fields, d.container ≠ .record type fields :=
      fun type fields heq => hrecord ⟨type, fields, heq⟩
    rw [performItem]
    by_cases haction : e.action = .delete
    · rw [perform_of_delete (by exact haction), if_pos haction,
        remove_item hready.bare hother, ofKey_bracketed htext]
      cases S.removeItem o d text .content with
      | ok m => exact .refl _
      | error err => exact .refl _
    · rw [perform_item (by exact haction) hready hother, if_neg haction, ofKey_bracketed htext]
      exact .refl _

/-! ## Fields -/

/-- The name of a field leads to the field itself. -/
theorem layered_name (hS : S.Sound False) (hv : S.Typed False v) (o : Options) (e : Event)
    (key : String) (rest : List String) :
    S.Layered e.action v (fun d => S.walk o e d rest) (S.walkField o e "" key rest v) := by
  refine ⟨fun h => ?_, fun haction halloc => walkField_missing haction halloc "" key rest⟩
  rw [← (layered_walk hS hv o e rest).opened h, walkField]
  split
  · rename_i haction
    rw [core_eq_ok_innermost (h.resolve_right (not_not.2 haction))]
    rfl
  · rfl

/-- Bracket groups behind the name of a field go to what stands below its layers. -/
theorem layered_walkField (htext : text.isEmpty = false) (o : Options) (e : Event) (v : Node σ)
    (key : String) (rest : List String) :
    S.Layered e.action v (fun d => S.walkItem o e d text .content key rest)
      (S.walkField o e text key rest v) :=
  ⟨fun h => walkField_allocate htext h key rest,
    fun haction halloc => walkField_missing haction halloc text key rest⟩

theorem layered_performField (htext : text.isEmpty = false) (o : Options) (e : Event)
    (v : Node σ) :
    S.Layered e.action v (fun d => S.performItem o e d text .content)
      (S.performField o e text v) := by
  have hne : ¬ text.isEmpty = true := by simp [htext]
  constructor
  · intro h
    by_cases haction : e.action = .delete
    · have halloc := h.resolve_right (not_not.2 haction)
      rw [performField, if_pos haction, if_neg hne, core_eq_ok_innermost halloc,
        S.allocate_of_isAllocated halloc, performItem, if_pos haction]
      cases hitem : S.removeItem o v.innermost text .content with
      | ok m => simp only [hitem, ofNavigation]
      | error err => simp only [hitem, ofNavigation, withCore_innermost]
    · rw [performField_of_ne haction, if_neg hne, performItem, if_neg haction]
      rfl
  · intro haction halloc
    rcases exists_core_eq_error halloc with ⟨t, ht⟩
    rw [performField, if_pos haction, if_neg hne, ht]
    exact ⟨_, rfl⟩

/-- What stands below the filled layers of a slot that is no document can be entered. -/
theorem ready_innermost_allocate (hty : v.ty.core ≠ .dynamic) :
    Ready (S.allocate v).innermost := by
  refine ready_of_ty_ne (S.bare_innermost_allocate v) ?_
  rwa [S.ty_innermost_allocate v]

/-- A step with bracket groups behind the name of a field is two steps. -/
theorem sameOutcome_walkField (hS : S.Sound False) (hv : S.Typed False v)
    (hty : v.ty.core ≠ .dynamic) (htext : Key.Bracketed text) (key name : String)
    (rest : List String) :
    SameOutcome (S.walkField o e text key rest v) (S.walkField o e "" name (text :: rest) v) := by
  have hbelow := ((keeps_allocate hS v).typed hv).innermost
  refine (layered_walkField htext.isEmpty_eq o e v key rest).sameOutcome
    (layered_name hS hv o e name (text :: rest)) ?_
  exact sameOutcome_walkItem hS hbelow (ready_innermost_allocate hty) htext key rest

/-- An action with bracket groups behind the name of a field is a step and an action. -/
theorem sameOutcome_performField (hS : S.Sound False) (hv : S.Typed False v)
    (hty : v.ty.core ≠ .dynamic) (htext : Key.Bracketed text) (name : String)
    (path : List String) :
    SameOutcome (S.performField o e text v)
      (S.walkField o { e with path := path, key := text } "" name [] v) := by
  have hbelow := ((keeps_allocate hS v).typed hv).innermost
  refine (layered_performField htext.isEmpty_eq o e v).sameOutcome
    (layered_name hS hv o { e with path := path, key := text } name []) ?_
  exact sameOutcome_performItem hbelow (ready_innermost_allocate hty) htext path

/-! ## Records -/

/-- A name without brackets stands for a field of a record type that events can write and
that holds no document. -/
structure SettableField (S : Schema σ) (o : Options) (owner field : String) (i : Nat) : Prop where
  plain : ∀ c ∈ field.toList, c ≠ '[' ∧ c ≠ ']'
  field_eq : S.fieldOf? o true owner field = .ok i
  no_document : ((S.signature owner)[i]?).map (fun f => f.2.core) ≠ some .dynamic

section Record

variable {fields : List (Field × Node σ)}

/-- The name leads to the field. -/
theorem SettableField.slotOf_name (h : S.SettableField o type name i) :
    S.slotOf? o false type name = .ok (i, "") := by
  have hplain : Key.isStructured name = false := by
    rw [Bool.eq_false_iff, Key.isStructured, ne_eq, List.contains_iff_mem]
    exact fun hmem => (h.plain _ hmem).1 rfl
  have hread := fieldOf_read h.field_eq
  have hne : name.isEmpty = false := by
    rw [Bool.eq_false_iff]
    intro hempty
    obtain rfl : name = "" := by simpa using hempty
    simp [fieldOf_empty] at hread
  rw [slotOf?, Key.require, hne, splitField_of_plain hplain]
  simp only [bind, Except.bind, hread]
  rfl

theorem SettableField.core_ne (h : S.SettableField o type name i) (hc : S.Typed False c)
    (hrecord : c.container = .record type fields) (hv : c.child? (.field i) = some v) :
    v.ty.core ≠ .dynamic := by
  rcases Option.map_eq_some_iff.1 (ty_of_field hc hrecord hv) with ⟨f, hf, hty⟩
  intro hdynamic
  exact h.no_document (by rw [hf, Option.map_some, hty, hdynamic])

/-- At a record a segment with bracket groups behind the name of a field does what the
name and the groups do as two segments. -/
theorem sameOutcome_walk (hS : S.Sound False) (hc : S.Typed False c)
    (hrecord : c.container = .record type fields) (hfield : S.SettableField o type name i)
    (htext : Key.Bracketed text) (rest : List String) :
    SameOutcome (S.walk o e c ((name ++ text) :: rest)) (S.walk o e c (name :: text :: rest)) := by
  have hjoined := walk_field hS (o := o) (e := e) hc hrecord (name ++ text) rest
  rw [slotOf_append hfield.plain htext (fieldOf_read hfield.field_eq)] at hjoined
  rcases hjoined with ⟨v, hv, hjoined⟩
  rw [hjoined, walk_slot hS hc hrecord hv hfield.slotOf_name]
  exact (sameOutcome_walkField hS (hc.child hv) (hfield.core_ne hc hrecord hv) htext _ name
    rest).putBack c _

/-- At a record a key with bracket groups behind the name of a field does what the name
does as a segment and the groups as a key. -/
theorem sameOutcome_perform (hS : S.Sound False) (hc : S.Typed False c)
    (hrecord : c.container = .record type fields) (hfield : S.SettableField o type name i)
    (htext : Key.Bracketed text) (hkey : e.key = name ++ text) (path : List String) :
    SameOutcome (S.perform o e c) (S.walk o { e with path := path, key := text } c [name]) := by
  have hleaf := perform_field (o := o) (e := e) hc hrecord
  rw [hkey, slotOf_append hfield.plain htext hfield.field_eq] at hleaf
  rcases hleaf with ⟨v, hv, hleaf⟩
  have hchild := hc.child hv
  rw [hleaf hchild.isEnclosing_eq_false, walk_slot hS hc hrecord hv hfield.slotOf_name]
  exact (sameOutcome_performField hS hchild (hfield.core_ne hc hrecord hv) htext name
    path).putBack c _

end Record

/-! ## The way to the record -/

/-- Events of one action that come out the same at the records of a type come out the
same at layers around one. -/
theorem sameOutcome_layers (hS : S.Sound False) (hn : S.Typed False n)
    (hrecord : n.ty.core = .record type) {e' : Event} (haction : e'.action = e.action)
    (hbelow : ∀ c fields, S.Typed False c → c.container = .record type fields →
      SameOutcome (S.walk o e c path) (S.walk o e' c path')) :
    SameOutcome (S.walk o e n path) (S.walk o e' n path') := by
  have hcore := ((keeps_allocate hS n).typed hn).innermost
  rcases eq_record_of_ty hcore.isEnclosing_eq_false
    ((S.ty_innermost_allocate n).trans hrecord) with ⟨fields, state, heq⟩
  have hlayered := layered_walk hS hn o e' path'
  rw [haction] at hlayered
  exact (layered_walk hS hn o e path).sameOutcome hlayered
    (hbelow _ fields hcore (congrArg container heq))

/-- Events of one action that come out the same at the node behind a common prefix come
out the same at the node in front of it. -/
theorem sameOutcome_append (hS : S.Sound False) (hn : S.Typed False n) {e' : Event}
    (haction : e'.action = e.action) {before : List String}
    (hbehind : ∀ m, (S.visited o e.action n before)[before.length]? = some m →
      S.Typed False m → SameOutcome (S.walk o e m path) (S.walk o e' m path')) :
    SameOutcome (S.walk o e n (before ++ path)) (S.walk o e' n (before ++ path')) := by
  induction before generalizing n with
  | nil => exact hbehind n (visited_zero n []) hn
  | cons key rest ih =>
      have hkeeps := keeps_enter hS (o := o) e.action n key
      rw [List.cons_append, List.cons_append, walk_cons hS hn, walk_cons hS hn, haction]
      rcases henter : S.enter o e.action n key with ⟨m, _ | a⟩
      · exact .refl _
      · cases hchild : m.get? a with
        | none =>
            simp only [hchild]
            exact .refl _
        | some child =>
            rw [henter] at hkeeps
            simp only [hchild]
            refine (ih ((hkeeps.typed hn).get hchild) fun w hw => ?_).putBack m a
            rw [← visited_succ henter hchild] at hw
            exact hbehind w hw

/-! ## Events -/

/-- A walk does not read the path of its event. -/
theorem walk_with_path (S : Schema σ) (o : Options) (e : Event) (q : List String) (n : Node σ)
    (path : List String) : S.walk o { e with path := q } n path = S.walk o e n path := by
  induction path generalizing n with
  | nil => rfl
  | cons key rest ih =>
      rw [walk, walk]
      simp only [ih]

section Suffixed

variable {target : Node σ} {before : List String}

/-- Events of one action that come out the same at the records of a type come out the
same on the way to one. -/
theorem sameOutcome_at_record (hS : S.Sound False) (htarget : S.Typed False target)
    (hnode : (S.visited o e.action target before)[before.length]? = some n)
    (hrecord : n.ty.core = .record type) {e' : Event} (haction : e'.action = e.action)
    (hhere : ∀ c fields, S.Typed False c → c.container = .record type fields →
      SameOutcome (S.walk o e c path) (S.walk o e' c path')) :
    SameOutcome (S.walk o e target (before ++ path)) (S.walk o e' target (before ++ path')) := by
  refine sameOutcome_append hS htarget haction fun m hm htyped => ?_
  obtain rfl := Option.some.inj (hnode.symm.trans hm)
  exact sameOutcome_layers hS htyped hrecord haction hhere

/-- An event that addresses a child of a field by bracket groups behind the name of the
field, and the same event with the groups in a segment of their own, leave the same
target and fail together. -/
theorem apply_suffixed (hS : S.Sound False) (hfree : S.OverrideFree)
    (htarget : S.Typed False target) {e e' : Event}
    (hsame : e' = { e with path := e'.path, key := e'.key }) {after : List String}
    (hjoined : e.address = before ++ (name ++ text) :: after)
    (hsplit : e'.address = before ++ name :: text :: after)
    (hnode : (S.visited o e.action target before)[before.length]? = some n)
    (hrecord : n.ty.core = .record type) (hfield : S.SettableField o type name i)
    (htext : Key.Bracketed text) :
    SameOutcome (S.apply o e target) (S.apply o e' target) := by
  have happly : ∀ x : Event, x.isRoot = false → S.apply o x target = S.walk o x target x.path :=
    fun x hx => apply_of_silent htarget (hfree.silent target) hx
  rcases List.eq_nil_or_concat after with rfl | ⟨rest, last, rfl⟩
  · -- The segment ends the address, so the groups are the key or its end.
    have hsplit : e'.address = before ++ [name] ++ [text] := by simpa using hsplit
    obtain ⟨hpath, hkey⟩ := Event.eq_of_address hjoined
    obtain ⟨hpath', hkey'⟩ := Event.eq_of_address hsplit
    rw [hkey'] at hsame
    have htail : text ≠ "" := by simpa using htext.isEmpty_eq
    have hroot : e.isRoot = false := by simp [Event.isRoot, hkey, htail]
    have hroot' : e'.isRoot = false := by simp [Event.isRoot, hpath']
    have haction : e'.action = e.action := by rw [hsame]
    have hleaf : SameOutcome (S.walk o e target (before ++ []))
        (S.walk o e' target (before ++ [name])) := by
      refine sameOutcome_at_record hS htarget hnode hrecord haction fun c fields hc hfields => ?_
      rw [hsame]
      exact sameOutcome_perform hS hc hfields hfield htext hkey e'.path
    rw [List.append_nil] at hleaf
    rwa [happly e hroot, happly e' hroot', hpath, hpath']
  · -- Both events end in the same key, and only their paths differ.
    have hjoined : e.address = before ++ (name ++ text) :: rest ++ [last] := by
      simpa using hjoined
    have hsplit : e'.address = before ++ name :: text :: rest ++ [last] := by
      simpa using hsplit
    obtain ⟨hpath, hkey⟩ := Event.eq_of_address hjoined
    obtain ⟨hpath', hkey'⟩ := Event.eq_of_address hsplit
    rw [hkey', ← hkey] at hsame
    have hroot : e.isRoot = false := by simp [Event.isRoot, hpath]
    have hroot' : e'.isRoot = false := by simp [Event.isRoot, hpath']
    rw [happly e hroot, happly e' hroot', hpath, hpath', hsame, walk_with_path S o e e'.path]
    exact sameOutcome_at_record hS htarget hnode hrecord rfl fun c fields hc hfields =>
      sameOutcome_walk hS hc hfields hfield htext rest

/-- A limit is made under the groups as its key, however they are spelled. -/
theorem apply_suffixed_quota :
    let target := quota.zero (.record "Quota")
    let joined : Event := ⟨.create, [], "limits[cpu]", .scalar .int, "7", none⟩
    let split : Event := ⟨.create, ["limits"], "[cpu]", .scalar .int, "7", none⟩
    (quota.apply {} joined target).2.isOk = true ∧
      ((quota.apply {} joined target).1.get?
        [.field 0, .pointee, .entry (.text "[cpu]")]).isSome = true ∧
      SameOutcome (quota.apply {} joined target) (quota.apply {} split target) := by
  intro target joined split
  have hS : quota.Sound False := by
    refine sound_of_tree fun d hd f hf => ?_
    obtain rfl := List.mem_singleton.1 hd
    obtain rfl := List.mem_singleton.1 hf
    exact .absent _
  have hfree : quota.OverrideFree := by
    intro d hd state
    obtain rfl := List.mem_singleton.1 hd
    rfl
  have hlimits : quota.SettableField {} "Quota" "limits" 0 := by
    have hmap : ((quota.signature "Quota")[0]?).map (fun f => f.2.core) =
        some (.map .sorted .string (.scalar (.int .u8))) := rfl
    exact ⟨by simp, by rfl, by simp [hmap]⟩
  have hcut : Key.cut "[cpu]" = .ok ⟨[], [("cpu".toList, [])]⟩ :=
    eq_ok_of_toOption (by decide +kernel)
  have hcpu : Key.Bracketed "[cpu]" := ⟨_, by decide, hcut, by simp⟩
  have hjoined : joined.address = [] ++ ("limits" ++ "[cpu]") :: [] := rfl
  have hsplit : split.address = [] ++ "limits" :: "[cpu]" :: [] := rfl
  refine ⟨by decide +kernel, by decide +kernel, ?_⟩
  exact apply_suffixed hS hfree (typed_zero hS _) rfl hjoined hsplit (visited_zero target [])
    rfl hlimits hcpu

end Suffixed

end Schema

end TreeSync
