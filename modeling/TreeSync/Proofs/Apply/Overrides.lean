import TreeSync.Proofs.Apply.Unread
import TreeSync.Proofs.Apply.Asking
import TreeSync.Proofs.Apply.Locality

/-!
# Events that a record takes over

An event first asks the records along its path, as far as the path resolves, for
overrides.  The deepest record that exposes one receives the event in one call,
and the answer to the call is the outcome.  Where no record exposes an override the
event walks its path, and no override is called.

Main definitions and results:

- `SegmentCall.For`, `PathCall.For` and `Override.Delivers`: the call of an
  override for an event.
- `Schema.probe_eq`: the probe finds the deepest override.
- `Schema.delegate_eq`: the second walk leads to the same record.
- `Schema.apply_override`: which override an event calls.
-/

namespace TreeSync

open Node

/-! ## Calls -/

/-- The call of a segment override for an event whose remaining path is `path`. -/
inductive SegmentCall.For (e : Event) (path : List String) : SegmentCall → Prop where
  | create (h : e.action = .create) : For e path (.create path e.key e.tag e.value)
  | replace (h : e.action = .replace) : For e path (.replace path e.key e.tag e.value)
  | delete (h : e.action = .delete) : For e path (.delete path e.key)

/-- The path text and the value in a call of a path override.  A member of a set is
the value at the path of the set. -/
inductive PathCall.Addresses (e : Event) (path : List String) : String → String → Prop where
  | member (h : e.isSetMember = true) : Addresses e path (Path.render path) e.key
  | keyless (h : e.isSetMember = false) (hkey : e.key = "") :
      Addresses e path (Path.render path) e.value
  | keyed (h : e.isSetMember = false) (hkey : e.key ≠ "") :
      Addresses e path (Path.render (path ++ [e.key])) e.value

/-- The call of a path override for an event whose remaining path is `path`. -/
inductive PathCall.For (e : Event) (path : List String) : PathCall → Prop where
  | create {text value : String} (h : e.action = .create) (ht : Addresses e path text value) :
      For e path (.create text value)
  | replace {text value : String} (h : e.action = .replace) (ht : Addresses e path text value) :
      For e path (.replace text value)
  | delete {text value : String} (h : e.action = .delete) (ht : Addresses e path text value) :
      For e path (.delete text)

variable {σ : Type}

/-- What a record answers to the one call of its override for an event. -/
inductive Override.Delivers (e : Event) (path : List String) (record : Node σ) :
    Override σ → Node σ × Except SyncError Unit → Prop where
  | segments {handle : SegmentCall → Node σ → Node σ × Except SyncError Unit}
      {call : SegmentCall} (h : call.For e path) :
      Delivers e path record (.segments handle) (handle call record)
  | paths {handle : PathCall → Node σ → Node σ × Except SyncError Unit} {call : PathCall}
      (h : call.For e path) : Delivers e path record (.paths handle) (handle call record)

theorem SegmentCall.for_iff {e : Event} {path : List String} {call : SegmentCall} :
    call.For e path ↔ call = .ofEvent e path := by
  constructor
  · rintro (h | h | h) <;> rw [ofEvent, h]
  · rintro rfl
    rw [ofEvent]
    cases h : e.action with
    | create => exact .create h
    | replace => exact .replace h
    | delete => exact .delete h

theorem PathCall.addresses_iff {e : Event} {path : List String} {text value : String} :
    Addresses e path text value ↔
      text = Path.render (if e.isSetMember || e.key.isEmpty then path else path ++ [e.key]) ∧
        value = if e.isSetMember then e.key else e.value := by
  have hempty : e.key = "" ↔ e.key.isEmpty = true := String.isEmpty_iff.symm
  constructor
  · rintro (h | ⟨h, hkey⟩ | ⟨h, hkey⟩)
    · simp [h]
    · simp [h, hkey]
    · simp [h, hkey]
  · rintro ⟨rfl, rfl⟩
    cases h : e.isSetMember with
    | true => simpa using @Addresses.member e path h
    | false =>
        by_cases hkey : e.key = ""
        · simpa [hkey] using @Addresses.keyless e path h hkey
        · simpa [hkey] using @Addresses.keyed e path h hkey

theorem PathCall.for_iff {e : Event} {path : List String} {call : PathCall} :
    call.For e path ↔ call = .ofEvent e path := by
  constructor
  · rintro (⟨h, ht⟩ | ⟨h, ht⟩ | ⟨h, ht⟩) <;>
      · obtain ⟨rfl, rfl⟩ := addresses_iff.1 ht
        rw [ofEvent, h]
  · rintro rfl
    have ht := (@addresses_iff e path _ _).2 ⟨rfl, rfl⟩
    rw [ofEvent]
    cases h : e.action with
    | create => exact .create h ht
    | replace => exact .replace h ht
    | delete => exact .delete h ht

/-- There is one call of an override for an event. -/
theorem Override.delivers_iff {override : Override σ} {e : Event} {path : List String}
    {record : Node σ} {outcome : Node σ × Except SyncError Unit} :
    override.Delivers e path record outcome ↔ outcome = override.handle e path record := by
  constructor
  · rintro (h | h)
    · rw [handle, SegmentCall.for_iff.1 h]
    · rw [handle, PathCall.for_iff.1 h]
  · rintro rfl
    cases override with
    | segments f => exact .segments (SegmentCall.for_iff.2 rfl)
    | paths f => exact .paths (PathCall.for_iff.2 rfl)

namespace Schema

variable {S : Schema σ} {o : Options} {loops : Prop} {e : Event} {n : Node σ}

/-! ## Probing -/

/-- The position of the last yes. -/
def deepest : List Bool → Option Nat
  | [] => none
  | answer :: rest => ((deepest rest).map (· + 1)).or (if answer then some 0 else none)

theorem deepest_eq_none {answers : List Bool} (h : ∀ b ∈ answers, b = false) :
    deepest answers = none := by
  induction answers with
  | nil => rfl
  | cons b rest ih =>
      rw [deepest, ih fun c hc => h c (List.mem_cons_of_mem b hc), h b List.mem_cons_self]
      rfl

theorem deepest_eq_some {answers : List Bool} {i : Nat} (hi : answers[i]? = some true)
    (hbelow : ∀ j b, i < j → answers[j]? = some b → b = false) : deepest answers = some i := by
  induction answers generalizing i with
  | nil => simp at hi
  | cons b rest ih =>
      cases i with
      | zero =>
          have hnone : deepest rest = none := by
            refine deepest_eq_none fun c hc => ?_
            rcases List.getElem?_of_mem hc with ⟨j, hj⟩
            exact hbelow (j + 1) c (Nat.succ_pos j) hj
          obtain rfl := Option.some.inj hi
          rw [deepest, hnone]
          rfl
      | succ i =>
          rw [deepest, ih hi fun j c hj hc => hbelow (j + 1) c (Nat.succ_lt_succ hj) hc]
          rfl

theorem depth_here (n : Node σ) :
    ((S.ask n.innermost).2.map fun _ => 0) = if S.exposes n then some 0 else none := by
  rw [exposes]
  cases (S.ask n.innermost).2 <;> rfl

/-- The probe asks records and does nothing else, and finds the deepest override. -/
theorem probe_eq (hn : S.Typed loops n) (hstable : S.Stable n) (path : List String) :
    S.Asked n (S.probe o n path).1 ∧ (S.probe o n path).2 = deepest (S.exposed o n path) := by
  induction path generalizing n with
  | nil => exact ⟨S.asked_here n, depth_here n⟩
  | cons key rest ih =>
      -- The probe goes on in the node after the first answer, where the path leads
      -- to the same places.
      have hasked := S.asked_here n
      rw [← hstable.exposed_eq hn hasked (key :: rest), probe]
      simp only [putBack, depth_here, ← hstable _ hasked [] _ _ rfl rfl]
      replace hstable := hstable.asked hn hasked
      replace hn := hasked.keeps.typed hn
      generalize n.replaceAt n.coreAddress (S.ask n.innermost).1 = m at *
      cases hfind : S.find o m key (.ofKey o key) with
      | error err =>
          rw [exposed_of_error hfind]
          exact ⟨hasked, rfl⟩
      | ok place =>
          have hget := get?_find hfind
          rcases ih (hn.get hget) (hstable.get hn hget) with ⟨hbelow, hdepth⟩
          rw [exposed_of_ok hfind, deepest, ← hdepth]
          exact ⟨hasked.trans (hbelow.replaceAt hn hget), rfl⟩

/-! ## Delegating -/

/-- Handing the event over to a record at the end of the way. -/
theorem delegate_zero {override : Override σ} (h : (S.ask n.innermost).2 = some override)
    (path : List String) :
    S.delegate o e n path 0 =
      n.putBack n.coreAddress (override.handle e path (S.ask n.innermost).1) := by
  have hcore : n.core = .ok n.innermost :=
    core_of_exposes (S := S) (by rw [exposes, h]; rfl)
  cases hask : S.ask n.innermost with
  | mk c answer =>
      obtain rfl : answer = some override := by simpa [hask] using h
      cases path <;> simp only [delegate, hcore, hask]

/-- Delegation leads to the record that the path reaches at a depth, and changes
nothing else. -/
theorem delegate_eq {path : List String} {i : Nat} {place : Place σ} {override : Override σ}
    (hplace : (S.reached o n path)[i]? = some place)
    (h : (S.ask place.node.innermost).2 = some override) :
    S.delegate o e n path i =
      n.putBack (place.address ++ place.node.coreAddress)
        (override.handle e (path.drop i) (S.ask place.node.innermost).1) := by
  induction i generalizing n path place with
  | zero =>
      obtain rfl : ⟨[], n⟩ = place := by
        cases path <;> exact Option.some.inj hplace
      exact delegate_zero h path
  | succ i ih =>
      cases path with
      | nil => simp [reached] at hplace
      | cons key rest =>
          cases hfind : S.find o n key (.ofKey o key) with
          | error err => simp [reached_of_error hfind] at hplace
          | ok first =>
              rw [reached_of_ok hfind, List.getElem?_cons_succ, List.getElem?_map] at hplace
              rcases Option.map_eq_some_iff.1 hplace with ⟨q, hq, rfl⟩
              rw [delegate, hfind]
              simp only [Place.under, List.append_assoc, List.drop_succ_cons]
              rw [putBack_append (get?_find hfind), ih hq h]

/-! ## Events -/

/-- The deepest record on the way of an event that exposes an override receives the
event. -/
theorem exists_delivers {target : Node σ} (htarget : S.Typed loops target)
    (hstable : S.Stable target) (hroot : e.isRoot = false) {i : Nat} {place : Place σ}
    (hplace : (S.reached o target e.path)[i]? = some place)
    (hexposes : S.exposes place.node = true)
    (hbelow : ∀ j below, i < j → (S.reached o target e.path)[j]? = some below →
      S.exposes below.node = false) :
    ∃ asked record override outcome,
      S.Asked target asked ∧
      asked.get? (place.address ++ place.node.coreAddress) = some record ∧
      (S.ask record).2 = some override ∧
      override.Delivers e (e.path.drop i) (S.ask record).1 outcome ∧
      S.apply o e target = asked.putBack (place.address ++ place.node.coreAddress) outcome := by
  rcases probe_eq (o := o) htarget hstable e.path with ⟨hasked, hdepth⟩
  have hdeepest : deepest (S.exposed o target e.path) = some i := by
    refine deepest_eq_some ?_ fun j b hj hb => ?_
    · rw [exposed, List.getElem?_map, hplace, Option.map_some, hexposes]
    · rw [exposed, List.getElem?_map] at hb
      rcases Option.map_eq_some_iff.1 hb with ⟨below, hget, rfl⟩
      exact hbelow j below hj hget
  cases hprobe : S.probe o target e.path with
  | mk asked depth =>
      rw [hprobe] at hasked hdepth
      obtain rfl : depth = some i := hdepth.trans hdeepest
      rcases hstable.exists_reached htarget hasked hplace with
        ⟨found, hfound, haddress, hcore, hsame⟩
      rcases Option.isSome_iff_exists.1 (hsame.trans hexposes) with ⟨override, hoverride⟩
      refine ⟨asked, found.node.innermost, override, _, hasked, ?_, hoverride,
        Override.delivers_iff.2 rfl, ?_⟩
      · rw [← haddress, ← hcore, get?_append,
          get?_of_mem_reached (List.mem_of_getElem? hfound), Option.bind_some, get?_coreAddress]
      · rw [apply, hroot, hprobe, ← haddress, ← hcore]
        exact delegate_eq hfound hoverride

/-- The deepest record on the way of an event that exposes an override receives the
event, in one call, with what is left of the path.  Before the call records are only
asked, and after the call the answer of the record is put in its place.  Where no
record on the way exposes an override, none is called. -/
theorem apply_override {target : Node σ} (htarget : S.Typed loops target)
    (hstable : S.Stable target) (hroot : e.isRoot = false) :
    (∀ i place, (S.reached o target e.path)[i]? = some place → S.exposes place.node = true →
      (∀ j below, i < j → (S.reached o target e.path)[j]? = some below →
        S.exposes below.node = false) →
      ∃ asked record override outcome,
        S.Asked target asked ∧
        asked.get? (place.address ++ place.node.coreAddress) = some record ∧
        (S.ask record).2 = some override ∧
        override.Delivers e (e.path.drop i) (S.ask record).1 outcome ∧
        S.apply o e target = asked.putBack (place.address ++ place.node.coreAddress) outcome) ∧
    ((∀ place ∈ S.reached o target e.path, S.exposes place.node = false) →
      ∃ asked, S.Asked target asked ∧ S.apply o e target = S.muted.apply o e asked) := by
  refine ⟨fun i place => exists_delivers htarget hstable hroot, fun hnone => ?_⟩
  rcases probe_eq (o := o) htarget hstable e.path with ⟨hasked, hdepth⟩
  have hdeepest : deepest (S.exposed o target e.path) = none := by
    refine deepest_eq_none fun b hb => ?_
    rcases List.mem_map.1 hb with ⟨place, hplace, rfl⟩
    exact hnone place hplace
  cases hprobe : S.probe o target e.path with
  | mk asked depth =>
      rw [hprobe] at hasked hdepth
      obtain rfl : depth = none := hdepth.trans hdeepest
      refine ⟨asked, hasked, ?_⟩
      rw [apply_muted o (hasked.keeps.typed htarget) hroot, apply, hroot, hprobe]
      rfl

theorem label_ne_empty : "label" ≠ "" := by decide

/-- A cabinet of drawers.  Both take events over, and both count how often they are
asked; a drawer refuses every event but the one that labels it. -/
def cabinet : Schema Nat :=
  ((empty 0).declare "Drawer"
      [(⟨"label", none, true, label_ne_empty, Field.none_ne_empty⟩, .scalar .string)] 0
      fun asked => (asked + 1, some (.segments fun call drawer =>
        match call with
        | .create [] "label" _ _ => (drawer, .ok ())
        | _ => (drawer, .error (.rejected "not a label"))))).declare "Cabinet"
    [(⟨"drawers", none, true, by decide, Field.none_ne_empty⟩, .list (.record "Drawer"))] 0
    fun asked => (asked + 1, some (.paths fun _ cabinet =>
      (cabinet, .error (.rejected "locked"))))

/-- The first drawer receives its label, although the cabinet around it exposes an
override too. -/
theorem apply_override_cabinet :
    let drawer : Node Nat := .record "Drawer"
      [(⟨"label", none, true, by decide, by decide⟩, .scalar (.text ""))] 0
    let target : Node Nat := .record "Cabinet"
      [(⟨"drawers", none, true, by decide, by decide⟩, .list (.record "Drawer") [drawer])] 0
    let e : Event := ⟨.create, ["drawers", "0"], "label", .scalar .str, "tools", none⟩
    (cabinet.apply {} e target).2 = .ok () ∧
    ∃ asked record override outcome,
      cabinet.Asked target asked ∧
      asked.get? [.field 0, .element 0] = some record ∧
      (cabinet.ask record).2 = some override ∧
      override.Delivers e [] (cabinet.ask record).1 outcome ∧
      cabinet.apply {} e target = asked.putBack [.field 0, .element 0] outcome := by
  intro drawer target e
  have hdrawer : cabinet.Typed False drawer := by
    refine .record_of_tree rfl fun f hf => ?_
    obtain rfl := List.mem_singleton.1 hf
    exact .scalar _
  have htarget : cabinet.Typed False target := by
    refine .record_of_tree rfl fun f hf => ?_
    obtain rfl := List.mem_singleton.1 hf
    exact .list (by simp [drawer, Node.ty]) (by simpa using hdrawer)
  have hstable : cabinet.Stable target := by
    refine stable_of_steady (fun d hd s t => ?_) htarget
    rcases List.mem_cons.1 hd with rfl | hd
    · rfl
    · obtain rfl := List.mem_singleton.1 hd
      rfl
  have hplaces : cabinet.reached {} target e.path =
      [⟨[], target⟩, ⟨[.field 0], .list (.record "Drawer") [drawer]⟩,
        ⟨[.field 0, .element 0], drawer⟩] := rfl
  refine ⟨rfl, (apply_override htarget hstable rfl).1 2 ⟨[.field 0, .element 0], drawer⟩ ?_ rfl ?_⟩
  · rw [hplaces]
    rfl
  · intro j below hj hbelow
    rw [hplaces, List.getElem?_eq_none (Nat.succ_le_of_lt hj)] at hbelow
    simp at hbelow

end Schema

end TreeSync
