import Mathlib.Data.Finset.Basic
import Mathlib.Data.Finset.Dedup
import TreeSync.Proofs.Apply.ContentKeys
import TreeSync.Proofs.Apply.Documents
import TreeSync.Proofs.Apply.Visiting
import TreeSync.Proofs.Navigate.Described

/-!
# Lists of strings as sets

Where list keys describe content, a plain key stands for the string that it is.  So a
list of strings works like a set: creating adds a member that is missing behind the
others, deleting takes the member out, and nothing else of the target changes.

Main definitions and results:

- `Schema.Addresses`: a path that leads to a node and meets no override.
- `Schema.apply_addressed`: an event works at the node that its path addresses.
- `TextForm`: lists of strings.
- `Event.members`: what an event makes of the members.
- `Schema.apply_strings`, `Schema.apply_member_replaceAt`: one event.
- `Schema.run_members`: runs of events on one list.
-/

namespace TreeSync

open Node

variable {σ : Type}

namespace Schema

variable {S : Schema σ} {o : Options} {loops : Prop} {e : Event} {n v : Node σ}
  {path : List String} {a : Address}

/-! ## The way to a node -/

/-- A path leads to the node at an address.  No record on the way takes over events, and
no step comes back to the record that it left. -/
inductive Addresses (S : Schema σ) (o : Options) : Node σ → List String → Address → Prop where
  /-- The path ends. -/
  | here {n : Node σ} (silent : S.ask n.innermost = (n.innermost, none)) : Addresses S o n [] []
  /-- The path leads on. -/
  | step {n : Node σ} {key : String} {rest : List String} {place : Place σ} {a : Address}
      (silent : S.ask n.innermost = (n.innermost, none))
      (found : S.find o n key (.ofKey o key) = .ok place)
      (away : place.address ++ place.node.coreAddress ≠ n.coreAddress)
      (below : Addresses S o place.node rest a) : Addresses S o n (key :: rest) (place.address ++ a)

/-- Where a path leads to what has a value, everything on the way has one. -/
theorem Addresses.isAllocated (h : S.Addresses o n path a) (hv : n.get? a = some v)
    (halloc : v.isAllocated = true) : n.isAllocated = true := by
  cases h with
  | here =>
      obtain rfl := Option.some.inj hv
      exact halloc
  | step _ found => exact isAllocated_of_find found

/-- The probe of such a path finds no override and changes nothing. -/
theorem Addresses.probe_eq (hn : S.Typed loops n) (h : S.Addresses o n path a) :
    S.probe o n path = (n, none) := by
  induction h with
  | here silent =>
      rw [probe, silent, putBack, hn.replaceAt_self (get?_coreAddress _)]
      rfl
  | step silent found _ _ ih =>
      have hget := get?_find found
      rw [probe, silent, putBack, hn.replaceAt_self (get?_coreAddress _)]
      simp only [found, ih (hn.get hget), putBack, hn.replaceAt_self hget]
      rfl

/-- A walk along the path ends at the node, and what happens there is put back. -/
theorem Addresses.walk_eq (hS : S.Sound loops) (hn : S.Typed loops n)
    (h : S.Addresses o n path a) (hv : n.get? a = some v) (halloc : v.isAllocated = true) :
    S.walk o e n path = n.putBack a (S.perform o e v) := by
  induction h with
  | here =>
      obtain rfl := Option.some.inj hv
      rfl
  | @step n key rest place a _ found away below ih =>
      have hget := get?_find found
      have hbelow : place.node.get? a = some v := by
        rw [get?_append, hget] at hv
        exact hv
      have hwalk := ih (hn.get hget) hbelow
      have hput : n.putBack (place.address ++ a) (S.perform o e v) =
          n.putBack place.address (S.walk o e place.node rest) := by
        rw [hwalk, putBack_append hget]
      rw [hput, walk]
      by_cases haction : e.action = .delete
      · rw [haction, enter_delete, found]
        simp only [Functor.map, Except.map, hget]
        exact if_neg fun hcycle => away hcycle.2
      · have hfilled := below.isAllocated hbelow halloc
        have hinner : n.get? (place.address ++ place.node.coreAddress) =
            some place.node.innermost := by
          rw [get?_append, hget]
          exact get?_coreAddress place.node
        have hbare := bare_innermost hfilled
        rw [enter_of_find hn haction found, S.allocate_of_isAllocated hfilled,
          hn.replaceAt_self hget]
        simp only [hinner, coreAddress_of_bare hbare, List.append_nil]
        rw [if_neg fun hcycle => away hcycle.2, walk_innermost hS hfilled haction,
          putBack_append hget]
        rfl

/-- An event below the path works at the node, and changes nothing else. -/
theorem apply_addressed (hS : S.Sound loops) (hn : S.Typed loops n)
    (h : S.Addresses o n e.path a) (hv : n.get? a = some v) (halloc : v.isAllocated = true)
    (hroot : e.isRoot = false) : S.apply o e n = n.putBack a (S.perform o e v) := by
  rw [apply, hroot, h.probe_eq hn]
  exact h.walk_eq hS hn hv halloc

end Schema

/-! ## Lists of strings -/

/-- How a list holds strings. -/
inductive TextForm where
  /-- As scalars of a list of strings. -/
  | scalar
  /-- As documents of a sequence. -/
  | document

namespace TextForm

/-- The type of the elements. -/
def elem : TextForm → Ty
  | scalar => .scalar .string
  | document => .dynamic

/-- The element that holds a string. -/
def item : TextForm → String → Node σ
  | scalar, s => .scalar (.text s)
  | document, s => .dynamic (.text s)

/-- The list that holds strings. -/
def list : TextForm → List String → Node σ
  | scalar, ms => .list (.scalar .string) (ms.map (item scalar))
  | document, ms => .dynamic (.seq (ms.map .text))

variable (form : TextForm) (ms : List String) (key : String)

theorem container_list :
    (form.list ms : Node σ).container = .list form.elem (ms.map form.item) := by
  cases form with
  | scalar => rfl
  | document =>
      rw [list, container, List.map_map]
      rfl

theorem append_item :
    (form.list ms : Node σ).append (form.item key) = form.list (ms ++ [key]) := by
  cases form with
  | scalar => rw [list, list, append, List.map_append]; rfl
  | document => rw [list, list, item, append, List.map_append]; rfl

theorem eraseItem_list (i : Nat) :
    (form.list ms : Node σ).eraseItem i = form.list (ms.eraseIdx i) := by
  cases form with
  | scalar => rw [list, list, eraseItem, List.eraseIdx_map]
  | document => rw [list, list, eraseItem, List.eraseIdx_map]

theorem same_item (s : String) : (form.item s : Node σ).same (form.item key) = (s == key) := by
  have hliteral : (form.item key : Node σ).literal? = some key := by cases form <;> rfl
  rw [Bool.eq_iff_iff, beq_iff_eq]
  cases form with
  | scalar =>
      rw [item, same, hliteral, beq_iff_eq, Option.some.injEq]
      exact eq_comm
  | document =>
      rw [item, same, Document.same, hliteral, beq_iff_eq, Option.some.injEq]
      exact eq_comm

theorem ready_list : Schema.Ready (form.list ms : Node σ) := by
  cases form with
  | scalar => exact ⟨Kind.noConfusion, rfl⟩
  | document => exact ⟨Kind.noConfusion, rfl⟩

end TextForm

namespace Event

/-- What an event makes of the members of a set under its key. -/
def members (e : Event) (ms : List String) : List String :=
  if e.action = .delete then ms.erase e.key
  else if e.key ∈ ms then ms
  else ms ++ [e.key]

/-- What an event makes of a finite set. -/
def updated (s : Finset String) (e : Event) : Finset String :=
  if e.action = .delete then s.erase e.key else insert e.key s

/-- The outcome of an event on the members of a set. -/
def outcome (e : Event) (ms : List String) : Except SyncError Unit :=
  if e.action = .delete ∧ e.key ∉ ms then .error (.navigation (.entryNotFound e.key)) else .ok ()

/-- An event on the members of a set: its key is a plain name of a member, and what it
writes is a scalar. -/
structure OnMember (e : Event) : Prop where
  key_ne : e.key ≠ ""
  plain : Key.isStructured e.key = false
  scalar : e.action ≠ .delete → e.tag.shape? = none

theorem OnMember.isEmpty_eq {e : Event} (h : e.OnMember) : e.key.isEmpty = false := by
  simpa using h.key_ne

/-! ## Lists that follow sets -/

section Members

variable {e : Event} {ms : List String} {events : List Event}

theorem members_of_absent (haction : e.action = .delete) (h : e.key ∉ ms) : e.members ms = ms := by
  rw [members, if_pos haction, List.erase_of_not_mem h]

theorem nodup_members (h : ms.Nodup) : (e.members ms).Nodup := by
  rw [members]
  split
  · exact h.erase e.key
  · split
    · exact h
    · rename_i habsent
      exact List.nodup_append.2 ⟨h, List.nodup_singleton _, fun m hm k hk => by
        rw [List.mem_singleton.1 hk]
        rintro rfl
        exact habsent hm⟩

theorem toFinset_members (h : ms.Nodup) : (e.members ms).toFinset = updated ms.toFinset e := by
  ext m
  rw [members, updated]
  split
  · rw [List.mem_toFinset, h.mem_erase_iff, Finset.mem_erase, List.mem_toFinset]
  · rw [Finset.mem_insert, List.mem_toFinset, List.mem_toFinset]
    split
    · rename_i hmem
      exact ⟨.inr, fun hm => hm.elim (fun heq => heq ▸ hmem) id⟩
    · rw [List.mem_append, List.mem_singleton, or_comm]

/-- The members that an event leaves, in their order, and the new one behind them. -/
theorem exists_members_eq (h : ms.Nodup) :
    ∃ fresh, e.members ms =
      (ms.filter fun m => decide (e.action = .delete → e.key ≠ m)) ++ fresh := by
  rw [members]
  by_cases haction : e.action = .delete
  · refine ⟨[], ?_⟩
    rw [if_pos haction, h.erase_eq_filter, List.append_nil]
    refine List.filter_congr fun m _ => ?_
    simp [haction, eq_comm, bne, Bool.beq_eq_decide_eq]
  · have hall : (ms.filter fun m => decide (e.action = .delete → e.key ≠ m)) = ms :=
      List.filter_eq_self.2 fun m _ => decide_eq_true fun hdelete => absurd hdelete haction
    rw [if_neg haction, hall]
    split
    · exact ⟨[], (List.append_nil ms).symm⟩
    · exact ⟨[e.key], rfl⟩

/-- The members after a run of events. -/
def membersAfter (old : List String) (events : List Event) : List String :=
  events.foldl (fun ms e => e.members ms) old

/-- A list of members follows a run of events: it has no duplicates, its members are
those of the set, and the old ones that no event deleted stand in their order in front
of the new ones. -/
structure Follows (old : List String) (events : List Event) (now : List String) : Prop where
  nodup : now.Nodup
  toFinset_eq : now.toFinset = events.foldl updated old.toFinset
  order : ∃ fresh, now =
    (old.filter fun m => decide (∀ e ∈ events, e.action = .delete → e.key ≠ m)) ++ fresh

theorem membersAfter_concat (old : List String) (events : List Event) (e : Event) :
    membersAfter old (events ++ [e]) = e.members (membersAfter old events) := by
  rw [membersAfter, List.foldl_append]
  rfl

theorem follows_membersAfter (h : ms.Nodup) : Follows ms events (membersAfter ms events) := by
  induction events generalizing ms with
  | nil => exact ⟨h, rfl, [], by simp [membersAfter]⟩
  | cons e rest ih =>
      have hrest := ih (nodup_members (e := e) h)
      refine ⟨hrest.nodup, ?_, ?_⟩
      · rw [List.foldl_cons, ← toFinset_members h]
        exact hrest.toFinset_eq
      · rcases exists_members_eq (e := e) h with ⟨new, hnew⟩
        rcases hrest.order with ⟨fresh, hfresh⟩
        have hfilter : ∀ m, (decide (∀ d ∈ rest, d.action = .delete → d.key ≠ m) &&
            decide (e.action = .delete → e.key ≠ m)) =
              decide (∀ d ∈ e :: rest, d.action = .delete → d.key ≠ m) := by
          intro m
          rw [← Bool.decide_and, decide_eq_decide, List.forall_mem_cons, and_comm]
        refine ⟨(new.filter fun m => decide (∀ d ∈ rest, d.action = .delete → d.key ≠ m)) ++ fresh,
          hfresh.trans ?_⟩
        rw [hnew, List.filter_append, List.filter_filter, List.append_assoc]
        simp only [hfilter]

end Members

end Event

namespace Schema

variable {S : Schema σ} {o : Options} {loops : Prop} {e : Event} {n v : Node σ}
  {a : Address} {form : TextForm} {ms : List String} {key : String}

/-! ## One event -/

/-- A plain key describes the string that it is. -/
theorem build_item (form : TextForm) (hplain : Key.isStructured key = false) :
    S.build o form.elem key = .ok (form.item key) := by
  cases form with
  | scalar =>
      have hprepare : S.prepare o (S.zero (.scalar .string)) = .scalar (.text "") :=
        if_neg (by simp [innermost, kind, allocate, zero])
      have hslot : (Slot.text "").build key = .ok (.text key) := by
        rw [Slot.build, hplain]
        rfl
      rw [TextForm.elem, build, fill, hprepare]
      simp only [innermost, hslot]
      rfl
  | document => exact build_plain hplain

/-- Among strings a plain key looks for the first one that it is. -/
theorem matchIndex_list (form : TextForm) (hplain : Key.isStructured key = false)
    (ms : List String) :
    S.matchIndex o form.elem (ms.map form.item) key = .ok (ms.idxOf? key) := by
  have hsame : (fun item : Node σ => item.same (form.item key)) ∘ form.item = (· == key) := by
    funext s
    exact form.same_item key s
  rw [matchIndex_of_plain hplain (build_item form hplain), List.findIdx?_map, List.idxOf?, hsame]

/-- The key of a member works by content. -/
theorem mode_member (hby : o.findByContent = true) (he : e.OnMember) :
    Mode.ofKey o e.key = .content := by
  rw [Mode.ofKey, he.isEmpty_eq, he.plain, hby]
  rfl

/-- Deleting takes a member out, and fails where there is none. -/
theorem perform_delete_list (hmode : Mode.ofKey o e.key = .content) (he : e.OnMember)
    (haction : e.action = .delete) (form : TextForm) (ms : List String) :
    S.perform o e (form.list ms) = (form.list (e.members ms), e.outcome ms) := by
  have hbare := (form.ready_list (σ := σ) ms).bare
  rw [perform_of_delete haction, hmode, remove, core_of_bare hbare]
  simp only [form.container_list, removeItem, locate, require_of_ne he.key_ne,
    matchIndex_list form he.plain, bind, Except.bind]
  rw [Event.members, Event.outcome, if_pos haction, List.erase_eq_eraseIdx]
  cases hfind : ms.idxOf? e.key with
  | none =>
      rw [if_pos ⟨haction, List.idxOf?_eq_none_iff.1 hfind⟩]
      rfl
  | some i =>
      have hmem : e.key ∈ ms := by
        by_contra habsent
        simp [List.idxOf?_eq_none_iff.2 habsent] at hfind
      rw [if_neg fun h => h.2 hmem]
      simp only [pure, Except.pure, form.eraseItem_list, coreAddress_of_bare hbare]
      rfl

/-- Creating and replacing add a member that is missing. -/
theorem perform_write_list (hmode : Mode.ofKey o e.key = .content) (he : e.OnMember)
    (haction : e.action ≠ .delete) (form : TextForm) (ms : List String) :
    S.perform o e (form.list ms) = (form.list (e.members ms), e.outcome ms) := by
  have hready := form.ready_list (σ := σ) ms
  have hallocate : S.allocate (form.list ms) = form.list ms :=
    S.allocate_of_bare hready.bare
  have hlist : (S.allocate (form.list ms)).innermost.container =
      .list form.elem (ms.map form.item) := by
    rw [hallocate, innermost_of_bare hready.bare, form.container_list]
  have houtcome : e.outcome ms = .ok () := if_neg fun h => haction h.1
  rw [perform_of_literal haction (he.scalar haction), promote_of_ready hready,
    hmode, Event.members, if_neg haction, houtcome]
  by_cases hmem : e.key ∈ ms
  · rcases Option.ne_none_iff_exists'.1 (mt List.idxOf?_eq_none_iff.1 (not_not.2 hmem)) with
      ⟨i, hi⟩
    rw [write_found hlist he.key_ne ((matchIndex_list form he.plain ms).trans (by rw [hi])),
      hallocate, if_pos hmem]
    rfl
  · have hnone := List.idxOf?_eq_none_iff.2 hmem
    rw [write_missing hlist he.key_ne
        ((matchIndex_list form he.plain ms).trans (by rw [hnone])) (build_item form he.plain),
      hallocate, innermost_of_bare hready.bare, withCore_of_bare hready.bare, form.append_item,
      if_neg hmem]
    rfl

/-- An event on a member does to a list of strings what it does to the set. -/
theorem perform_list (hby : o.findByContent = true) (he : e.OnMember) (form : TextForm)
    (ms : List String) :
    S.perform o e (form.list ms) = (form.list (e.members ms), e.outcome ms) := by
  by_cases haction : e.action = .delete
  · exact perform_delete_list (mode_member hby he) he haction form ms
  · exact perform_write_list (mode_member hby he) he haction form ms

/-! ## The list in its target -/

/-- A list of strings stands at an address of a target, below layers that have a value. -/
structure HoldsStrings (form : TextForm) (target : Node σ) (a : Address) (v : Node σ)
    (members : List String) : Prop where
  get_eq : target.get? a = some v
  allocated : v.isAllocated = true
  list_eq : v.innermost = form.list members

theorem typed_strings (form : TextForm) (ms : List String) : S.Typed loops (form.list ms) := by
  cases form with
  | scalar =>
      refine .list (fun w hw => ?_) fun w hw => ?_
      · rcases List.mem_map.1 hw with ⟨s, -, rfl⟩
        rfl
      · rcases List.mem_map.1 hw with ⟨s, -, rfl⟩
        exact .scalar _
  | document =>
      refine .dynamic (.seq fun d hd => ?_)
      rcases List.mem_map.1 hd with ⟨s, -, rfl⟩
      exact .leaf rfl

section Target

variable {target : Node σ} {old : List String} {events : List Event}

theorem HoldsStrings.ty_innermost (h : HoldsStrings form target a v old) (now : List String) :
    (form.list now : Node σ).ty = v.innermost.ty := by
  rw [h.list_eq]
  cases form <;> rfl

/-- Members come and go, and the node goes on being what it is. -/
theorem HoldsStrings.keeps (h : HoldsStrings form target a v old) (S : Schema σ) (loops : Prop)
    (now : List String) : S.Keeps loops v (v.withCore (form.list now)) :=
  Keeps.withCore (.of_typed (h.ty_innermost now) (typed_strings form now) (by cases form <;> rfl))

/-- The target with other members holds these. -/
theorem HoldsStrings.replaceAt (h : HoldsStrings form target a v old) (now : List String) :
    HoldsStrings form (target.replaceAt a (v.withCore (form.list now))) a
      (v.withCore (form.list now)) now := by
  have hbare := (form.ready_list (σ := σ) now).bare
  refine ⟨?_, isAllocated_withCore v hbare, innermost_withCore v hbare⟩
  have hty := ty_replaceAt (get?_coreAddress v) (h.ty_innermost now)
  have hget := get?_replaceAt_append h.get_eq hty []
  rwa [List.append_nil] at hget

/-- What an event makes of a list of strings, it makes of the list that its path leads to. -/
theorem apply_strings (hS : S.Sound loops) (htarget : S.Typed loops target)
    (hold : HoldsStrings form target a v old) (hkey : e.key ≠ "")
    (h : S.Addresses o target e.path a) {now : List String} {result : Except SyncError Unit}
    (hlist : S.perform o e (form.list old) = (form.list now, result)) :
    S.apply o e target = (target.replaceAt a (v.withCore (form.list now)), result) := by
  have hready := form.ready_list (σ := σ) old
  have hperform : S.perform o e v = (v.withCore (form.list now), result) := by
    have hbelow := perform_withCore (S := S) (o := o) (e := e) hready.bare (fun _ => hready) v
    rwa [← hold.list_eq, withCore_innermost, hold.list_eq, hlist] at hbelow
  rw [apply_addressed hS htarget h hold.get_eq hold.allocated (Event.isRoot_of_key_ne hkey),
    hperform]
  rfl

/-- The same holds after the members of the list have changed. -/
theorem apply_strings_replaceAt (hS : S.Sound loops) (htarget : S.Typed loops target)
    (hold : HoldsStrings form target a v old) (hkey : e.key ≠ "") {now next : List String}
    (h : S.Addresses o (target.replaceAt a (v.withCore (form.list now))) e.path a)
    {result : Except SyncError Unit}
    (hlist : S.perform o e (form.list now) = (form.list next, result)) :
    S.apply o e (target.replaceAt a (v.withCore (form.list now))) =
      (target.replaceAt a (v.withCore (form.list next)), result) := by
  have hkeeps := hold.keeps S loops now
  have hbare := (form.ready_list (σ := σ) now).bare
  have hput := replaceAt_replaceAt_append (b := []) hold.get_eq hkeeps.ty_eq
    (hold.keeps S loops next).ty_eq
  rw [List.append_nil] at hput
  rw [apply_strings hS ((hkeeps.replaceAt hold.get_eq).typed htarget) (hold.replaceAt now) hkey h
    hlist, withCore_withCore v hbare]
  exact congrArg (·, result) hput

/-- One event on the list after its members have changed. -/
theorem apply_member_replaceAt (hS : S.Sound loops) (htarget : S.Typed loops target)
    (hold : HoldsStrings form target a v old) (hby : o.findByContent = true) (he : e.OnMember)
    {now : List String}
    (h : S.Addresses o (target.replaceAt a (v.withCore (form.list now))) e.path a) :
    S.apply o e (target.replaceAt a (v.withCore (form.list now))) =
      (target.replaceAt a (v.withCore (form.list (e.members now))), e.outcome now) :=
  apply_strings_replaceAt hS htarget hold he.key_ne h (perform_list hby he form now)

/-! ## Runs of events -/

/-- The target after a run of events on the members of a list. -/
theorem run_strings (hS : S.Sound loops) (htarget : S.Typed loops target)
    (hold : HoldsStrings form target a v old) (hby : o.findByContent = true)
    (hevents : ∀ e ∈ events, e.OnMember)
    (haddress : ∀ before e later, events = before ++ e :: later →
      S.Addresses o (S.run o target before) e.path a) :
    S.run o target events =
      target.replaceAt a (v.withCore (form.list (Event.membersAfter old events))) := by
  induction events using List.reverseRecOn with
  | nil =>
      rw [Event.membersAfter, List.foldl_nil, ← hold.list_eq, withCore_innermost,
        htarget.replaceAt_self hold.get_eq]
      rfl
  | append_singleton before e ih =>
      have hbefore := ih (fun d hd => hevents d (List.mem_append_left _ hd))
        fun first d later hsplit => haddress first d (later ++ [e]) (by simp [hsplit])
      have he := hevents e (List.mem_append_right _ List.mem_cons_self)
      have hhere := haddress before e [] rfl
      rw [hbefore] at hhere
      rw [run, List.foldl_append, List.foldl_cons, List.foldl_nil, ← run, hbefore,
        apply_member_replaceAt hS htarget hold hby he hhere, Event.membersAfter_concat]

/-- Where a path leads to the list whatever its members are, it does so all the time. -/
theorem addresses_run (hS : S.Sound loops) (htarget : S.Typed loops target)
    (hold : HoldsStrings form target a v old) (hby : o.findByContent = true)
    (hevents : ∀ e ∈ events, e.OnMember)
    (h : ∀ e ∈ events, ∀ ms,
      S.Addresses o (target.replaceAt a (v.withCore (form.list ms))) e.path a) :
    ∀ before e later, events = before ++ e :: later →
      S.Addresses o (S.run o target before) e.path a := by
  induction events using List.reverseRecOn with
  | nil => simp
  | append_singleton first last ih =>
      have hmem : ∀ d ∈ first, d ∈ first ++ [last] := fun d hd => List.mem_append_left _ hd
      have hfirst := ih (fun d hd => hevents d (hmem d hd)) fun d hd => h d (hmem d hd)
      intro before e later hsplit
      rcases List.eq_nil_or_concat later with rfl | ⟨rest, x, rfl⟩
      · obtain ⟨rfl, hlast⟩ := List.append_inj' hsplit rfl
        obtain rfl := List.singleton_inj.1 hlast
        rw [run_strings hS htarget hold hby (fun d hd => hevents d (hmem d hd)) hfirst]
        exact h last (List.mem_append_right _ List.mem_cons_self) _
      · rw [List.concat_eq_append, ← List.cons_append, ← List.append_assoc] at hsplit
        exact hfirst before e rest (List.append_inj' hsplit rfl).1

/-- Where list keys describe content, a list of strings works as a set through any run
of events on its members.  After every event of the run the target is the old one but for
the list, and the list has followed the set from every earlier point of the run.  The next
event succeeds, unless it deletes what is not there: that fails and changes nothing. -/
theorem run_members (hS : S.Sound loops) (htarget : S.Typed loops target)
    (hold : HoldsStrings form target a v old) (hnodup : old.Nodup)
    (hby : o.findByContent = true) (hevents : ∀ e ∈ events, e.OnMember)
    (haddress : ∀ before e later, events = before ++ e :: later →
      S.Addresses o (S.run o target before) e.path a) :
    ∀ before later, events = before ++ later →
      let now := Event.membersAfter old before
      S.run o target before = target.replaceAt a (v.withCore (form.list now)) ∧
        (∀ first second, before = first ++ second →
          Event.Follows (Event.membersAfter old first) second now) ∧
        ∀ e rest, later = e :: rest →
          (e.action = .delete → e.key ∉ now → S.apply o e (S.run o target before) =
            (S.run o target before, .error (.navigation (.entryNotFound e.key)))) ∧
          ((e.action = .delete → e.key ∈ now) →
            (S.apply o e (S.run o target before)).2 = .ok ()) := by
  rintro before later rfl now
  have hrun := run_strings hS htarget hold hby
    (fun d hd => hevents d (List.mem_append_left _ hd)) fun first d rest hsplit =>
      haddress first d (rest ++ later) (by simp [hsplit])
  refine ⟨hrun, ?_, ?_⟩
  · rintro first second rfl
    have hsplit : now = Event.membersAfter (Event.membersAfter old first) second :=
      List.foldl_append
    rw [hsplit]
    exact Event.follows_membersAfter (Event.follows_membersAfter hnodup).nodup
  · rintro e rest rfl
    have he := hevents e (List.mem_append_right _ List.mem_cons_self)
    have hhere := haddress before e rest rfl
    rw [hrun] at hhere
    have hstep := apply_member_replaceAt hS htarget hold hby he hhere
    rw [hrun, hstep]
    refine ⟨fun haction habsent => ?_, fun hpresent => ?_⟩
    · rw [Event.members_of_absent haction habsent, Event.outcome, if_pos ⟨haction, habsent⟩]
    · exact if_neg fun h => h.2 (hpresent h.1)

end Target

/-! ## The tags of a page -/

theorem tags_ne_empty : "tags" ≠ "" := by decide

/-- A page with tags. -/
def pages : Schema Unit :=
  (empty ()).declare "Page"
    [(⟨"tags", none, true, tags_ne_empty, Field.none_ne_empty⟩, .list (.scalar .string))] ()

def page (tags : List String) : Node Unit :=
  .record "Page"
    [(⟨"tags", none, true, tags_ne_empty, Field.none_ne_empty⟩, TextForm.scalar.list tags)] ()

def contentKeys : Options :=
  { findByContent := true }

theorem sound_pages : pages.Sound False := by
  refine sound_of_tree fun d hd f hf => ?_
  obtain rfl := List.mem_singleton.1 hd
  obtain rfl := List.mem_singleton.1 hf
  exact typed_strings .scalar []

theorem typed_page (tags : List String) : pages.Typed False (page tags) := by
  refine .record_of_tree rfl fun f hf => ?_
  obtain rfl := List.mem_singleton.1 hf
  exact typed_strings .scalar tags

theorem addresses_page (o : Options) (tags : List String) :
    pages.Addresses o (page tags) ["tags"] [.field 0] := by
  have hfind : pages.find o (page tags) "tags" (.ofKey o "tags") =
      .ok ⟨[.field 0], TextForm.scalar.list tags⟩ := by rfl
  exact .step rfl hfind (List.cons_ne_nil _ _) (.here rfl)

theorem addresses_tags (tags : List String) :
    pages.Addresses contentKeys (page tags) ["tags"] [.field 0] :=
  addresses_page contentKeys tags

/-- A tag is added, one is deleted and added again behind the others; deleting one that
is not there fails. -/
theorem run_members_page :
    let events : List Event :=
      [⟨.create, ["tags"], "c", .scalar .int, "1", none⟩,
        ⟨.delete, ["tags"], "a", .scalar .null, "", none⟩,
        ⟨.delete, ["tags"], "x", .scalar .null, "", none⟩,
        ⟨.create, ["tags"], "a", .scalar .null, "", none⟩]
    (∃ now, pages.run contentKeys (page ["a", "b"]) events = page now ∧ now.Nodup ∧
      now.toFinset = {"a", "b", "c"} ∧ ∃ fresh, now = "b" :: fresh) ∧
      ∃ m, pages.apply contentKeys ⟨.delete, ["tags"], "x", .scalar .null, "", none⟩
        (pages.run contentKeys (page ["a", "b"]) (events.take 2)) =
          (m, .error (.navigation (.entryNotFound "x"))) := by
  intro events
  have hold : HoldsStrings .scalar (page ["a", "b"]) [.field 0] (TextForm.scalar.list ["a", "b"])
      ["a", "b"] := ⟨rfl, rfl, rfl⟩
  have hevents : ∀ e ∈ events, e.OnMember := by
    intro e he
    simp only [events, List.mem_cons, List.not_mem_nil, or_false] at he
    rcases he with rfl | rfl | rfl | rfl
    all_goals exact ⟨by decide, by decide, fun _ => rfl⟩
  have hpath : ∀ e ∈ events, e.path = ["tags"] := by decide
  have haddress := addresses_run sound_pages (typed_page _) hold rfl hevents fun e he ms => by
    rw [hpath e he]
    exact addresses_tags ms
  have h := run_members sound_pages (typed_page _) hold (by decide) rfl hevents haddress
  refine ⟨?_, ?_⟩
  · rcases h events [] (List.append_nil _).symm with ⟨hrun, hfollows, -⟩
    have hall := hfollows [] events rfl
    exact ⟨_, hrun, hall.nodup, hall.toFinset_eq.trans (by decide), hall.order⟩
  · rcases h (events.take 2) (events.drop 2) rfl with ⟨-, hfollows, hnext⟩
    have habsent : "x" ∉ Event.membersAfter ["a", "b"] (events.take 2) := by
      rw [← List.mem_toFinset, (hfollows [] _ rfl).toFinset_eq]
      decide
    exact ⟨_, (hnext _ _ rfl).1 rfl habsent⟩

end Schema

end TreeSync
