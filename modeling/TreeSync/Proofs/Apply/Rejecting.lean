import TreeSync.Proofs.Apply.Framing
import TreeSync.Proofs.Apply.Refinding
import TreeSync.Proofs.Navigate.Reading
import TreeSync.Proofs.Navigate.Retaining

/-!
# What a failed event leaves

An event that creates or replaces makes its way before it knows whether it gets to the
end of it.  What it makes adds to what was there.  Only a leaf of a document on the way
is given up for a map, and stays given up when the event fails further on.  Every other
scalar that a reader was shown is still shown under the same keys.

Main definitions and results:

- `Schema.Leads`: where a path leads.
- `Schema.exists_find_of_enter`: a step that comes to something old finds it.
- `Schema.retains_walk`, `Schema.retains_apply`: what a failed event loses.
- `Schema.Leads.exists_map_apply`: what a failed event gives up.
- `Schema.exists_read_iff_of_apply_error`: what a reader is shown after a failed event.
-/

namespace TreeSync

namespace Schema

open Node

variable {σ : Type} {S : Schema σ} {o : Options} {loops : Prop} {e : Event} {n m c v : Node σ}
  {key : String} {mode : Mode} {a b : Address} {err : SyncError}

/-! ## Steps to what was there -/

/-- What was there where an entry or element was made is what would have been found. -/
theorem exists_findItem_of_createItem (hS : S.Sound loops)
    (h : (S.createItem o c key mode).2 = .ok a) (hv : c.get? (a ++ b) = some v) :
    ∃ place, S.findItem o c key mode = .ok place := by
  rw [createItem] at h
  rw [findItem]
  split at h
  · rename_i kind elem entries hc
    split at h
    · simp at h
    · rename_i k hk
      obtain rfl : a = [.entry k] := by
        split at h
        · exact (Except.ok.inj h).symm
        · exact (Except.ok.inj h).symm
      obtain ⟨u, hu, -⟩ := Option.bind_eq_some_iff.1 hv
      rw [child?_entry hc] at hu
      obtain ⟨_, hrequire, hdecode⟩ := bind_eq_ok.1 hk
      simp only [hrequire, hdecode, hu, bind, Except.bind]
      exact ⟨_, rfl⟩
  · rename_i elem items hc
    obtain ⟨i, hi, rfl⟩ := map_eq_ok.1 h
    obtain ⟨u, hu, -⟩ := Option.bind_eq_some_iff.1 hv
    rw [child?_element hc] at hu
    rcases locateOrAppend_cases hS (o := o) c elem items key mode with
      ⟨err, hmade⟩ | ⟨j, hlocate, hmade⟩ | ⟨item, -, -, -, -, hmade⟩
    · simp [hmade] at hi
    · obtain rfl : j = i := by simpa [hmade] using hi
      simp only [hlocate, hu, bind, Except.bind]
      exact ⟨_, rfl⟩
    · obtain rfl : items.length = i := by simpa [hmade] using hi
      simp at hu
  all_goals simp at h

/-- What was there where a child was made is what would have been found. -/
theorem exists_find_of_createChild (hS : S.Sound loops) (hbare : c.Bare)
    (h : (S.createChild o c key mode).2 = .ok a) (hv : c.get? (a ++ b) = some v)
    (hatom : v.isAtom = true) : ∃ place, S.find o c key mode = .ok place := by
  by_cases hrecord : ∃ type fields, c.container = .record type fields
  · rcases hrecord with ⟨type, fields, hrecord⟩
    rw [createChild] at h
    rw [find, core_of_bare hbare]
    simp only [hrecord] at h ⊢
    split at h
    · simp at h
    · rename_i field rest htarget
      obtain ⟨_, hrequire, htarget⟩ := bind_eq_ok.1 htarget
      obtain ⟨⟨name, text⟩, hsplit, hplace⟩ := bind_eq_ok.1 htarget
      obtain ⟨field, hfield, heq⟩ := bind_eq_ok.1 hplace
      obtain ⟨rfl, rfl⟩ := Prod.mk.inj (Except.ok.inj heq)
      have hget := get?_fieldPlace hrecord hfield
      simp only [hrequire, hsplit, hfield, bind, Except.bind]
      split at h
      · rename_i htext
        obtain rfl := Except.ok.inj h
        rw [get?_append, hget] at hv
        rw [if_pos htext, if_pos (isAllocated_of_isAtom hv hatom)]
        exact ⟨_, rfl⟩
      · rename_i htext
        obtain ⟨x, hx, rfl⟩ := map_eq_ok.1 h
        rw [List.append_assoc, List.append_assoc, get?_append, hget, Option.bind_some] at hv
        have halloc := isAllocated_of_isAtom hv hatom
        rw [S.allocate_of_isAllocated halloc] at hx hv
        rw [get?_append, get?_coreAddress] at hv
        obtain ⟨item, hitem⟩ := exists_findItem_of_createItem hS hx hv
        rw [if_neg htext, core_eq_ok_innermost halloc]
        simp only [hitem]
        exact ⟨_, rfl⟩
  · have hitems : ∀ type fields, c.container ≠ .record type fields :=
      fun type fields heq => hrecord ⟨type, fields, heq⟩
    rw [createChild_item hitems] at h
    rw [find_item hbare hitems]
    exact exists_findItem_of_createItem hS h hv

/-- A node that does not stay as it is when it is entered has no children. -/
theorem entered_ne (h : entered c ≠ c) :
    (∀ type fields, (entered c).container ≠ .record type fields) ∧ ∀ s, c.child? s = none := by
  cases c with
  | dynamic d =>
      rw [entered] at h ⊢
      by_cases hleaf : d.isLeaf = true
      · rw [if_pos hleaf]
        refine ⟨fun type fields heq => by simp [container] at heq, fun s => ?_⟩
        cases d <;> simp [Document.isLeaf, child?] at hleaf ⊢
      · exact absurd (if_neg hleaf) h
  | _ => exact absurd rfl h

/-- What was there where the step of an event leads is what finding leads to. -/
theorem exists_find_of_enter (hS : S.Sound loops) (haction : e.action ≠ .delete)
    (h : S.enter o e.action n key = (m, .ok a)) (hv : n.get? (a ++ b) = some v)
    (hatom : v.isAtom = true) : ∃ place, S.find o n key (.ofKey o key) = .ok place := by
  have halloc := isAllocated_of_isAtom hv hatom
  have hbare := bare_innermost halloc
  have hpromote := promote_eq_withCore S n
  rw [S.allocate_of_isAllocated halloc] at hpromote
  have hready := ready_entered hbare
  rcases enter_eq_ok hS haction h with ⟨r, x, hstep, -, -, rfl⟩
  rw [hpromote, innermost_withCore _ hready.bare] at hstep
  rcases enter_create_eq_ok hready haction hstep with ⟨_, y, child, hmade, -, -, rfl⟩
  rw [hpromote, coreAddress_withCore _ hready.bare, List.append_assoc, List.append_assoc,
    get?_append, get?_coreAddress] at hv
  by_cases hleaf : entered n.innermost = n.innermost
  · rw [hleaf] at hmade
    obtain ⟨place, hplace⟩ :=
      exists_find_of_createChild hS hbare (congrArg Prod.snd hmade) hv hatom
    rw [← n.withCore_innermost, find_withCore hbare, hplace]
    exact ⟨_, rfl⟩
  · -- The map that replaces a leaf has entries where the leaf had nothing.
    obtain ⟨hitems, hnone⟩ := entered_ne hleaf
    rw [createChild_item hitems] at hmade
    obtain ⟨s, rfl⟩ := exists_step_of_createItem (congrArg Prod.snd hmade)
    simp [get?, hnone] at hv

/-! ## Where a path leads -/

/-- A path, or a part of it from the front, leads to what stands at an address.  From
where it comes back to the record that it just left it leads nowhere. -/
inductive Leads (S : Schema σ) (o : Options) : Node σ → List String → Address → Prop where
  | start (n : Node σ) (path : List String) : Leads S o n path n.coreAddress
  | step {n : Node σ} {key : String} {rest : List String} {place : Place σ} {a : Address}
      (found : S.find o n key (.ofKey o key) = .ok place)
      (away : place.address ++ place.node.coreAddress ≠ n.coreAddress)
      (below : Leads S o place.node rest a) : Leads S o n (key :: rest) (place.address ++ a)

/-- Where a path leads below the layers of a node, it leads in the node. -/
theorem Leads.of_innermost (halloc : n.isAllocated = true) {path : List String}
    (h : S.Leads o n.innermost path a) : S.Leads o n path (n.coreAddress ++ a) := by
  have hbare := bare_innermost halloc
  cases h with
  | start =>
      rw [coreAddress_of_bare hbare, List.append_nil]
      exact .start n path
  | @step _ key rest place a found away below =>
      have hlift : S.find o n key (.ofKey o key) = .ok (place.under n.coreAddress) := by
        have hcore := find_withCore hbare n key (.ofKey o key) (S := S) (o := o)
        rwa [n.withCore_innermost, found] at hcore
      rw [coreAddress_of_bare hbare] at away
      rw [← List.append_assoc]
      refine .step hlift (fun heq => away ?_) below
      rwa [Place.under, List.append_assoc, List.append_right_eq_self] at heq

/-- A leaf of a document at an address that a path leads to. -/
def LeafOn (S : Schema σ) (o : Options) (n : Node σ) (path : List String) (a : Address)
    (v : Node σ) : Prop :=
  v.kind = .dynamic ∧ S.Leads o n path a

/-- The leaves on the rest of a path are on the path, if its first step leads to what
was there and not back. -/
theorem leafOn_of_step (hn : S.Typed loops n) {action : Action} (haction : action ≠ .delete)
    {place : Place σ} (hfind : S.find o n key (.ofKey o key) = .ok place)
    (hstep : S.enter o action n key = (m, .ok a)) (hc : m.get? a = some c)
    (haway : ¬ (n.isAllocated = true ∧ a ++ c.coreAddress = m.coreAddress)) {rest : List String}
    (hv : n.get? (a ++ b) = some v) (hatom : v.isAtom = true) (h : S.LeafOn o c rest b v) :
    S.LeafOn o n (key :: rest) (a ++ b) v := by
  have hget := get?_find hfind
  obtain ⟨rfl, ha⟩ := Prod.mk.inj (hstep.symm.trans (enter_of_find hn haction hfind))
  obtain rfl := Except.ok.inj ha
  rw [List.append_assoc, get?_append, hget] at hv
  have halloc := isAllocated_of_isAtom hv hatom
  rw [S.allocate_of_isAllocated halloc, hn.replaceAt_self hget] at hc haway
  rw [get?_append, hget] at hc
  obtain rfl := Option.some.inj ((get?_coreAddress place.node).symm.trans hc)
  rw [coreAddress_of_bare (bare_innermost halloc), List.append_nil] at haway
  rw [S.allocate_of_isAllocated halloc, List.append_assoc]
  exact ⟨h.1, .step hfind (fun heq => haway ⟨isAllocated_of_find hfind, heq⟩)
    (h.2.of_innermost halloc)⟩

/-! ## Failing on the way -/

/-- An action that fails loses at most the leaf that it turned into a map. -/
theorem retains_perform (hS : S.Sound loops) (haction : e.action ≠ .delete) (n : Node σ)
    (herr : (S.perform o e n).2 = .error err) :
    n.Retains (fun a v => a = n.coreAddress ∧ v.kind = .dynamic) (S.perform o e n).1 := by
  have hfailed : ∀ {changed : Node σ × Except NavError Unit},
      S.perform o e n = ofNavigation changed → S.Failsafe loops (S.promote n) changed →
      n.Retains (fun a v => a = n.coreAddress ∧ v.kind = .dynamic) (S.perform o e n).1 := by
    intro changed heq hsafe
    rw [heq] at herr ⊢
    rcases hresult : changed.2 with nav | u
    · exact (S.retains_promote n).trans (hsafe.harmless nav hresult).weaken
    · simp [ofNavigation, hresult, Except.mapError] at herr
  cases hshape : e.tag.shape? with
  | some shape =>
      exact hfailed (perform_of_shape haction hshape n)
        (failsafe_materialize hS _ e.key shape _)
  | none =>
      exact hfailed (perform_of_literal haction hshape n)
        (failsafe_write hS (S.carries_event loops e) _ e.key _)

/-- A step loses at most the leaf that it starts from, whether it gets on or not. -/
theorem retains_enter (hS : S.Sound loops) {action : Action} (haction : action ≠ .delete)
    (n : Node σ) (key : String) :
    n.Retains (fun a v => a = n.coreAddress ∧ v.kind = .dynamic) (S.enter o action n key).1 := by
  rw [enter_of_ne haction]
  exact (S.retains_promote n).trans (retains_findOrCreate hS _ key _)

/-- A walk that fails loses at most leaves on its path. -/
theorem retains_walk (hS : S.Sound loops) (haction : e.action ≠ .delete) {path : List String}
    (hn : S.Typed loops n) (herr : (S.walk o e n path).2 = .error err) :
    n.Retains (S.LeafOn o n path) (S.walk o e n path).1 := by
  induction path generalizing n with
  | nil =>
      exact (retains_perform hS haction n herr).mono fun a v _ _ h => ⟨h.2, h.1 ▸ .start n _⟩
  | cons key rest ih =>
      have henter : n.Retains (S.LeafOn o n (key :: rest)) (S.enter o e.action n key).1 :=
        (retains_enter hS haction n key).mono fun a v _ _ h => ⟨h.2, h.1 ▸ .start n _⟩
      have hkeeps := keeps_enter hS (o := o) e.action n key
      rw [walk] at herr ⊢
      rcases hstep : S.enter o e.action n key with ⟨m, nav | a⟩
      · simpa [hstep] using henter
      · rw [hstep] at henter hkeeps
        cases hchild : m.get? a with
        | none => simpa [hchild] using henter
        | some child =>
            simp only [hstep, hchild] at herr ⊢
            split at herr
            · rename_i hcycle
              rw [if_pos hcycle]
              exact henter
            · rename_i hcycle
              rw [if_neg hcycle]
              have hbelow : m.Retains (fun x v => ∃ y, x = a ++ y ∧ S.LeafOn o child rest y v)
                  (m.replaceAt a (S.walk o e child rest).1) :=
                .replaceAt hchild (keeps_walk hS e child rest).ty_eq
                  ((ih ((hkeeps.typed hn).get hchild) herr).mono fun y v _ _ h => ⟨y, rfl, h⟩)
              refine henter.trans_of hbelow ?_
              rintro x v hv hatom ⟨y, rfl, hleaf⟩
              obtain ⟨place, hfind⟩ := exists_find_of_enter hS haction hstep hv hatom
              exact leafOn_of_step hn haction hfind hstep hchild hcycle hv hatom hleaf

/-! ## What is given up -/

section Map

variable {kind : KeyKind} {elem : Ty} {entries : List (MapKey × Node σ)}

/-- A step from a map goes nowhere, or into one of the entries of a map. -/
theorem enter_of_map (hmap : c.container = .map kind elem entries) {action : Action}
    (haction : action ≠ .delete) (key : String) :
    ∃ m others, m.container = .map kind elem others ∧
      ((∃ err, S.enter o action c key = (m, .error err)) ∨
        ∃ k b, S.enter o action c key = (m, .ok (.entry k :: b))) := by
  have hitems : ∀ type fields, c.container ≠ .record type fields := by simp [hmap]
  rw [enter_create (ready_of_map hmap) haction, createChild_item hitems, createItem_of_map hmap]
  cases entryKey kind key with
  | error err => exact ⟨c, entries, hmap, .inl ⟨err, rfl⟩⟩
  | ok k =>
      obtain ⟨others, hothers⟩ := container_putEntry hmap k (S.zero elem)
      simp only
      cases hv : c.child? (.entry k) with
      | some u =>
          simp only [Node.get?, hv, Option.bind_some]
          obtain ⟨left, hleft⟩ := container_replaceAt_entry hmap k [] (S.allocate u)
          exact ⟨_, left, hleft, .inr ⟨k, _, rfl⟩⟩
      | none =>
          simp only
          split
          · exact ⟨_, others, hothers, .inl ⟨_, rfl⟩⟩
          · rename_i child hchild
            obtain ⟨left, hleft⟩ := container_replaceAt_entry hothers k [] (S.allocate child)
            exact ⟨_, left, hleft, .inr ⟨k, _, rfl⟩⟩

/-- An event that creates or replaces below a map leaves a map. -/
theorem container_walk (hmap : c.container = .map kind elem entries)
    (haction : e.action ≠ .delete) (path : List String) :
    ∃ others, (S.walk o e c path).1.container = .map kind elem others := by
  cases path with
  | nil =>
      have hperform := perform_entry (S := S) (o := o) (e := e) hmap
      rw [walk]
      cases hk : entryKey kind e.key with
      | error err =>
          rw [hk] at hperform
          rw [hperform]
          exact ⟨entries, hmap⟩
      | ok k =>
          rw [hk] at hperform
          rw [hperform]
          exact container_alterEntry hmap k _
  | cons key rest =>
      obtain ⟨m, others, hothers, ⟨nav, henter⟩ | ⟨k, b, henter⟩⟩ :=
        enter_of_map (S := S) (o := o) hmap haction key
      · rw [walk, henter]
        exact ⟨others, hothers⟩
      · rw [walk, henter]
        simp only
        split
        · exact ⟨others, hothers⟩
        · split
          · exact ⟨others, hothers⟩
          · exact container_replaceAt_entry hothers k b _

end Map

/-- A leaf of a document is entered as an empty map. -/
theorem container_entered_leaf (hatom : c.isAtom = true) (hkind : c.kind = .dynamic) :
    (entered c).container = .map .string .dynamic [] := by
  cases c with
  | dynamic d =>
      cases d with
      | null | seq items | map entries => simp [isAtom, Document.scalar?] at hatom
      | _ => rfl
  | _ => simp [kind] at hkind

/-- A leaf of a document on the path of an event becomes a map, whether the event
succeeds or fails. -/
theorem Leads.exists_map_walk (hS : S.Sound loops) (haction : e.action ≠ .delete)
    {path : List String} (h : S.Leads o n path a) (hn : S.Typed loops n) (hv : n.get? a = some v)
    (hatom : v.isAtom = true) (hkind : v.kind = .dynamic) :
    ∃ c entries, (S.walk o e n path).1.get? a = some c ∧
      c.container = .map .string .dynamic entries := by
  induction h with
  | start n path =>
      have halloc := isAllocated_of_isAtom hv hatom
      obtain rfl := Option.some.inj (n.get?_coreAddress.symm.trans hv)
      obtain ⟨others, hothers⟩ := container_walk (S := S) (o := o)
        (container_entered_leaf hatom hkind) haction path
      have hget := get?_withCore_append n (S.walk o e (entered n.innermost) path).1 []
      rw [List.append_nil] at hget
      rw [walk_entered hS halloc haction]
      exact ⟨_, others, hget, hothers⟩
  | @step n key rest place a found away below ih =>
      have hget := get?_find found
      have hbelow : place.node.get? a = some v := by
        rw [get?_append, hget] at hv
        exact hv
      have halloc := isAllocated_of_isAtom hbelow hatom
      have hkeeps := keeps_walk hS (o := o) e place.node rest
      obtain ⟨c, entries, hc, hmap⟩ := ih (hn.get hget) hbelow
      -- The step finds a node with all its layers, so it changes nothing by itself.
      have henter := enter_of_find hn haction found
      rw [S.allocate_of_isAllocated halloc, hn.replaceAt_self hget] at henter
      have hchild : n.get? (place.address ++ place.node.coreAddress) =
          some place.node.innermost := by
        rw [get?_append, hget]
        exact place.node.get?_coreAddress
      have hwalk : (S.walk o e n (key :: rest)).1 =
          n.replaceAt place.address (S.walk o e place.node rest).1 := by
        rw [walk, henter, walk_innermost hS halloc haction, withCore, ← replaceAt_append hget]
        simp only [hchild, coreAddress_of_bare (bare_innermost halloc), List.append_nil, away,
          and_false, if_false]
        rfl
      refine ⟨c, entries, ?_, hmap⟩
      rw [hwalk, get?_replaceAt_append hget hkeeps.ty_eq]
      exact hc

/-! ## Failed events -/

theorem retains_setLiteral {lost : Address → Node σ → Prop} (n : Node σ) (text : String)
    {nav : NavError} (herr : (S.setLiteral n text).2 = .error nav) :
    n.Retains lost (S.setLiteral n text).1 := by
  rw [setLiteral] at herr ⊢
  split
  · rename_i c hc
    simp [hc] at herr
  · exact retains_allocate n

/-- An event at the root that fails has filled its layers at most. -/
theorem retains_applyRoot {lost : Address → Node σ → Prop} (n : Node σ)
    (herr : (S.applyRoot e n).2 = .error err) : n.Retains lost (S.applyRoot e n).1 := by
  by_cases hwrites : e.WritesScalar
  · obtain ⟨haction, tag, htag⟩ := hwrites
    rw [applyRoot_scalar haction htag] at herr ⊢
    split at herr
    · simp at herr
    · rcases hresult : (S.setLiteral (S.allocate n) e.value).2 with nav | u
      · exact (retains_allocate n).trans (retains_setLiteral _ e.value hresult)
      · simp [ofNavigation, hresult, Except.mapError] at herr
    · simp at herr
  · simp [applyRoot_idle hwrites] at herr

/-- An event that creates or replaces and fails loses at most leaves on its path. -/
theorem retains_apply (hS : S.Sound loops) (hn : S.Typed loops n) (hsilent : S.Silent n)
    (haction : e.action ≠ .delete) (herr : (S.apply o e n).2 = .error err) :
    n.Retains (S.LeafOn o n e.path) (S.apply o e n).1 := by
  cases hroot : e.isRoot with
  | true =>
      rw [apply, if_pos hroot] at herr ⊢
      exact retains_applyRoot n herr
  | false =>
      rw [apply_of_silent hn hsilent hroot] at herr ⊢
      exact retains_walk hS haction hn herr

/-- An event at the root does not fail at a document. -/
theorem applyRoot_dynamic (halloc : n.isAllocated = true) (hkind : n.innermost.kind = .dynamic) :
    (S.applyRoot e n).2 = .ok () := by
  obtain ⟨d, hd⟩ : ∃ d, (S.allocate n).innermost = .dynamic d := by
    rw [S.allocate_of_isAllocated halloc]
    cases hinner : n.innermost <;> simp [hinner, kind] at hkind
    exact ⟨_, rfl⟩
  by_cases hwrites : e.WritesScalar
  · obtain ⟨leaf, -, happly⟩ := applyRoot_document hwrites hd
    rw [happly]
  · rw [applyRoot_idle hwrites]

/-- A leaf of a document that the path of a failed event leads to becomes a map. -/
theorem Leads.exists_map_apply (hS : S.Sound loops) (hn : S.Typed loops n) (hsilent : S.Silent n)
    (haction : e.action ≠ .delete) (herr : (S.apply o e n).2 = .error err)
    (h : S.Leads o n e.path a) (hv : n.get? a = some v) (hatom : v.isAtom = true)
    (hkind : v.kind = .dynamic) :
    ∃ c entries, (S.apply o e n).1.get? a = some c ∧
      c.container = .map .string .dynamic entries := by
  cases hroot : e.isRoot with
  | true =>
      obtain ⟨hpath, -⟩ := Bool.and_eq_true_iff.1 hroot
      rw [List.isEmpty_iff.1 hpath] at h
      cases h
      obtain rfl := Option.some.inj (n.get?_coreAddress.symm.trans hv)
      rw [apply, if_pos hroot, applyRoot_dynamic (isAllocated_of_isAtom hv hatom) hkind] at herr
      simp at herr
  | false =>
      rw [apply_of_silent hn hsilent hroot]
      exact h.exists_map_walk hS haction hn hv hatom hkind

/-- After an event that creates or replaces has failed, a reader is shown what was shown
before, exactly if it is no leaf of a document that the event's path, or a part of it
from the front, leads to. -/
theorem exists_read_iff_of_apply_error (hS : S.Sound loops) {target : Node σ}
    (htarget : S.Typed loops target) (hsilent : S.Silent target) (haction : e.action ≠ .delete)
    (herr : (S.apply o e target).2 = .error err) {o' : Options} {keys : List String}
    {place : Place σ} {literal : String} (hread : S.read? o' target keys = some place)
    (hliteral : place.node.literal? = some literal) :
    (∃ found, S.read? o' (S.apply o e target).1 keys = some found ∧
        found.node.literal? = some literal) ↔
      (place.node.innermost.kind = .dynamic →
        ¬ S.Leads o target e.path (place.address ++ place.node.coreAddress)) := by
  have hkeeps := keeps_apply_of_silent hS htarget hsilent (o := o) e
  have hretains := retains_apply hS htarget hsilent haction herr
  have hdocuments : target.Retains (fun _ v => v.kind = .dynamic) (S.apply o e target).1 :=
    hretains.mono fun _ _ _ _ h => h.1
  have hthere : target.get? (place.address ++ place.node.coreAddress) =
      some place.node.innermost := by
    rw [get?_append, get?_read hread]
    exact place.node.get?_coreAddress
  obtain ⟨halloc, hatom, -⟩ := isAtom_of_literal hliteral
  constructor
  · rintro ⟨found, hfound, hshown⟩ hkind hleads
    obtain ⟨c, entries, hc, hmap⟩ :=
      hleads.exists_map_apply hS htarget hsilent haction herr hthere hatom hkind
    have hself : c.isEnclosing = false := by
      rcases eq_map_of_container hmap with ⟨order, rfl⟩ | ⟨-, -, others, rfl⟩
      · rfl
      · rfl
    have hbare := (ready_of_map hmap).bare
    obtain ⟨w, hw, hfilled, hinner⟩ := exists_innermost_of_retains htarget
      (hkeeps.typed htarget) hkeeps.ty_eq hdocuments hself hread halloc hc hbare
    obtain rfl := Option.some.inj (hw.symm.trans hfound)
    rw [literal_of_innermost (isAllocated_of_bare hbare) hfilled
      (hinner.trans (innermost_of_bare hbare).symm), literal?_of_map hmap] at hshown
    simp at hshown
  · intro hleaf
    refine exists_literal_of_retains htarget (hkeeps.typed htarget) hkeeps.ty_eq hdocuments hread
      hliteral ?_
    rcases hretains _ _ hthere hatom with hkept | ⟨hkind, hleads⟩
    · exact hkept
    · exact absurd hleads (hleaf hkind)

/-- A document with two texts. -/
def pair : Node Unit := .dynamic (.map [("a", .text "x"), ("b", .text "y")])

/-- An event whose path leads to the first text, where its key does not do. -/
def intoText : Event := ⟨.create, ["a"], "", .scalar .str, "z", none⟩

theorem typed_pair : (empty ()).Typed False pair := by
  refine .dynamic (.map (List.pairwise_pair.2 (by decide)) fun f hf => ?_)
  rcases List.mem_cons.1 hf with rfl | hf
  · exact .leaf rfl
  · obtain rfl := List.mem_singleton.1 hf
    exact .leaf rfl

theorem apply_intoText :
    (empty ()).apply {} intoText pair =
      (.dynamic (.map [("a", .map []), ("b", .text "y")]),
        .error (.navigation (.keyNotAddressable "" .emptyKey))) := by
  rfl

theorem find_intoText :
    (empty ()).find {} pair "a" (.ofKey {} "a") =
      .ok ⟨[.entry (.text "a")], .dynamic (.text "x")⟩ := by
  rfl

/-- The path of the event leads to the first text, and not to the second one. -/
theorem leads_intoText (h : (empty ()).Leads {} pair intoText.path a) :
    a = [] ∨ a = [.entry (.text "a")] := by
  cases h with
  | start => exact .inl rfl
  | step found _ below =>
      obtain rfl := Except.ok.inj (find_intoText.symm.trans found)
      cases below
      exact .inr rfl

/-- The second text is still read after the event has failed, the first one is not. -/
theorem exists_read_iff_of_apply_error_pair :
    (∃ found, (empty ()).read? {} ((empty ()).apply {} intoText pair).1 ["b"] = some found ∧
      found.node.literal? = some "y") ∧
    ¬ ∃ found, (empty ()).read? {} ((empty ()).apply {} intoText pair).1 ["a"] = some found ∧
      found.node.literal? = some "x" := by
  have hsound := sound_empty ()
  have hsilent := silent_dynamic (S := empty ()) (.map [("a", .text "x"), ("b", .text "y")])
  have herr := congrArg Prod.snd apply_intoText
  have hfirst : (empty ()).read? {} pair ["a"] =
      some ⟨[.entry (.text "a")], .dynamic (.text "x")⟩ := by rfl
  have hsecond : (empty ()).read? {} pair ["b"] =
      some ⟨[.entry (.text "b")], .dynamic (.text "y")⟩ := by rfl
  constructor
  · refine (exists_read_iff_of_apply_error hsound typed_pair hsilent (by decide) herr hsecond
      rfl).2 fun _ hleads => ?_
    rcases leads_intoText hleads with hroot | hchild
    · simp at hroot
    · simp [coreAddress] at hchild
  · intro hread
    refine (exists_read_iff_of_apply_error hsound typed_pair hsilent (by decide) herr hfirst
      rfl).1 hread rfl ?_
    exact .step find_intoText (by decide) (.start _ _)

/-- The first text is read before, and not after the event has failed. -/
theorem text_given_up :
    (empty ()).OverrideFree ∧ (empty ()).Typed False pair ∧
      ((empty ()).read? {} pair ["a"]).bind (fun p => p.node.literal?) = some "x" ∧
      ((empty ()).apply {} intoText pair).2 =
        .error (.navigation (.keyNotAddressable "" .emptyKey)) ∧
      ((empty ()).read? {} ((empty ()).apply {} intoText pair).1 ["a"]).bind
        (fun p => p.node.literal?) = none := by
  refine ⟨overrideFree_empty (), typed_pair, rfl, ?_, ?_⟩
  · rw [apply_intoText]
  · rw [apply_intoText]
    rfl

end Schema

end TreeSync
