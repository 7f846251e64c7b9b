import TreeSync.Proofs.Apply.Lifting
import TreeSync.Proofs.Navigate.Slots
import TreeSync.Proofs.Node.Replacing

/-!
# Walking

A step that does not come back to where it was either fails or goes on in a child,
and what happens there is put back.  No step in a tree comes back.

Main definitions and results:

- `Schema.walk_cons`: one step of a walk in a tree.
- `Schema.walk_entered`, `Schema.walk_innermost`: a walk below layers that have a value.
- `Schema.Opens`: filling the layers of a node makes no difference to a walk.
- `Schema.walk_create_of_opens`, `Schema.walk_delete_of_address`: a step from a bare
  node, and `Schema.walk_create`, `Schema.walk_delete` for trees.
-/

namespace TreeSync

namespace Schema

open Node

variable {σ : Type} {S : Schema σ} {o : Options} {loops : Prop} {e : Event} {n c : Node σ}

/-! ## No way back -/

/-- A step leads below the layers of the node that it leaves behind. -/
theorem enter_address (hS : S.Sound False) (hn : S.Typed False n) {action : Action} {key : String}
    {m : Node σ} {a : Address} (h : S.enter o action n key = (m, .ok a)) :
    ∃ b, b ≠ [] ∧ a = m.coreAddress ++ b := by
  by_cases haction : action = .delete
  · rw [haction, enter_delete] at h
    obtain ⟨rfl, hfind⟩ := Prod.mk.inj h
    rcases map_eq_ok.1 hfind with ⟨place, hplace, rfl⟩
    by_cases halloc : n.isAllocated = true
    · have hbare := bare_innermost halloc
      rw [← n.withCore_innermost, find_withCore hbare] at hplace
      rcases map_eq_ok.1 hplace with ⟨below, hbelow, rfl⟩
      exact ⟨below.address, find_address_ne hn.innermost hbare hbelow, rfl⟩
    · rcases exists_core_eq_error (Bool.eq_false_iff.2 halloc) with ⟨t, ht⟩
      rw [find, ht] at hplace
      simp at hplace
  · have hready := S.ready_innermost_promote n
    have hp : S.Typed False (S.promote n).innermost :=
      ((keeps_promote hS n).typed hn).innermost
    rw [enter_of_ne haction, ← (S.promote n).withCore_innermost,
      findOrCreate_withCore hS hready.bare] at h
    obtain ⟨rfl, hr⟩ := Prod.mk.inj h
    rcases map_eq_ok.1 hr with ⟨b, hb, rfl⟩
    have hbare : (S.findOrCreate o (S.promote n).innermost key (.ofKey o key)).1.Bare :=
      hready.bare.of_ty_eq (keeps_findOrCreate hS _ key _).ty_eq
    refine ⟨b, ?_, by rw [coreAddress_withCore _ hbare]⟩
    rw [findOrCreate] at hb
    simp only [S.allocate_of_bare hready.bare, innermost_of_bare hready.bare,
      coreAddress_of_bare hready.bare, putBack, replaceAt, List.nil_append] at hb
    split at hb
    · simp at hb
    · rename_i m a heq
      have hne := createChild_address_ne hp (Prod.mk.inj heq).2
      split at hb
      · simp at hb
      · obtain rfl := Except.ok.inj hb
        simp [hne]

/-- One step of a walk that does not come back to where it was. -/
theorem walk_cons_of_address {key : String}
    (h : ∀ m a, S.enter o e.action n key = (m, .ok a) → ∃ b, b ≠ [] ∧ a = m.coreAddress ++ b)
    (rest : List String) :
    S.walk o e n (key :: rest) =
      match S.enter o e.action n key with
      | (m, .error err) => (m, .error (.pathNotFound key err))
      | (m, .ok a) =>
          match m.get? a with
          | none => (m, .error (.pathNotFound key (.entryNotFound key)))
          | some child => m.putBack a (S.walk o e child rest) := by
  rw [walk]
  rcases heq : S.enter o e.action n key with ⟨m, _ | a⟩
  · rfl
  · rcases h m a heq with ⟨b, hb, rfl⟩
    cases hchild : m.get? (m.coreAddress ++ b) with
    | none => simp only [hchild]
    | some child =>
        simp only [hchild]
        refine if_neg ?_
        rintro ⟨-, hcycle⟩
        rw [List.append_assoc, List.append_right_eq_self] at hcycle
        exact hb (List.append_eq_nil_iff.1 hcycle).1

/-- One step of a walk in a tree. -/
theorem walk_cons (hS : S.Sound False) (hn : S.Typed False n) (e : Event) (key : String)
    (rest : List String) :
    S.walk o e n (key :: rest) =
      match S.enter o e.action n key with
      | (m, .error err) => (m, .error (.pathNotFound key err))
      | (m, .ok a) =>
          match m.get? a with
          | none => (m, .error (.pathNotFound key (.entryNotFound key)))
          | some child => m.putBack a (S.walk o e child rest) :=
  walk_cons_of_address (fun _ _ h => enter_address hS hn h) rest

/-- Nothing is found below a dynamic leaf. -/
theorem ready_of_find (hbare : c.Bare) {key : String} {mode : Mode} {place : Place σ}
    (hfind : S.find o c key mode = .ok place) : Ready c := by
  refine ⟨hbare, ?_⟩
  cases c with
  | dynamic doc =>
      rw [entered]
      by_cases hleaf : doc.isLeaf = true
      · have hcontainer : (dynamic doc : Node σ).container = .leaf := by
          cases doc <;> first | rfl | simp [Document.isLeaf] at hleaf
        rw [find_item hbare (by simp [hcontainer]), findItem, hcontainer] at hfind
        simp at hfind
      · rw [if_neg hleaf]
  | _ => rfl

/-! ## Creating and replacing -/

/-- An event that creates or replaces starts from the promoted node. -/
theorem walk_promote (hS : S.Sound False) (hn : S.Typed False n) (haction : e.action ≠ .delete)
    (path : List String) : S.walk o e (S.promote n) path = S.walk o e n path := by
  cases path with
  | nil => exact perform_promote haction n
  | cons key rest =>
      have hp := (keeps_promote hS n).typed hn
      rw [walk_cons hS hn, walk_cons hS hp, enter_promote haction]

/-- The promoted node is what an event that creates or replaces works on. -/
theorem walk_eq_withCore (hS : S.Sound False) (hn : S.Typed False n)
    (haction : e.action ≠ .delete) (path : List String) :
    S.walk o e n path =
      ((S.promote n).withCore (S.walk o e (S.promote n).innermost path).1,
        (S.walk o e (S.promote n).innermost path).2) := by
  have hready := S.ready_innermost_promote n
  have hlift := walk_withCore hS (o := o) (e := e) hready.bare (fun _ => hready) (S.promote n) path
  rw [withCore_innermost] at hlift
  rw [← walk_promote hS hn haction, hlift]

theorem walk_promote_of_isAllocated (halloc : n.isAllocated = true) (haction : e.action ≠ .delete)
    (path : List String) : S.walk o e (S.promote n) path = S.walk o e n path := by
  cases path with
  | nil => exact perform_promote haction n
  | cons key rest =>
      have hfilled : (S.promote n).isAllocated = true := by
        rw [promote_eq_withCore]
        exact isAllocated_withCore _ (ready_entered (S.bare_innermost_allocate n)).bare
      rw [walk, walk, enter_promote haction, hfilled, halloc]

/-- Below layers that have a value an event that creates or replaces starts from what it
enters. -/
theorem walk_entered (hS : S.Sound loops) (halloc : n.isAllocated = true)
    (haction : e.action ≠ .delete) (path : List String) :
    S.walk o e n path =
      (n.withCore (S.walk o e (entered n.innermost) path).1,
        (S.walk o e (entered n.innermost) path).2) := by
  have hready := ready_entered (bare_innermost halloc)
  rw [← walk_promote_of_isAllocated halloc haction, promote_eq_withCore,
    S.allocate_of_isAllocated halloc, walk_withCore hS hready.bare (fun _ => hready)]

/-- Layers that have a value stay as they are. -/
theorem walk_innermost (hS : S.Sound loops) (halloc : n.isAllocated = true)
    (haction : e.action ≠ .delete) (path : List String) :
    S.walk o e n path =
      (n.withCore (S.walk o e n.innermost path).1, (S.walk o e n.innermost path).2) := by
  have hbare := bare_innermost halloc
  have hbelow := walk_entered hS (o := o) (isAllocated_of_bare hbare) haction path
  rw [innermost_of_bare hbare, withCore_of_bare hbare] at hbelow
  rw [walk_entered hS halloc haction, hbelow]

/-- Filling the layers of a node first makes no difference to a walk. -/
def Opens (S : Schema σ) (o : Options) (e : Event) (path : List String) (n : Node σ) : Prop :=
  S.walk o e n path =
    (S.allocate n).putBack (S.allocate n).coreAddress (S.walk o e (S.allocate n).innermost path)

/-- Below layers that have a value there is nothing to fill. -/
theorem opens_of_ready (hS : S.Sound loops) (halloc : n.isAllocated = true)
    (hready : Ready n.innermost) (path : List String) : S.Opens o e path n := by
  have hlift := walk_withCore hS (o := o) (e := e) hready.bare (fun _ => hready) n path
  rw [withCore_innermost] at hlift
  rw [Opens, S.allocate_of_isAllocated halloc, hlift]
  rfl

/-- Filling the layers in a tree makes no difference. -/
theorem walk_allocate (hS : S.Sound False) (hn : S.Typed False n) (haction : e.action ≠ .delete)
    (path : List String) : S.Opens o e path n := by
  have hbare := S.bare_innermost_allocate n
  have ha : S.Typed False (S.allocate n).innermost := ((keeps_allocate hS n).typed hn).innermost
  have hready := ready_entered hbare
  have hbelow := walk_eq_withCore hS (o := o) ha haction path
  rw [promote_eq_withCore, S.allocate_of_bare hbare, innermost_of_bare hbare,
    withCore_of_bare hbare, innermost_of_bare hready.bare] at hbelow
  have hresult : (S.walk o e (entered (S.allocate n).innermost) path).1.Bare :=
    hready.bare.of_ty_eq (keeps_walk hS e _ path).ty_eq
  rw [Opens, walk_eq_withCore hS hn haction, innermost_promote, promote_eq_withCore,
    withCore_withCore _ hready.bare, hbelow, withCore_of_bare hready.bare]
  rfl

/-- The node with another bare part below its layers stays a tree of its type. -/
theorem keeps_withCore_of_ty {v : Node σ} (hty : v.ty = n.innermost.ty) (hv : S.Typed False v) :
    S.Keeps False n (n.withCore v) :=
  Keeps.withCore (.of_typed hty hv hv.isEnclosing_eq_false)

/-- An event below layers that have a value, whatever stands below them. -/
theorem walk_below (hS : S.Sound False) (hn : S.Typed False n) (hc : c.Bare)
    (htyped : S.Typed False c) (hty : c.ty = n.innermost.ty) (path : List String) :
    S.walk o e (n.withCore c) path =
      (n.withCore (S.walk o e c path).1, (S.walk o e c path).2) := by
  by_cases haction : e.action = .delete
  · exact walk_withCore hS hc (fun h => absurd haction h) n path
  · have hbelow := (keeps_withCore_of_ty hty htyped).typed hn
    rw [walk_allocate hS hbelow haction,
      S.allocate_of_isAllocated (isAllocated_withCore n hc), innermost_withCore n hc]
    exact Prod.ext (withCore_withCore n hc _) rfl

/-- What a step that creates or replaces makes of a bare node that it can enter. -/
theorem enter_create (hready : Ready c) {action : Action} (haction : action ≠ .delete)
    (key : String) :
    S.enter o action c key =
      match S.createChild o c key (.ofKey o key) with
      | (m, .error err) => (m, .error err)
      | (m, .ok a) =>
          match m.get? a with
          | none => (m, .error (.entryNotFound key))
          | some child =>
              (m.replaceAt a (S.allocate child), .ok (a ++ (S.allocate child).coreAddress)) := by
  rw [enter_of_ne haction, promote_of_ready hready, findOrCreate, S.allocate_of_bare hready.bare,
    innermost_of_bare hready.bare, coreAddress_of_bare hready.bare]
  rfl

/-- A creating step that led somewhere made a child and allocated it. -/
theorem enter_create_eq_ok (hready : Ready c) {action : Action} (haction : action ≠ .delete)
    {key : String} {m : Node σ} {a : Address} (h : S.enter o action c key = (m, .ok a)) :
    ∃ r b child, S.createChild o c key (.ofKey o key) = (r, .ok b) ∧ r.get? b = some child ∧
      m = r.replaceAt b (S.allocate child) ∧ a = b ++ (S.allocate child).coreAddress := by
  rw [enter_create hready haction] at h
  rcases hmade : S.createChild o c key (.ofKey o key) with ⟨r, _ | b⟩
  · simp [hmade] at h
  · cases hchild : r.get? b with
    | none => simp [hmade, hchild] at h
    | some child =>
        simp only [hmade, hchild] at h
        obtain ⟨rfl, ha⟩ := Prod.mk.inj h
        exact ⟨r, b, child, rfl, hchild, rfl, (Except.ok.inj ha).symm⟩

/-- A step of an event that creates or replaces, from a bare node that it can
enter to a child that it goes on in. -/
theorem walk_create_of_opens (hS : S.Sound loops) (hready : Ready c) (haction : e.action ≠ .delete)
    {key : String} {rest : List String}
    (hne : ∀ m a, S.createChild o c key (.ofKey o key) = (m, .ok a) → a ≠ [])
    (hopens : ∀ m a child, S.createChild o c key (.ofKey o key) = (m, .ok a) →
      m.get? a = some child → S.Opens o e rest child) :
    S.walk o e c (key :: rest) =
      match S.createChild o c key (.ofKey o key) with
      | (m, .error err) => (m, .error (.pathNotFound key err))
      | (m, .ok a) =>
          match m.get? a with
          | none => (m, .error (.pathNotFound key (.entryNotFound key)))
          | some child => m.putBack a (S.walk o e child rest) := by
  have hkeeps := keeps_createChild hS (o := o) c key (.ofKey o key)
  have henter := enter_create (S := S) (o := o) hready haction key
  rw [walk_cons_of_address, henter]
  · rcases hcreate : S.createChild o c key (.ofKey o key) with ⟨m, _ | a⟩
    · rfl
    · cases hget : m.get? a with
      | none => simp only [hget]
      | some child =>
          have hallocate := keeps_allocate hS child
          have hwalk := keeps_walk hS (o := o) e (S.allocate child).innermost rest
          simp only [hget, get?_replaceAt_append hget hallocate.ty_eq, get?_coreAddress]
          rw [hopens m a child hcreate hget]
          refine Prod.ext ?_ rfl
          exact replaceAt_replaceAt_append hget hallocate.ty_eq
            (hwalk.withCore.ty_eq.trans hallocate.ty_eq)
  · intro m' a' h
    rw [henter] at h
    rcases hcreate : S.createChild o c key (.ofKey o key) with ⟨m, _ | a⟩
    · simp [hcreate] at h
    · cases hget : m.get? a with
      | none => simp [hcreate, hget] at h
      | some child =>
          simp only [hcreate, hget, Prod.mk.injEq, Except.ok.injEq] at h
          rcases h with ⟨rfl, rfl⟩
          rw [hcreate] at hkeeps
          have hmade := hkeeps.trans ((keeps_allocate hS child).replaceAt hget)
          refine ⟨a ++ (S.allocate child).coreAddress, ?_, ?_⟩
          · exact fun hnil => hne m a hcreate (List.append_eq_nil_iff.1 hnil).1
          · rw [coreAddress_of_bare (hready.bare.of_ty_eq hmade.ty_eq)]
            rfl

/-- A step in a tree of an event that creates or replaces, from a bare node that it
can enter. -/
theorem walk_create (hS : S.Sound False) (hc : S.Typed False c) (hready : Ready c)
    (haction : e.action ≠ .delete) (key : String) (rest : List String) :
    S.walk o e c (key :: rest) =
      match S.createChild o c key (.ofKey o key) with
      | (m, .error err) => (m, .error (.pathNotFound key err))
      | (m, .ok a) =>
          match m.get? a with
          | none => (m, .error (.pathNotFound key (.entryNotFound key)))
          | some child => m.putBack a (S.walk o e child rest) := by
  have hkeeps := keeps_createChild hS (o := o) c key (.ofKey o key)
  refine walk_create_of_opens hS hready haction ?_ ?_
  · exact fun m a h => createChild_address_ne hc (congrArg Prod.snd h)
  · intro m a child hcreate hget
    rw [hcreate] at hkeeps
    exact walk_allocate hS ((hkeeps.typed hc).get hget) haction rest

/-- A step of an event that deletes, from a bare node to a child below it. -/
theorem walk_delete_of_address (hbare : c.Bare) (haction : e.action = .delete) {key : String}
    (hne : ∀ place, S.find o c key (.ofKey o key) = .ok place → place.address ≠ [])
    (rest : List String) :
    S.walk o e c (key :: rest) =
      match S.find o c key (.ofKey o key) with
      | .error err => (c, .error (.pathNotFound key err))
      | .ok place => c.putBack place.address (S.walk o e place.node rest) := by
  rw [walk_cons_of_address, haction, enter_delete]
  · cases hfind : S.find o c key (.ofKey o key) with
    | error err => rfl
    | ok place =>
        have hget := get?_find hfind
        simp only [Functor.map, Except.map, hget]
  · intro m a h
    rw [haction, enter_delete] at h
    obtain ⟨rfl, hfind⟩ := Prod.mk.inj h
    rcases map_eq_ok.1 hfind with ⟨place, hplace, rfl⟩
    rw [coreAddress_of_bare hbare]
    exact ⟨place.address, hne place hplace, rfl⟩

/-- A step in a tree of an event that deletes, from a bare node. -/
theorem walk_delete (hc : S.Typed False c) (hbare : c.Bare) (haction : e.action = .delete)
    (key : String) (rest : List String) :
    S.walk o e c (key :: rest) =
      match S.find o c key (.ofKey o key) with
      | .error err => (c, .error (.pathNotFound key err))
      | .ok place => c.putBack place.address (S.walk o e place.node rest) :=
  walk_delete_of_address hbare haction (fun _ h => find_address_ne hc hbare h) rest

end Schema

end TreeSync
