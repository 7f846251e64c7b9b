import TreeSync.Proofs.Apply.Walking
import TreeSync.Proofs.Navigate.Reached

/-!
# The nodes that an event visits

A creating event makes on its way what finding would not lead to.  The nodes that
it visits are those where its steps end.  Where a key leads to a child that is
already there, stepping along it makes nothing and only fills the layers of the
child, so the event visits what finding reaches.

Main definitions and results:

- `Schema.visited`: the nodes that an event visits along a path.
- `Schema.findOrCreate_of_find`, `Schema.enter_of_find`: a step to a child that is
  already there.
- `Schema.exists_visited`: what finding reaches is visited.
-/

namespace TreeSync

namespace Schema

open Node

variable {σ : Type} {S : Schema σ} {o : Options} {loops : Prop} {n c : Node σ} {key : String}
  {mode : Mode} {place : Place σ} {action : Action}

/-! ## Steps to children that are already there -/

theorem createItem_of_find (h : S.findItem o c key mode = .ok place) :
    S.createItem o c key mode = (c, .ok place.address) := by
  rw [findItem] at h
  rw [createItem]
  split at h
  · rename_i kind elem entries hc
    rcases bind_eq_ok.1 h with ⟨u, hrequire, hkey⟩
    rcases bind_eq_ok.1 hkey with ⟨k, hdecode, hget⟩
    rw [hrequire]
    simp only [bind, Except.bind, hdecode]
    split at hget
    · obtain rfl := Except.ok.inj hget
      simp only
    · simp at hget
  · rename_i elem items hc
    rcases bind_eq_ok.1 h with ⟨position, hlocate, hget⟩
    split at hget
    · split at hget
      · obtain rfl := Except.ok.inj hget
        simp only [locateOrAppend, hlocate]
        rfl
      · simp at hget
    · simp at hget
  all_goals simp at h

theorem createChild_of_find (hc : S.Typed loops c) (hbare : c.Bare)
    (h : S.find o c key mode = .ok place) :
    S.createChild o c key mode = (c, .ok place.address) := by
  by_cases hrecord : ∃ type fields, c.container = .record type fields
  · rcases hrecord with ⟨type, fields, hrecord⟩
    rw [find, core_of_bare hbare] at h
    simp only [hrecord, coreAddress_of_bare hbare] at h
    rcases map_eq_ok.1 h with ⟨below, hbelow, rfl⟩
    rcases bind_eq_ok.1 hbelow with ⟨u, hrequire, hkey⟩
    rcases bind_eq_ok.1 hkey with ⟨⟨name, text⟩, hsplit, hname⟩
    rcases bind_eq_ok.1 hname with ⟨field, hfield, hrest⟩
    have hget := get?_fieldPlace hrecord hfield
    rw [createChild]
    simp only [hrecord, hrequire, hsplit, hfield, bind, Except.bind, pure, Except.pure]
    split at hrest
    · rename_i htext
      split at hrest
      · obtain rfl := Except.ok.inj hrest
        rw [if_pos htext]
        rfl
      · simp at hrest
    · rename_i htext
      rw [if_neg htext]
      split at hrest
      · simp at hrest
      · rename_i d hd
        rcases map_eq_ok.1 hrest with ⟨item, hitem, rfl⟩
        obtain rfl := innermost_of_core hd
        -- The item is there already, so the record and the field stay as they are.
        rw [S.allocate_of_isAllocated (isAllocated_of_core hd), createItem_of_find hitem]
        simp only [(hc.get hget).replaceAt_self (get?_coreAddress _), hc.replaceAt_self hget]
        rfl
  · have hitems : ∀ type fields, c.container ≠ .record type fields :=
      fun type fields heq => hrecord ⟨type, fields, heq⟩
    rw [find_item hbare hitems] at h
    rw [createChild_item hitems, createItem_of_find h]

/-- A child is found in a node with a core only. -/
theorem isAllocated_of_find (h : S.find o n key mode = .ok place) : n.isAllocated = true := by
  rw [find] at h
  split at h
  · simp at h
  · rename_i c hcore
    exact isAllocated_of_core hcore

/-- A step to a child that is already there fills the layers of the child. -/
theorem findOrCreate_of_find (hn : S.Typed loops n) (h : S.find o n key mode = .ok place) :
    S.findOrCreate o n key mode =
      (n.replaceAt place.address (S.allocate place.node),
        .ok (place.address ++ (S.allocate place.node).coreAddress)) := by
  have halloc := isAllocated_of_find h
  have hbare := bare_innermost halloc
  have hget := get?_find h
  rw [← n.withCore_innermost, find_withCore hbare] at h
  rcases map_eq_ok.1 h with ⟨below, hbelow, rfl⟩
  have hself : n.replaceAt n.coreAddress n.innermost = n := n.withCore_innermost
  rw [findOrCreate, S.allocate_of_isAllocated halloc]
  simp only [createChild_of_find hn.innermost hbare hbelow, putBack, hself]
  simp only [Place.under] at hget ⊢
  simp only [hget]

/-- A node that a child is found in stays as it is when it is entered. -/
theorem promote_of_find (h : S.find o n key mode = .ok place) : S.promote n = n := by
  have hbare := bare_innermost (isAllocated_of_find h)
  rw [← n.withCore_innermost, find_withCore hbare] at h
  rcases map_eq_ok.1 h with ⟨below, hbelow, -⟩
  have hpromote := promote_withCore (S := S) (ready_of_find hbare hbelow) n
  rwa [withCore_innermost] at hpromote

theorem enter_of_find (hn : S.Typed loops n) (haction : action ≠ .delete)
    (h : S.find o n key (.ofKey o key) = .ok place) :
    S.enter o action n key =
      (n.replaceAt place.address (S.allocate place.node),
        .ok (place.address ++ (S.allocate place.node).coreAddress)) := by
  rw [enter_of_ne haction, promote_of_find h, findOrCreate_of_find hn h]

/-! ## Visited nodes -/

/-- The nodes that an event visits along a path, as it finds or makes them; the one
at position `i` is behind the first `i` segments. -/
def visited (S : Schema σ) (o : Options) (action : Action) (n : Node σ) :
    List String → List (Node σ)
  | [] => [n]
  | key :: rest =>
      n ::
        match S.enter o action n key with
        | (_, .error _) => []
        | (m, .ok a) => (m.get? a).elim [] fun child => visited S o action child rest

theorem visited_zero (n : Node σ) (path : List String) :
    (S.visited o action n path)[0]? = some n := by
  cases path <;> rfl

theorem visited_succ {m child : Node σ} {a : Address}
    (henter : S.enter o action n key = (m, .ok a)) (hchild : m.get? a = some child)
    (rest : List String) (i : Nat) :
    (S.visited o action n (key :: rest))[i + 1]? = (S.visited o action child rest)[i]? := by
  rw [visited, henter]
  simp only [hchild, Option.elim_some, List.getElem?_cons_succ]

/-- Nodes with the same core lead to the same children. -/
theorem exists_find_of_core {m : Node σ} (hcore : m.core = n.core)
    (h : S.find o n key mode = .ok place) :
    ∃ other, S.find o m key mode = .ok other ∧ other.node = place.node := by
  have hn := core_eq_ok_innermost (isAllocated_of_find h)
  have hm := hcore.trans hn
  rw [← n.withCore_innermost, find_withCore (bare_of_core hn)] at h
  rcases map_eq_ok.1 h with ⟨below, hbelow, rfl⟩
  refine ⟨below.under m.coreAddress, ?_, rfl⟩
  rw [← m.withCore_innermost, innermost_of_core hm, find_withCore (bare_of_core hn), hbelow,
    coreAddress_withCore _ (bare_of_core hn)]
  rfl

/-- What is reached behind a node shows that the node has a core. -/
theorem isAllocated_of_reached {path : List String} {i : Nat}
    (h : (S.reached o n path)[i]? = some place) (halloc : place.node.isAllocated = true) :
    n.isAllocated = true := by
  cases i with
  | zero =>
      obtain rfl : ⟨[], n⟩ = place := by
        cases path <;> exact Option.some.inj h
      exact halloc
  | succ i =>
      cases path with
      | nil => simp [reached] at h
      | cons key rest =>
          cases hfind : S.find o n key (.ofKey o key) with
          | error err => simp [reached_of_error hfind] at h
          | ok first => exact isAllocated_of_find hfind

/-- What finding reaches is visited, from any node with the same core. -/
theorem exists_visited {path : List String} {i : Nat} {m : Node σ} (hm : S.Typed loops m)
    (haction : action ≠ .delete) (hcore : m.core = n.core)
    (hplace : (S.reached o n path)[i]? = some place) (halloc : place.node.isAllocated = true) :
    ∃ v, (S.visited o action m path)[i]? = some v ∧ v.core = place.node.core := by
  induction path generalizing n m i place with
  | nil =>
      cases i with
      | succ i => simp [reached] at hplace
      | zero =>
          obtain rfl : (⟨[], n⟩ : Place σ) = place := Option.some.inj hplace
          exact ⟨m, rfl, hcore⟩
  | cons key rest ih =>
      cases i with
      | zero =>
          obtain rfl : (⟨[], n⟩ : Place σ) = place := Option.some.inj hplace
          exact ⟨m, rfl, hcore⟩
      | succ i =>
          cases hfind : S.find o n key (.ofKey o key) with
          | error err => simp [reached_of_error hfind] at hplace
          | ok first =>
              rw [reached_of_ok hfind, List.getElem?_cons_succ, List.getElem?_map] at hplace
              rcases Option.map_eq_some_iff.1 hplace with ⟨q, hq, rfl⟩
              have hfirst : first.node.isAllocated = true := isAllocated_of_reached hq halloc
              rcases exists_find_of_core hcore hfind with ⟨other, hother, hsame⟩
              rw [← hsame] at hfirst hq
              have henter := enter_of_find hm haction hother
              have hget := get?_find hother
              rw [S.allocate_of_isAllocated hfirst, hm.replaceAt_self hget] at henter
              have hchild : m.get? (other.address ++ other.node.coreAddress) =
                  some other.node.innermost := by
                rw [get?_append, hget]
                exact get?_coreAddress other.node
              have hbare := core_of_bare (bare_innermost hfirst)
              have hnext := ih (hm.get hchild)
                (hbare.trans (core_eq_ok_innermost hfirst).symm) hq halloc
              rw [visited_succ henter hchild]
              exact hnext

end Schema

end TreeSync
