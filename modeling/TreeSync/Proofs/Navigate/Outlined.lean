import TreeSync.Proofs.Navigate.Reached
import TreeSync.Proofs.Node.Outline

/-!
# Finding reads no states

Where a key leads to, and how far a path resolves, shows in the outline of a
node.

Main results:

- `Schema.find_congr`: finding in two nodes with one outline.
- `Schema.reached_congr`: the places along a path.
-/

namespace TreeSync

open Node

variable {σ : Type} {o : Options}

namespace Node

/-! ## Fields -/

/-- The field for a name is told by names alone. -/
theorem fieldPlace_outline (write : Bool) (n : Node σ) (type : String)
    (fields : List (Field × Node σ)) (name : String) :
    n.outline.fieldPlace o write type (fields.map fun f => (f.1, f.2.outline)) name =
      Place.outline <$> n.fieldPlace o write type fields name := by
  rw [fieldPlace, fieldPlace, map_fst_outline]
  cases Field.index? o name (fields.map Prod.fst) with
  | none => rfl
  | some i =>
      simp only [List.getElem?_map]
      cases fields[i]? with
      | none => rfl
      | some f =>
          obtain ⟨f, child⟩ := f
          simp only [Option.map_some]
          by_cases hw : (write && !f.writable) = true
          · rw [if_pos hw, if_pos hw]
            rfl
          · rw [if_neg hw, if_neg hw]
            cases child <;> rfl

/-- The field that a name stands for in two records with one outline. -/
theorem fieldPlace_congr {c d : Node σ} (h : c.outline = d.outline)
    {fields others : List (Field × Node σ)}
    (hfields : fields.map (fun f => (f.1, f.2.outline)) = others.map fun f => (f.1, f.2.outline))
    (write : Bool) (type name : String) :
    Place.outline <$> c.fieldPlace o write type fields name =
      Place.outline <$> d.fieldPlace o write type others name := by
  rw [← fieldPlace_outline, ← fieldPlace_outline, h, hfields]

theorem namedField?_outline (name : String) (n : Node σ) :
    n.outline.namedField? o name = (n.namedField? o name).map outline := by
  rw [namedField?, namedField?, core?_outline]
  cases n.core? with
  | none => rfl
  | some c =>
      simp only [Option.map_some, container_outline]
      cases c.container with
      | record type fields =>
          simp only [Container.outline, fieldPlace_outline]
          cases c.fieldPlace o false type fields name <;> rfl
      | map kind elem entries => exact entry?_outline c name
      | _ => rfl

end Node

namespace Schema

variable {S : Schema σ}

/-! ## Elements -/

/-- Named fields are compared by their outlines. -/
theorem agrees_outline (fields : List String) (built element : Node σ) :
    agrees o fields built.outline element.outline = agrees o fields built element := by
  rw [agrees, agrees, same_outline]
  congr 2
  refine funext fun field => ?_
  rw [namedField?_outline, namedField?_outline]
  cases element.namedField? o field with
  | none => rfl
  | some a =>
      cases built.namedField? o field with
      | none => rfl
      | some b => exact same_outline a b

/-- A key matches the same position in lists with one outline. -/
theorem matchIndex_congr {items others : List (Node σ)}
    (h : items.map outline = others.map outline) (elem : Ty) (key : String) :
    S.matchIndex o elem items key = S.matchIndex o elem others key := by
  have hread : ∀ (fields : List String) (built : Node σ) (items : List (Node σ)),
      items.findIdx? (agrees o fields built) =
        (items.map outline).findIdx? (agrees o fields built.outline) := by
    intro fields built items
    rw [List.findIdx?_map]
    congr 1
    exact funext fun item => (agrees_outline fields built item).symm
  simp only [matchIndex, hread, h]

/-- So does any other way to locate an element. -/
theorem locate_congr {items others : List (Node σ)} (h : items.map outline = others.map outline)
    (elem : Ty) (key : String) (mode : Mode) :
    S.locate o elem items key mode = S.locate o elem others key mode := by
  have hlength : items.length = others.length := by simpa using congrArg List.length h
  have hempty : items.isEmpty = others.isEmpty := by
    rw [← List.isEmpty_map (f := outline), h, List.isEmpty_map]
  simp only [locate, matchIndex_congr h, hlength, hempty]

/-! ## Steps -/

/-- What a look-up finds at an address, in two containers with one outline. -/
theorem found_congr {x y : Option (Node σ)} (h : x.map outline = y.map outline) (a : Address)
    (err : NavError) :
    (Place.outline <$> match x with
      | some v => Except.ok (Place.mk a v)
      | none => .error err) =
    (Place.outline <$> match y with
      | some v => Except.ok (Place.mk a v)
      | none => .error err) := by
  cases x with
  | none =>
      obtain rfl : y = none := Option.map_eq_none_iff.1 h.symm
      rfl
  | some v =>
      rcases Option.map_eq_some_iff.1 h.symm with ⟨w, rfl, hw⟩
      exact congrArg (fun u => Except.ok (Place.mk a u)) hw.symm

/-- Finding in two containers with one outline leads to the same place. -/
theorem findItem_congr {c d : Node σ} (h : c.outline = d.outline) (key : String) (mode : Mode) :
    Place.outline <$> S.findItem o c key mode = Place.outline <$> S.findItem o d key mode := by
  have halike := alike_container h
  rw [findItem, findItem, ty_eq_of_outline h]
  generalize c.container = x at halike
  generalize d.container = y at halike
  cases halike with
  | record type | fixed | leaf => rfl
  | @map kind elem entries others hentries =>
      refine map_bind_congr (p := id) (q := id) rfl fun _ _ _ => ?_
      refine map_bind_congr (p := id) (q := id) rfl ?_
      rintro k _ rfl
      refine found_congr ?_ [.entry k] (.entryNotFound key)
      rw [← Entries.get?_map, hentries, Entries.get?_map, id]
  | @list elem items others hitems =>
      refine map_bind_congr (p := id) (q := id) (by rw [locate_congr hitems]) ?_
      rintro position _ rfl
      cases position with
      | none => rfl
      | some i =>
          refine found_congr ?_ [.element i] (.entryNotFound key)
          rw [← List.getElem?_map, hitems, List.getElem?_map]

theorem under_congr {x y : Except NavError (Place σ)}
    (h : Place.outline <$> x = Place.outline <$> y) (a : Address) :
    Place.outline <$> Place.under a <$> x = Place.outline <$> Place.under a <$> y := by
  rcases map_eq_map.1 h with ⟨err, rfl, rfl⟩ | ⟨p, q, rfl, rfl, hpq⟩
  · rfl
  · exact congrArg (fun r => Except.ok (Place.under a r)) hpq

/-- Finding in two nodes with one outline leads to the same place. -/
theorem find_congr {n m : Node σ} (h : n.outline = m.outline) (key : String) (mode : Mode) :
    Place.outline <$> S.find o n key mode = Place.outline <$> S.find o m key mode := by
  rw [find, find, coreAddress_eq_of_outline h]
  rcases map_eq_map.1 (core_eq_of_outline h) with ⟨t, hn, hm⟩ | ⟨c, d, hn, hm, hcd⟩
  · rw [hn, hm]
  · rw [hn, hm]
    refine under_congr ?_ m.coreAddress
    have hitem := findItem_congr (S := S) (o := o) hcd key mode
    have halike := alike_container hcd
    generalize c.container = x at halike
    generalize d.container = y at halike
    cases halike with
    | @record type fields others hfields =>
        refine map_bind_congr (p := id) (q := id) rfl fun _ _ _ => ?_
        refine map_bind_congr (p := id) (q := id) rfl ?_
        rintro ⟨name, rest⟩ _ rfl
        refine map_bind_congr (fieldPlace_congr hcd hfields false type name) fun p q hpq => ?_
        obtain ⟨haddress, hnode⟩ := Place.outline_inj hpq
        by_cases hrest : rest.isEmpty
        · rw [if_pos hrest, if_pos hrest, isAllocated_eq_of_outline hnode,
            ty_eq_of_outline hnode]
          by_cases hq : q.node.isAllocated
          · rw [if_pos hq, if_pos hq]
            exact congrArg Except.ok hpq
          · rw [if_neg hq, if_neg hq]
        · rw [if_neg hrest, if_neg hrest, haddress, coreAddress_eq_of_outline hnode]
          rcases map_eq_map.1 (core_eq_of_outline hnode) with ⟨t, hp, hq⟩ | ⟨x, y, hp, hq, hxy⟩
          · rw [hp, hq]
          · rw [hp, hq]
            exact under_congr (findItem_congr hxy rest .content) _
    | map | list | fixed | leaf => exact hitem

/-! ## Paths -/

/-- A path leads to the same places in two nodes with one outline. -/
theorem reached_congr {n m : Node σ} (h : n.outline = m.outline) (path : List String) :
    (S.reached o n path).map Place.outline = (S.reached o m path).map Place.outline := by
  have hhere : Place.outline ⟨[], n⟩ = Place.outline ⟨[], m⟩ := congrArg (Place.mk []) h
  induction path generalizing n m with
  | nil => exact congrArg (fun p => [p]) hhere
  | cons key rest ih =>
      rcases map_eq_map.1 (find_congr (S := S) (o := o) h key (.ofKey o key)) with
        ⟨err, hn, hm⟩ | ⟨p, q, hn, hm, hpq⟩
      · rw [reached_of_error hn, reached_of_error hm]
        exact congrArg (fun p => [p]) hhere
      · obtain ⟨haddress, hnode⟩ := Place.outline_inj hpq
        have hbelow := ih hnode (congrArg (Place.mk []) hnode)
        rw [reached_of_ok hn, reached_of_ok hm, haddress]
        simp only [List.map_cons, List.map_map, hhere, List.cons.injEq, true_and]
        have hunder : Place.outline ∘ Place.under (σ := σ) q.address =
            Place.under q.address ∘ Place.outline := rfl
        rw [hunder, ← List.map_map, ← List.map_map, hbelow]

end Schema

end TreeSync
