import TreeSync.Proofs.Apply.Overrides
import TreeSync.Proofs.Apply.Visiting

/-!
# Records that own what is below them

A creating event visits more than the probe in front of it reaches: the slots that
it brings into existence itself.  The deepest record on its way that exposes an
override owns the event, and receives it if its slot was there before.

Main result: `Schema.apply_owned`.
-/

namespace TreeSync

namespace Schema

open Node

variable {σ : Type} {S : Schema σ} {o : Options} {loops : Prop} {e : Event}

/-- Nodes with the same core expose the same. -/
theorem exposes_eq_of_core {n m : Node σ} (hcore : m.core = n.core) (hn : n.isAllocated = true) :
    S.exposes m = S.exposes n := by
  rw [exposes, exposes, innermost_of_core (hcore.trans (core_eq_ok_innermost hn))]

/-- What an event visits in a slot that was there before exposes what the slot
exposes. -/
theorem exposes_visited {target v : Node σ} (htarget : S.Typed loops target)
    (haction : e.action ≠ .delete) {i : Nat} {place : Place σ}
    (hv : (S.visited o e.action target e.path)[i]? = some v)
    (hplace : (S.reached o target e.path)[i]? = some place)
    (halloc : place.node.isAllocated = true) :
    S.exposes (S.allocate v) = S.exposes place.node := by
  rcases exists_visited htarget haction rfl hplace halloc with ⟨found, hfound, hcore⟩
  obtain rfl := Option.some.inj (hv.symm.trans hfound)
  have hv : v.isAllocated = true :=
    isAllocated_of_core (hcore.trans (core_eq_ok_innermost halloc))
  rw [S.allocate_of_isAllocated hv, exposes_eq_of_core hcore halloc]

/-- The deepest record that an event visits, as it finds or makes it, and that exposes
an override receives the event in one call, if its slot was there before the event. -/
theorem apply_owned {target owner : Node σ} (htarget : S.Typed loops target)
    (hstable : S.Stable target) (hroot : e.isRoot = false) (haction : e.action ≠ .delete) {i : Nat}
    (howner : (S.visited o e.action target e.path)[i]? = some owner)
    (hexposes : S.exposes (S.allocate owner) = true)
    (hdeepest : ∀ j below, i < j → (S.visited o e.action target e.path)[j]? = some below →
      S.exposes (S.allocate below) = false)
    {place : Place σ} (hplace : (S.reached o target e.path)[i]? = some place)
    (hthere : place.node.isAllocated = true) :
    ∃ asked record override outcome,
      S.Asked target asked ∧
      asked.get? (place.address ++ place.node.coreAddress) = some record ∧
      (S.ask record).2 = some override ∧
      override.Delivers e (e.path.drop i) (S.ask record).1 outcome ∧
      S.apply o e target = asked.putBack (place.address ++ place.node.coreAddress) outcome := by
  have hfound : S.exposes place.node = true := by
    rw [← exposes_visited htarget haction howner hplace hthere, hexposes]
  refine exists_delivers htarget hstable hroot hplace hfound fun j below hj hbelow => ?_
  by_cases halloc : below.node.isAllocated = true
  · rcases exists_visited htarget haction rfl hbelow halloc with ⟨v, hv, -⟩
    rw [← exposes_visited htarget haction hv hbelow halloc, hdeepest j v hj hv]
  · rw [exposes, Bool.eq_false_iff]
    exact fun hcontra => halloc (isAllocated_of_core (core_of_exposes hcontra))

/-- A room with a safe, if there is one.  A safe takes every event over and refuses
it. -/
def room : Schema Nat :=
  ((empty 0).declare "Safe" [(code, .scalar .string)] 0
      fun asked => (asked, some (.segments fun _ safe =>
        (safe, .error (.rejected "locked"))))).declare "Room" [(place, .option (.record "Safe"))] 0
where
  /-- The code of a safe. -/
  code : Field := ⟨"code", none, true, by decide, Field.none_ne_empty⟩
  /-- The place for a safe. -/
  place : Field := ⟨"safe", none, true, by decide, Field.none_ne_empty⟩
  /-- A safe. -/
  safe (text : String) : Node Nat := .record "Safe" [(code, .scalar (.text text))] 0
  /-- A room. -/
  around (slot : Node Nat) : Node Nat := .record "Room" [(place, slot)] 0
  /-- An event that sets the code of the safe. -/
  dial : Event := ⟨.create, ["safe"], "code", .scalar .str, "1234", none⟩

/-- A safe that is there refuses its code. -/
theorem apply_owned_room :
    (room.apply {} room.dial (room.around (.present (room.safe "")))).2 =
      .error (.rejected "locked") ∧
    ∃ asked record override outcome,
      room.Asked (room.around (.present (room.safe ""))) asked ∧
      asked.get? [.field 0, .pointee] = some record ∧
      (room.ask record).2 = some override ∧
      override.Delivers room.dial [] (room.ask record).1 outcome ∧
      room.apply {} room.dial (room.around (.present (room.safe ""))) =
        asked.putBack [.field 0, .pointee] outcome := by
  have hsafe : room.Typed False (room.safe "") := by
    refine .record_of_tree rfl fun f hf => ?_
    obtain rfl := List.mem_singleton.1 hf
    exact .scalar _
  have htarget : room.Typed False (room.around (.present (room.safe ""))) := by
    refine .record_of_tree rfl fun f hf => ?_
    obtain rfl := List.mem_singleton.1 hf
    exact .present hsafe
  have hstable : room.Stable (room.around (.present (room.safe ""))) := by
    refine stable_of_steady (fun d hd s t => ?_) htarget
    rcases List.mem_cons.1 hd with rfl | hd
    · rfl
    · obtain rfl := List.mem_singleton.1 hd
      rfl
  have hvisited : room.visited {} .create (room.around (.present (room.safe ""))) ["safe"] =
      [room.around (.present (room.safe "")), room.safe ""] := rfl
  have howner : (room.visited {} room.dial.action (room.around (.present (room.safe "")))
      room.dial.path)[1]? = some (room.safe "") := rfl
  have hplace : (room.reached {} (room.around (.present (room.safe ""))) room.dial.path)[1]? =
      some ⟨[.field 0], .present (room.safe "")⟩ := rfl
  refine ⟨rfl, apply_owned htarget hstable rfl (by decide) howner rfl
    (fun j below hj hbelow => ?_) hplace rfl⟩
  rw [show room.dial.action = .create from rfl, show room.dial.path = ["safe"] from rfl, hvisited,
    List.getElem?_eq_none (Nat.succ_le_of_lt hj)] at hbelow
  simp at hbelow

/-- A safe that an event brings into existence does not receive the event.  Its code
is written, although every delivery of the event would be refused, and only the next
event is. -/
theorem safe_opened :
    (∃ owner, room.visited {} .create (room.around (.absent (.record "Safe"))) room.dial.path =
        [room.around (.absent (.record "Safe")), owner] ∧ room.exposes owner = true) ∧
    (∀ record override outcome, (room.ask record).2 = some override →
      override.Delivers room.dial [] (room.ask record).1 outcome →
      outcome.2 = .error (.rejected "locked")) ∧
    room.apply {} room.dial (room.around (.absent (.record "Safe"))) =
      (room.around (.present (room.safe "1234")), .ok ()) ∧
    (room.apply {} room.dial (room.around (.present (room.safe "1234")))).2 =
      .error (.rejected "locked") := by
  refine ⟨⟨_, rfl, rfl⟩, ?_, rfl, rfl⟩
  intro record override outcome hoverride hdelivers
  rw [Override.delivers_iff] at hdelivers
  subst hdelivers
  cases record with
  | record type fields state =>
      rw [ask] at hoverride
      cases hfind : room.find? type with
      | none => simp [hfind] at hoverride
      | some d =>
          rw [hfind] at hoverride
          rcases List.mem_cons.1 (List.mem_of_find?_eq_some hfind) with rfl | hd
          · obtain rfl := Option.some.inj hoverride
            rfl
          · obtain rfl := List.mem_singleton.1 hd
            simp at hoverride
  | _ => simp [ask] at hoverride

end Schema

end TreeSync
