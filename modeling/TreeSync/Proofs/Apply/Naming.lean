import TreeSync.Proofs.Apply.Members

/-!
# Members under their names

Unless options say otherwise, a list key that spells a number stands for a position, and any
other plain key for the string that it is.  A member is created under its own name either way.
So a member whose name spells no number can be deleted under its name again, while the name of
one that does leads to whatever stands at that position.

Main definitions and results:

- `Event.remaining`: the members that a deletion leaves.
- `Schema.perform_delete_named`, `Schema.perform_create_named`: one event on the list.
- `Schema.create_delete_member`: a member that is created and deleted under its name.
-/

namespace TreeSync

open Node

/-- The members that deleting under a key leaves: all but the one at the position that the key
spells, or else all but the first one that the key is. -/
def Event.remaining (key : String) (ms : List String) : List String :=
  match Mode.position? key with
  | some i => ms.eraseIdx i
  | none => ms.erase key

namespace TextForm

variable {σ : Type} {form : TextForm} {ms ns : List String}

/-- A list of strings shows which strings it holds. -/
theorem list_injective (h : (form.list ms : Node σ) = form.list ns) : ms = ns := by
  cases form with
  | scalar =>
      have hitems := (Node.list.inj h).2
      exact List.map_injective_iff.2 (fun s t hst => Slot.text.inj (Node.scalar.inj hst)) hitems
  | document =>
      have hitems := Document.seq.inj (Node.dynamic.inj h)
      exact List.map_injective_iff.2 (fun s t hst => Document.text.inj hst) hitems

end TextForm

namespace Event

variable {m : String} {ms : List String} {i : Nat}

theorem remaining_position (h : Mode.position? m = some i) (ms : List String) :
    remaining m ms = ms.eraseIdx i := by
  rw [remaining, h]

theorem remaining_name (h : Mode.position? m = none) (ms : List String) :
    remaining m ms = ms.erase m := by
  rw [remaining, h]

/-- A new member is the one that its name takes out exactly if the name spells no position, or
the position that the member got. -/
theorem remaining_concat_iff (habsent : m ∉ ms) :
    remaining m (ms ++ [m]) = ms ↔ ∀ i, Mode.position? m = some i → i = ms.length := by
  cases hposition : Mode.position? m with
  | none =>
      refine iff_of_true ?_ fun i hi => by cases hi
      rw [remaining_name hposition, List.erase_append_right _ habsent, List.erase_cons_head,
        List.append_nil]
  | some i =>
      rw [remaining_position hposition]
      constructor
      · intro heq j hj
        obtain rfl := Option.some.inj hj
        by_contra hne
        rcases Nat.lt_or_gt_of_ne hne with hlt | hgt
        · rw [List.eraseIdx_append_of_lt_length hlt] at heq
          exact habsent (heq ▸ List.mem_append_right _ List.mem_cons_self)
        · rw [List.eraseIdx_of_length_le (by simpa using Nat.succ_le_of_lt hgt)] at heq
          exact absurd (congrArg List.length heq) (by simp)
      · intro h
        obtain rfl := h i rfl
        rw [List.eraseIdx_append_of_length_le (Nat.le_refl _)]
        simp

end Event

namespace Schema

variable {σ : Type} {S : Schema σ} {o : Options} {loops : Prop} {c d e : Event}
  {target v : Node σ} {a : Address} {form : TextForm} {ms old : List String} {i : Nat}

/-! ## One event on the list -/

/-- A name that spells a position stands for the position. -/
theorem mode_position (hby : o.findByContent = false) (he : e.OnMember)
    (h : Mode.position? e.key = some i) : Mode.ofKey o e.key = .index := by
  rw [Mode.ofKey, he.isEmpty_eq, he.plain, hby, h]
  rfl

/-- Every other name stands for itself. -/
theorem mode_name (he : e.OnMember) (h : Mode.position? e.key = none) :
    Mode.ofKey o e.key = .content := by
  rw [Mode.ofKey, he.isEmpty_eq, he.plain, h, Option.isSome_none, Bool.and_false]
  rfl

/-- Deleting leaves what remains under the name, and fails where everything does. -/
theorem perform_delete_named (hby : o.findByContent = false) (he : e.OnMember)
    (haction : e.action = .delete) (form : TextForm) (ms : List String) :
    S.perform o e (form.list ms) = (form.list (Event.remaining e.key ms),
      if Event.remaining e.key ms = ms then .error (.navigation (.entryNotFound e.key))
      else .ok ()) := by
  cases hposition : Mode.position? e.key with
  | none =>
      rw [perform_delete_list (mode_name he hposition) he haction, Event.members, if_pos haction,
        Event.outcome, Event.remaining_name hposition]
      refine congrArg (Prod.mk _) (if_congr ?_ rfl rfl)
      rw [and_iff_right haction, List.erase_eq_self_iff]
  | some i =>
      have hbare := (form.ready_list (σ := σ) ms).bare
      rw [perform_of_delete haction, mode_position hby he hposition, remove, core_of_bare hbare,
        Event.remaining_position hposition]
      simp only [form.container_list, removeItem, locate, hposition, List.length_map, bind,
        Except.bind]
      by_cases hlt : i < ms.length
      · rw [if_pos hlt, if_neg]
        · simp only [pure, Except.pure, form.eraseItem_list, coreAddress_of_bare hbare]
          rfl
        · intro heq
          have hlength := congrArg List.length heq
          rw [List.length_eraseIdx_of_lt hlt] at hlength
          omega
      · rw [if_neg hlt, if_pos (List.eraseIdx_of_length_le (Nat.le_of_not_lt hlt)),
          List.eraseIdx_of_length_le (Nat.le_of_not_lt hlt)]
        rfl

/-- A new element that takes the name as its literal is the string. -/
theorem setSlot_item (S : Schema σ) (o : Options) (form : TextForm) (name : String) :
    S.setSlot o (S.zero form.elem) (.literal name none) = (form.item name, .ok ()) := by
  cases form with
  | scalar => rfl
  | document => rfl

/-- Creating without a value puts the name itself behind the other members. -/
theorem perform_create_named (hby : o.findByContent = false) (he : e.OnMember)
    (haction : e.action = .create) (hvalue : e.value = "") (form : TextForm)
    (habsent : e.key ∉ ms) :
    S.perform o e (form.list ms) = (form.list (ms ++ [e.key]), .ok ()) := by
  have hwrites : e.action ≠ .delete := by rw [haction]; decide
  cases hposition : Mode.position? e.key with
  | none =>
      rw [perform_write_list (mode_name he hposition) he hwrites, Event.members, if_neg hwrites,
        if_neg habsent, Event.outcome, if_neg fun h => hwrites h.1]
  | some i =>
      have hready := form.ready_list (σ := σ) ms
      have horKey : ∀ document, (Payload.literal "" document : Payload σ).orKey e.key =
          .literal e.key none := fun document => by simp [Payload.orKey, he.isEmpty_eq]
      rw [perform_of_literal hwrites (he.scalar hwrites), promote_of_ready hready,
        mode_position hby he hposition, hvalue, write, S.allocate_of_bare hready.bare,
        innermost_of_bare hready.bare, coreAddress_of_bare hready.bare, form.container_list]
      simp only [writeItem, form.container_list, writeElement, horKey, appendSlot, setSlot_item,
        form.append_item]
      rfl

/-! ## The list in its target -/

/-- The target with other members is the same target only if the members are the same. -/
theorem HoldsStrings.replaceAt_eq_iff (hold : HoldsStrings form target a v old)
    (htarget : S.Typed loops target) {now : List String} :
    target.replaceAt a (v.withCore (form.list now)) = target ↔ now = old := by
  constructor
  · intro heq
    have hnow := hold.replaceAt now
    rw [heq] at hnow
    have hsame : v.withCore (form.list now) = v :=
      Option.some.inj (hnow.get_eq.symm.trans hold.get_eq)
    have hlist := hnow.list_eq
    rw [hsame, hold.list_eq] at hlist
    exact (TextForm.list_injective hlist).symm
  · rintro rfl
    rw [← hold.list_eq, withCore_innermost, htarget.replaceAt_self hold.get_eq]

/-- A new member of a list of strings is created under its own name.  Deleting under the name
afterwards gives the target from before exactly if the name spells no position, or the one that
the member got.  Whatever the members are by then, deleting takes out the one at the position
that the name spells, or else the member with the name, and no other one. -/
theorem create_delete_member (hS : S.Sound loops) (htarget : S.Typed loops target)
    (hold : HoldsStrings form target a v old) (hby : o.findByContent = false) (hc : c.OnMember)
    (hcreate : c.action = .create) (hvalue : c.value = "") (habsent : c.key ∉ old)
    (hdelete : d.action = .delete) (hkey : d.key = c.key) (hbefore : S.Addresses o target c.path a)
    (hafter : S.Addresses o (target.replaceAt a (v.withCore (form.list (old ++ [c.key])))) d.path
      a) :
    let holding (now : List String) := target.replaceAt a (v.withCore (form.list now))
    S.apply o c target = (holding (old ++ [c.key]), .ok ()) ∧
      (S.apply o d (holding (old ++ [c.key])) = (target, .ok ()) ↔
        ∀ i, Mode.position? c.key = some i → i = old.length) ∧
      ∀ now, S.Addresses o (holding now) d.path a →
        S.apply o d (holding now) = (holding (Event.remaining c.key now),
          if Event.remaining c.key now = now then .error (.navigation (.entryNotFound c.key))
          else .ok ()) := by
  intro holding
  have hd : d.OnMember :=
    ⟨hkey ▸ hc.key_ne, hkey ▸ hc.plain, fun hwrites => absurd hdelete hwrites⟩
  have hremove : ∀ now, S.Addresses o (holding now) d.path a →
      S.apply o d (holding now) = (holding (Event.remaining c.key now),
        if Event.remaining c.key now = now then .error (.navigation (.entryNotFound c.key))
        else .ok ()) := by
    intro now hpath
    have hperform := perform_delete_named (S := S) hby hd hdelete form now
    rw [hkey] at hperform
    exact apply_strings_replaceAt hS htarget hold hd.key_ne hpath hperform
  refine ⟨?_, ?_, hremove⟩
  · exact apply_strings hS htarget hold hc.key_ne hbefore
      (perform_create_named hby hc hcreate hvalue form habsent)
  · rw [hremove _ hafter, ← Event.remaining_concat_iff habsent, Prod.mk.injEq,
      hold.replaceAt_eq_iff htarget, and_iff_left_of_imp]
    intro hback
    rw [if_neg]
    rw [hback]
    intro heq
    exact absurd (congrArg List.length heq) (by simp)

/-- A tag is created and deleted again. -/
theorem create_delete_member_page :
    let c : Event := ⟨.create, ["tags"], "edge", .scalar .str, "", none⟩
    let d : Event := ⟨.delete, ["tags"], "edge", .scalar .str, "", none⟩
    pages.apply {} c (page ["core"]) = (page ["core", "edge"], .ok ()) ∧
      pages.apply {} d (page ["core", "edge"]) = (page ["core"], .ok ()) := by
  intro c d
  have hold : HoldsStrings .scalar (page ["core"]) [.field 0] (TextForm.scalar.list ["core"])
      ["core"] := ⟨rfl, rfl, rfl⟩
  have hc : c.OnMember := ⟨by decide, by decide, fun _ => rfl⟩
  have h := create_delete_member (d := d) sound_pages (typed_page _) hold rfl hc rfl rfl
    (by decide) rfl rfl (addresses_page {} _) (addresses_page {} _)
  refine ⟨h.1, h.2.1.2 fun i hi => ?_⟩
  have hname : Mode.position? c.key = none := by decide
  rw [hname] at hi
  cases hi

/-- Under a name that is a number another tag is deleted. -/
theorem number_not_deleted :
    ¬∀ name : String, name ≠ "" → Key.isStructured name = false → name ∉ ["core"] →
      (pages.apply {} ⟨.delete, ["tags"], name, .scalar .str, "", none⟩
        (pages.apply {} ⟨.create, ["tags"], name, .scalar .str, "", none⟩ (page ["core"])).1).1 =
          page ["core"] := by
  intro hall
  have hcreate : (pages.apply {} ⟨.create, ["tags"], "0", .scalar .str, "", none⟩
      (page ["core"])).1 = page ["core", "0"] := rfl
  have hdelete : (pages.apply {} ⟨.delete, ["tags"], "0", .scalar .str, "", none⟩
      (page ["core", "0"])).1 = page ["0"] := rfl
  have hsame := hall "0" (by decide) (by decide) (by decide)
  rw [hcreate, hdelete] at hsame
  simp [page, TextForm.list, TextForm.item] at hsame

end Schema

end TreeSync
