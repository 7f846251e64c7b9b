import TreeSync.Proofs.Navigate.Reading

/-!
# Finding and finding for reading

The look-up of an operation that may go on to write and the look-up of a reader make their checks
apart from each other.  They reach the same child or fail alike; a missing layer is the one
failure that they describe by different types.  What they reach is a part of the container as it
stands.

Main definitions and results:

- `Schema.Alike`: look-ups with one answer.
- `Schema.readItem_eq`: entries and elements are looked up in one way.
- `Schema.find_findRef_agree`: the look-ups agree and leave the container alone.
-/

namespace TreeSync

namespace Schema

open Node

variable {σ : Type} {S : Schema σ} {o : Options} {loops : Prop} {n c : Node σ}
  {key : String} {mode : Mode} {place : Place σ}

/-- Two look-ups reach one child or fail with one variant: with the same failure, or for want of a
layer, whose type they may name differently. -/
inductive Alike : Except NavError (Place σ) → Except NavError (Place σ) → Prop where
  | found (place : Place σ) : Alike (.ok place) (.ok place)
  | failed (err : NavError) : Alike (.error err) (.error err)
  | unallocated (left right : String) :
      Alike (.error (.unallocated left)) (.error (.unallocated right))

theorem Alike.of_eq {x y : Except NavError (Place σ)} (h : x = y) : Alike x y := by
  subst h
  cases x with
  | error err => exact .failed err
  | ok place => exact .found place

/-! ## Entries and elements -/

/-- A reader is shown the entry or element that is found. -/
theorem readItem_eq (c : Node σ) (key : String) (mode : Mode) :
    S.readItem o c key mode = S.findItem o c key mode := by
  rw [readItem, findItem]
  cases c.container with
  | record type fields => rfl
  | fixed => rfl
  | leaf => rfl
  | map kind elem entries =>
      cases hempty : key.isEmpty with
      | true => simp [Key.require, hempty, bind, Except.bind]
      | false =>
          cases hread : kind.readKey key with
          | error err => simp [Key.require, KeyKind.decode, hempty, hread, bind, Except.bind]
          | ok k =>
              cases hget : Entries.get? k entries <;>
                simp [Key.require, KeyKind.decode, hempty, hread, hget, bind, Except.bind]
  | list elem items =>
      cases hlocate : S.locate o elem items key mode with
      | error err => simp [hlocate, bind, Except.bind]
      | ok position =>
          cases position with
          | none => simp [hlocate, bind, Except.bind]
          | some i => cases hi : items[i]? <;> simp [hlocate, hi, bind, Except.bind]

/-! ## Records -/

/-- In a field the look-ups agree, and so they do in what a suffix names inside it. -/
theorem alike_field (base : Address) (field : Place σ) (rest : String) :
    Alike
      (Place.under base <$>
        if rest.isEmpty then
          if field.node.isAllocated then .ok field
          else .error (.unallocated field.node.ty.name)
        else
          match field.node.core with
          | .error t => .error (.unallocated t.name)
          | .ok d =>
              Place.under (field.address ++ field.node.coreAddress) <$>
                S.findItem o d rest .content)
      (match field.node.core?, rest.isEmpty with
        | none, _ => .error (.unallocated field.node.ty.name)
        | some _, true => .ok (field.under base)
        | some d, false =>
            Place.under ((field.under base).address ++ field.node.coreAddress) <$>
              S.readItem o d rest .content) := by
  rw [isAllocated, core?]
  cases hcore : field.node.core with
  | error t => cases rest.isEmpty <;> exact .unallocated _ _
  | ok d =>
      cases rest.isEmpty with
      | true => exact .found _
      | false =>
          simp only [Except.toOption, Bool.false_eq_true, if_false, readItem_eq]
          cases S.findItem o d rest .content with
          | error err => exact .failed err
          | ok item =>
              refine .of_eq (congrArg Except.ok ?_)
              simp [Place.under]

theorem alike_record {type : String} {fields : List (Field × Node σ)}
    (hcore : n.core = .ok c) (hrecord : c.container = .record type fields) :
    Alike (S.find o n key mode) (S.findRef o n key mode) := by
  rw [find, findRef, core?, hcore]
  simp only [Except.toOption, hrecord, Key.require]
  cases key.isEmpty with
  | true => exact .failed _
  | false =>
      cases Key.splitField key with
      | error err => exact .failed err
      | ok parts =>
          obtain ⟨name, rest⟩ := parts
          simp only [bind, Except.bind, Bool.false_eq_true, if_false]
          cases c.fieldPlace o false type fields name with
          | error err => exact .failed err
          | ok field => exact alike_field n.coreAddress field rest

/-- The look-ups agree on every node, key and mode. -/
theorem alike_find (n : Node σ) (key : String) (mode : Mode) :
    Alike (S.find o n key mode) (S.findRef o n key mode) := by
  cases hcore : n.core with
  | error t =>
      rw [find, findRef, core?, hcore]
      exact .unallocated _ _
  | ok c =>
      cases hcontainer : c.container with
      | record type fields => exact alike_record hcore hcontainer
      | _ =>
          rw [find, findRef, core?, hcore]
          simp only [Except.toOption, hcontainer]
          exact .of_eq (by rw [readItem_eq])

/-- Finding reaches the child that a reader is shown, or fails as the reader does; the child stands
in the container, which is the same when the child is put back where it was. -/
theorem find_findRef_agree (hn : S.Typed loops n) (o : Options) (key : String) (mode : Mode) :
    Alike (S.find o n key mode) (S.findRef o n key mode) ∧
      ∀ place, S.find o n key mode = .ok place →
        n.get? place.address = some place.node ∧ n.replaceAt place.address place.node = n := by
  refine ⟨alike_find n key mode, fun place h => ?_⟩
  have hget := get?_find h
  exact ⟨hget, hn.replaceAt_self hget⟩

/-- A boxed map with a port that no service has been given to. -/
def routes : Node Unit :=
  .boxed (.map .sorted (.int .u16) (.option (.scalar .string))
    [(.int 80, .absent (.scalar .string))])

theorem typed_routes : (empty ()).Typed False routes :=
  .boxed (.map (List.pairwise_singleton _ _)
    (List.forall_mem_singleton.2 (show IntKind.u16.Contains 80 by decide))
    (List.forall_mem_singleton.2 rfl) (List.forall_mem_singleton.2 (.absent _)))

theorem find_findRef_agree_routes :
    (empty ()).find {} routes "080" .none =
        .ok ⟨[.pointee, .entry (.int 80)], .absent (.scalar .string)⟩ ∧
      (empty ()).findRef {} routes "080" .none =
        .ok ⟨[.pointee, .entry (.int 80)], .absent (.scalar .string)⟩ ∧
      routes.replaceAt [.pointee, .entry (.int 80)] (.absent (.scalar .string)) = routes := by
  have hfound : (empty ()).find {} routes "080" .none =
      .ok ⟨[.pointee, .entry (.int 80)], .absent (.scalar .string)⟩ := by rfl
  obtain ⟨halike, hsame⟩ := find_findRef_agree typed_routes {} "080" .none
  rw [hfound] at halike
  refine ⟨hfound, ?_, (hsame _ hfound).2⟩
  generalize hread : (empty ()).findRef {} routes "080" .none = read at halike
  cases halike with
  | found => rfl

end Schema

end TreeSync
