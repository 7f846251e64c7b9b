import TreeSync.Apply.Basic
import TreeSync.Proofs.Navigate.Places
import TreeSync.Proofs.Node.Typed

/-!
# Probing without overrides

Where no record on the way exposes an override, or changes when it is asked for
one, the probe in front of an event finds nothing and changes nothing.

Main definitions and results:

- `Schema.Silent` and `Schema.OverrideFree`.
- `Schema.apply_of_silent`: the event just walks its path.
-/

namespace TreeSync

namespace Schema

open Node

variable {σ : Type} {S : Schema σ} {o : Options} {loops : Prop}

/-- No descendant of the node answers when it is asked for an override. -/
def Silent (S : Schema σ) (n : Node σ) : Prop :=
  ∀ a m, n.get? a = some m → S.ask m = (m, none)

/-- No record type has an override. -/
def OverrideFree (S : Schema σ) : Prop :=
  ∀ d ∈ S.records, ∀ state, d.query state = (state, none)

theorem OverrideFree.silent (h : S.OverrideFree) (n : Node σ) : S.Silent n := by
  intro a m _
  cases m with
  | record type fields state =>
      rw [ask]
      cases hd : S.find? type with
      | none => rfl
      | some d => simp only [h d (List.mem_of_find?_eq_some hd) state]
  | _ => rfl

/-- Without record types there are no overrides. -/
theorem overrideFree_empty (blank : σ) : (empty blank).OverrideFree :=
  fun _ hd => absurd hd List.not_mem_nil

/-- Documents hold no records. -/
theorem silent_dynamic (d : Document) : S.Silent (.dynamic d) := by
  intro a m hm
  have hdoc : ∃ e, m = .dynamic e := by
    induction a generalizing d with
    | nil => exact ⟨d, (Option.some.inj hm).symm⟩
    | cons s rest ih =>
        obtain ⟨c, hc, hm⟩ := Option.bind_eq_some_iff.1 hm
        rcases child?_dynamic hc with ⟨e, rfl⟩
        exact ih e hm
  rcases hdoc with ⟨e, rfl⟩
  rfl

theorem Silent.get {n c : Node σ} (h : S.Silent n) {a : Address} (hc : n.get? a = some c) :
    S.Silent c := by
  intro b m hm
  have hget : n.get? (a ++ b) = some m := by
    rw [get?_append, hc]
    exact hm
  exact h _ m hget

/-- The probe of a silent node finds no override and changes nothing. -/
theorem probe_of_silent {n : Node σ} (ht : S.Typed loops n) (hs : S.Silent n)
    (path : List String) : S.probe o n path = (n, none) := by
  induction path generalizing n with
  | nil =>
      rw [probe, hs _ _ n.get?_coreAddress, putBack, ht.replaceAt_self n.get?_coreAddress]
      rfl
  | cons key rest ih =>
      rw [probe, hs _ _ n.get?_coreAddress, putBack, ht.replaceAt_self n.get?_coreAddress]
      simp only [Option.map_none]
      cases hfind : S.find o n key (.ofKey o key) with
      | error e => rfl
      | ok place =>
          have hget := get?_find hfind
          simp only [ih (ht.get hget) (hs.get hget), putBack, ht.replaceAt_self hget]
          rfl

/-- An event below a silent node just walks its path. -/
theorem apply_of_silent {n : Node σ} (ht : S.Typed loops n) (hs : S.Silent n) {e : Event}
    (he : e.isRoot = false) : S.apply o e n = S.walk o e n e.path := by
  rw [apply, he, probe_of_silent ht hs]
  rfl

end Schema

end TreeSync
