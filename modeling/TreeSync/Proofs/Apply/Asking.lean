import TreeSync.Apply.Dispatch
import TreeSync.Proofs.Navigate.Outlined
import TreeSync.Proofs.Node.Replacing

/-!
# Asking records for overrides

Asking may change the state of a record, and nothing else of it.  So asking the
records of a target, in whatever order, changes neither its outline nor where the
paths in it lead.  A target is stable if asking does not change either whether its
records expose an override.

Main definitions and results:

- `Schema.Asked`: one node comes from another one by asking.
- `Schema.exposes` and `Schema.Stable`.
- `Schema.Asked.replaceAt`: asking below an address.
- `Schema.Stable.exposed_eq`: what is exposed along a path before and after asking.
-/

namespace TreeSync

namespace Schema

open Node

variable {σ : Type} {S : Schema σ} {o : Options} {loops : Prop} {n m c d : Node σ}

/-! ## One record -/

/-- A record that is asked may change its state only. -/
theorem outline_ask (c : Node σ) : (S.ask c).1.outline = c.outline := by
  cases c with
  | record type fields state =>
      rw [ask]
      cases S.find? type <;> rfl
  | _ => rfl

theorem ty_ask (c : Node σ) : (S.ask c).1.ty = c.ty :=
  ty_eq_of_outline (outline_ask c)

/-- A record that was asked is as well typed as before. -/
theorem keeps_ask (c : Node σ) : S.Keeps loops c (S.ask c).1 := by
  cases c with
  | record type fields state =>
      rw [ask]
      cases S.find? type with
      | none => exact .refl _
      | some d =>
          refine ⟨rfl, fun h => ?_, id⟩
          cases h with
          | record types within hall => exact .record types within hall
  | _ => exact .refl _

/-! ## Many records -/

/-- Asking records for overrides, one after the other, leads from one node to
another. -/
inductive Asked (S : Schema σ) (n : Node σ) : Node σ → Prop where
  | refl : Asked S n n
  | ask {m c : Node σ} {a : Address} (h : Asked S n m) (hc : m.get? a = some c) :
      Asked S n (m.replaceAt a (S.ask c).1)

/-- Asking the record below the layers of a node. -/
theorem asked_here (S : Schema σ) (n : Node σ) :
    S.Asked n (n.replaceAt n.coreAddress (S.ask n.innermost).1) :=
  .ask .refl n.get?_coreAddress

namespace Asked

/-- So is a node in which records were asked. -/
theorem keeps (h : S.Asked n m) : S.Keeps loops n m := by
  induction h with
  | refl => exact .refl n
  | ask _ hc ih => exact ih.trans ((keeps_ask _).replaceAt hc)

theorem ty_eq (h : S.Asked n m) : m.ty = n.ty :=
  (show S.Keeps True n m from h.keeps).ty_eq

/-- Asking records leaves the outline of a node as it is. -/
theorem outline_eq (h : S.Asked n m) (hn : S.Typed loops n) : m.outline = n.outline := by
  induction h with
  | refl => rfl
  | ask h hc ih => exact ((h.keeps.typed hn).outline_replaceAt_self hc (outline_ask _)).trans ih

theorem trans {k : Node σ} (h : S.Asked n m) (h' : S.Asked m k) : S.Asked n k := by
  induction h' with
  | refl => exact h
  | ask _ hc ih => exact .ask ih hc

/-- Asking below an address is asking. -/
theorem replaceAt (hn : S.Typed loops n) {a : Address} (hc : n.get? a = some c)
    (h : S.Asked c d) : S.Asked n (n.replaceAt a d) := by
  induction h with
  | refl =>
      rw [hn.replaceAt_self hc]
      exact .refl
  | @ask d e b h he ih =>
      have hty : d.ty = c.ty := h.ty_eq
      have hnext : (d.replaceAt b (S.ask e).1).ty = c.ty := (ty_replaceAt he (ty_ask e)).trans hty
      have hget : (n.replaceAt a d).get? (a ++ b) = some e := by
        rw [get?_replaceAt_append hc hty, he]
      rw [← replaceAt_replaceAt_append hc hty hnext]
      exact .ask ih hget

end Asked

/-! ## Stable answers -/

/-- Whether the record below the layers of a node exposes an override. -/
def exposes (S : Schema σ) (n : Node σ) : Bool :=
  (S.ask n.innermost).2.isSome

/-- Asking does not change which records expose an override. -/
def Stable (S : Schema σ) (n : Node σ) : Prop :=
  ∀ m, S.Asked n m → ∀ a c d, n.get? a = some c → m.get? a = some d → S.exposes d = S.exposes c

/-- Only a node with a core exposes an override. -/
theorem core_of_exposes (h : S.exposes n = true) : n.core = .ok n.innermost := by
  induction n using layers_induction with
  | absent t => simp [exposes, innermost, ask] at h
  | present v ih => exact ih h
  | boxed v ih => exact ih h
  | bare n hn => rw [core_of_bare hn, innermost_of_bare hn]

/-- Where every state of a record type exposes an override or none does, every node is
stable. -/
theorem stable_of_steady
    (h : ∀ d ∈ S.records, ∀ s t, (d.query s).2.isSome = (d.query t).2.isSome)
    (hn : S.Typed loops n) : S.Stable n := by
  have hsame : ∀ c d : Node σ, c.outline = d.outline →
      (S.ask c).2.isSome = (S.ask d).2.isSome := by
    intro c d hcd
    cases c with
    | record type fields state =>
        cases d <;> simp only [outline, reduceCtorEq, record.injEq] at hcd
        obtain ⟨rfl, -⟩ := hcd
        rw [ask, ask]
        cases hfind : S.find? type with
        | none => rfl
        | some d => exact h d (List.mem_of_find?_eq_some hfind) _ _
    | _ => cases d <;> first | rfl | simp [outline] at hcd
  intro m hm a c d hc hd
  have houtline : some d.outline = some c.outline := by
    rw [← Option.map_some, ← Option.map_some, ← hc, ← hd, ← outline_get?, ← outline_get?,
      hm.outline_eq hn]
  refine hsame _ _ ?_
  rw [← innermost_outline, Option.some.inj houtline, innermost_outline]

/-- What along a path exposes an override. -/
def exposed (S : Schema σ) (o : Options) (n : Node σ) (path : List String) : List Bool :=
  (S.reached o n path).map fun p => S.exposes p.node

/-- Nothing is exposed behind a segment that leads nowhere. -/
theorem exposed_of_error {key : String} {err : NavError}
    (h : S.find o n key (.ofKey o key) = .error err) (rest : List String) :
    S.exposed o n (key :: rest) = [S.exposes n] := by
  rw [exposed, reached_of_error h]
  rfl

/-- What a path exposes, step by step. -/
theorem exposed_of_ok {key : String} {place : Place σ}
    (h : S.find o n key (.ofKey o key) = .ok place) (rest : List String) :
    S.exposed o n (key :: rest) = S.exposes n :: S.exposed o place.node rest := by
  rw [exposed, reached_of_ok h, List.map_cons, List.map_map]
  rfl

namespace Stable

/-- Below a stable node everything is stable. -/
theorem get (h : S.Stable n) (hn : S.Typed loops n) {a : Address} (hc : n.get? a = some c) :
    S.Stable c := by
  intro m hm b x y hx hy
  refine h _ (hm.replaceAt hn hc) (a ++ b) x y ?_ ?_
  · rw [get?_append, hc]
    exact hx
  · rw [get?_replaceAt_append hc hm.ty_eq]
    exact hy

/-- A stable node stays stable. -/
theorem asked (h : S.Stable n) (hn : S.Typed loops n) (hm : S.Asked n m) : S.Stable m := by
  intro k hk a c d hc hd
  have hsome : (n.get? a).map outline = some c.outline := by
    rw [← outline_get?, ← hm.outline_eq hn, outline_get?, hc]
    rfl
  rcases Option.map_eq_some_iff.1 hsome with ⟨x, hx, -⟩
  exact (h k (hm.trans hk) a x d hx hd).trans (h m hm a x c hx hc).symm

/-- Where a path leads before asking it leads after asking, to a node that exposes an
override if the one before did. -/
theorem exists_reached (h : S.Stable n) (hn : S.Typed loops n) (hm : S.Asked n m)
    {path : List String} {i : Nat} {place : Place σ}
    (hplace : (S.reached o n path)[i]? = some place) :
    ∃ found, (S.reached o m path)[i]? = some found ∧ found.address = place.address ∧
      found.node.coreAddress = place.node.coreAddress ∧
      S.exposes found.node = S.exposes place.node := by
  have hplaces := congrArg (·[i]?) (reached_congr (S := S) (o := o) (hm.outline_eq hn) path)
  simp only [List.getElem?_map, hplace, Option.map_some] at hplaces
  rcases Option.map_eq_some_iff.1 hplaces with ⟨found, hfound, hsame⟩
  obtain ⟨haddress, hnode⟩ := Place.outline_inj hsame
  have hget := get?_of_mem_reached (List.mem_of_getElem? hfound)
  rw [haddress] at hget
  exact ⟨found, hfound, haddress, coreAddress_eq_of_outline hnode,
    h m hm _ _ _ (get?_of_mem_reached (List.mem_of_getElem? hplace)) hget⟩

/-- Along every path the same is exposed before and after asking. -/
theorem exposed_eq (h : S.Stable n) (hn : S.Typed loops n) (hm : S.Asked n m)
    (path : List String) : S.exposed o m path = S.exposed o n path := by
  have hlength : (S.reached o m path).length = (S.reached o n path).length := by
    simpa using congrArg List.length (reached_congr (S := S) (o := o) (hm.outline_eq hn) path)
  refine List.ext_getElem (by simpa [exposed] using hlength) fun i hi hi' => ?_
  simp only [exposed, List.length_map] at hi hi'
  rcases h.exists_reached hn hm (List.getElem?_eq_getElem hi') with ⟨found, hfound, -, -, hsame⟩
  obtain rfl := Option.some.inj ((List.getElem?_eq_getElem hi).symm.trans hfound)
  simpa only [exposed, List.getElem_map] using hsame

end Stable

end Schema

end TreeSync
