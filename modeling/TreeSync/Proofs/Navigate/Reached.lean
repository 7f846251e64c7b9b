import TreeSync.Proofs.Navigate.Places

/-!
# The nodes along a path

Finding one key after the other, without making anything, leads along the longest
prefix of a path that resolves.  The nodes on the way are listed with their
addresses, the first one being the node where the path starts.

Main definitions and results:

- `Schema.reached`: the places along a path.
- `Schema.get?_of_mem_reached`: the nodes stand where their places say.
-/

namespace TreeSync

namespace Schema

open Node

variable {σ : Type} {S : Schema σ} {o : Options}

/-- The places that finding leads to along the longest prefix of a path that
resolves; the one at position `i` is behind the first `i` segments. -/
def reached (S : Schema σ) (o : Options) (n : Node σ) : List String → List (Place σ)
  | [] => [⟨[], n⟩]
  | key :: rest =>
      ⟨[], n⟩ ::
        match S.find o n key (.ofKey o key) with
        | .error _ => []
        | .ok place => (reached S o place.node rest).map (Place.under place.address)

/-- A path whose first segment does not resolve leads nowhere else. -/
theorem reached_of_error {n : Node σ} {key : String} {err : NavError}
    (h : S.find o n key (.ofKey o key) = .error err) (rest : List String) :
    S.reached o n (key :: rest) = [⟨[], n⟩] := by
  rw [reached, h]

theorem reached_of_ok {n : Node σ} {key : String} {place : Place σ}
    (h : S.find o n key (.ofKey o key) = .ok place) (rest : List String) :
    S.reached o n (key :: rest) =
      ⟨[], n⟩ :: (S.reached o place.node rest).map (Place.under place.address) := by
  rw [reached, h]

/-- The nodes along a path stand at their addresses. -/
theorem get?_of_mem_reached {n : Node σ} {path : List String} {p : Place σ}
    (h : p ∈ S.reached o n path) : n.get? p.address = some p.node := by
  induction path generalizing n p with
  | nil =>
      obtain rfl := List.mem_singleton.1 h
      rfl
  | cons key rest ih =>
      cases hfind : S.find o n key (.ofKey o key) with
      | error err =>
          rw [reached_of_error hfind] at h
          obtain rfl := List.mem_singleton.1 h
          rfl
      | ok place =>
          rw [reached_of_ok hfind] at h
          rcases List.mem_cons.1 h with rfl | h
          · rfl
          · rcases List.mem_map.1 h with ⟨q, hq, rfl⟩
            rw [Place.under, get?_append, get?_find hfind]
            exact ih hq

end Schema

end TreeSync
