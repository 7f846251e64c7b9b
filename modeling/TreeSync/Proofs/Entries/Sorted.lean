import Mathlib.Data.List.Nodup
import Mathlib.Data.List.Perm.Subperm
import TreeSync.Proofs.Entries.Ascending

/-!
# Entries put into order

Entries with distinct keys make a finite map whatever order they come in.  Put into the order
of their keys they are a canonical list for it.

Main definitions and results:

- `Entries.sorted`: the entries in the order of their keys.
- `Entries.sorted_eq_iff`: when entries with distinct keys make the same finite map.
-/

namespace TreeSync

namespace Entries

variable {α β : Type} [DecidableEq α] {before : α → α → Bool} {left right : List (α × β)}

/-- The entries put into order one after the other. -/
def sorted (before : α → α → Bool) (entries : List (α × β)) : List (α × β) :=
  entries.foldr (fun e rest => put before e.1 e.2 rest) []

theorem ascending_sorted (ho : Orders before fun _ => True) (entries : List (α × β)) :
    Ascending before (sorted before entries) := by
  induction entries with
  | nil => exact List.Pairwise.nil
  | cons e rest ih => exact ih.put ho trivial e.2 fun _ _ => trivial

theorem get?_sorted (before : α → α → Bool) (key : α) (entries : List (α × β)) :
    get? key (sorted before entries) = get? key entries := by
  induction entries with
  | nil => rfl
  | cons e rest ih =>
      obtain ⟨k, v⟩ := e
      by_cases hk : k = key
      · subst hk
        simp [sorted, get?]
      · rw [get?, if_neg hk, ← ih]
        exact get?_put_of_ne before (Ne.symm hk) v _

omit [DecidableEq α] in
/-- Ascending keys are distinct. -/
theorem Ascending.nodup_keys {admits : α → Prop} (ho : Orders before admits)
    {entries : List (α × β)} (h : Ascending before entries) : (keys entries).Nodup :=
  List.pairwise_map.2 (h.imp fun hlt => ho.ne hlt)

/-- Under distinct keys an entry is found. -/
theorem get?_of_nodup {entries : List (α × β)} (hkeys : (keys entries).Nodup) {e : α × β}
    (he : e ∈ entries) : get? e.1 entries = some e.2 := by
  induction entries with
  | nil => simp at he
  | cons d rest ih =>
      obtain ⟨k, v⟩ := d
      obtain ⟨hk, hrest⟩ := List.nodup_cons.1 hkeys
      rcases List.mem_cons.1 he with rfl | he
      · rw [get?, if_pos rfl]
      · have hmem : e.1 ∈ rest.map Prod.fst := List.mem_map_of_mem he
        have hne : k ≠ e.1 := fun h => hk (h ▸ hmem)
        rw [get?, if_neg hne]
        exact ih hrest he

theorem mem_iff_of_nodup {entries : List (α × β)} (hkeys : (keys entries).Nodup) {e : α × β} :
    e ∈ entries ↔ get? e.1 entries = some e.2 :=
  ⟨get?_of_nodup hkeys, mem_of_get?_eq_some⟩

/-- Under distinct keys nothing is lost. -/
theorem perm_sorted (ho : Orders before fun _ => True) {entries : List (α × β)}
    (hkeys : (keys entries).Nodup) : (sorted before entries).Perm entries := by
  have hsorted := (ascending_sorted ho entries).nodup_keys ho
  refine (List.perm_ext_iff_of_nodup (.of_map _ hsorted) (.of_map _ hkeys)).2 fun e => ?_
  rw [mem_iff_of_nodup hsorted, mem_iff_of_nodup hkeys, get?_sorted]

/-- Entries with distinct keys make one finite map when they are the same entries. -/
theorem sorted_eq_iff (ho : Orders before fun _ => True) (hleft : (keys left).Nodup)
    (hright : (keys right).Nodup) : sorted before left = sorted before right ↔ left.Perm right := by
  constructor
  · intro h
    exact (perm_sorted ho hleft).symm.trans (h ▸ perm_sorted ho hright)
  · intro h
    refine ext_of_ascending ho (ascending_sorted ho left) (ascending_sorted ho right) fun key => ?_
    refine Option.ext fun value => ?_
    rw [get?_sorted, get?_sorted]
    have hmem := h.mem_iff (a := (key, value))
    rwa [mem_iff_of_nodup hleft, mem_iff_of_nodup hright] at hmem

omit [DecidableEq α] in
/-- As many entries with distinct keys are the same entries if each of the first ones is one of
the second ones. -/
theorem perm_of_subset (hleft : (keys left).Nodup) (hlength : left.length = right.length)
    (h : left ⊆ right) : left.Perm right :=
  (List.subperm_of_subset (.of_map _ hleft) h).perm_of_length_le (Nat.le_of_eq hlength.symm)

end Entries

end TreeSync
