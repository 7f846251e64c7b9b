/-!
# Sorted entries

A finite map as a list of entries whose keys ascend.  Reading, writing and
erasing an entry, and the laws that make them a finite map.

Main results:

- `Entries.get?_put_self`, `Entries.get?_put_of_ne`: writing changes one key.
- `Entries.get?_erase_self`, `Entries.get?_erase_of_ne`: so does erasing.
-/

namespace TreeSync

namespace Entries

variable {α β : Type} [DecidableEq α]

/-- The value stored under a key, the first one if several are. -/
def get? (key : α) : List (α × β) → Option β
  | [] => none
  | (k, v) :: rest => if k = key then some v else get? key rest

/-- The entries with `value` stored under `key`; a new key is put in front of
the first key it precedes. -/
def put (before : α → α → Bool) (key : α) (value : β) : List (α × β) → List (α × β)
  | [] => [(key, value)]
  | (k, v) :: rest =>
      if k = key then (key, value) :: rest
      else if before key k then (key, value) :: (k, v) :: rest
      else (k, v) :: put before key value rest

/-- The entries without those under `key`. -/
def erase (key : α) : List (α × β) → List (α × β)
  | [] => []
  | (k, v) :: rest => if k = key then erase key rest else (k, v) :: erase key rest

/-- The keys in order. -/
def keys (entries : List (α × β)) : List α :=
  entries.map Prod.fst

/-- A written key reads back. -/
@[simp] theorem get?_put_self (before : α → α → Bool) (key : α) (value : β)
    (entries : List (α × β)) : get? key (put before key value entries) = some value := by
  induction entries with
  | nil => simp [put, get?]
  | cons e rest ih =>
      obtain ⟨k, v⟩ := e
      by_cases hk : k = key
      · simp [put, get?, hk]
      · by_cases hb : before key k <;> simp [put, get?, hk, hb, ih]

/-- Writing one key leaves the others alone. -/
theorem get?_put_of_ne (before : α → α → Bool) {key other : α} (h : other ≠ key) (value : β)
    (entries : List (α × β)) : get? other (put before key value entries) = get? other entries := by
  induction entries with
  | nil => simp [put, get?, Ne.symm h]
  | cons e rest ih =>
      obtain ⟨k, v⟩ := e
      by_cases hk : k = key
      · subst hk
        simp [put, get?, Ne.symm h]
      · by_cases hb : before key k
        · simp [put, get?, hk, hb, Ne.symm h]
        · simp [put, get?, hk, hb, ih]

/-- An erased key is absent. -/
@[simp] theorem get?_erase_self (key : α) (entries : List (α × β)) :
    get? key (erase key entries) = none := by
  induction entries with
  | nil => rfl
  | cons e rest ih =>
      obtain ⟨k, v⟩ := e
      by_cases hk : k = key <;> simp [erase, get?, hk, ih]

/-- Erasing one key leaves the others alone. -/
theorem get?_erase_of_ne {key other : α} (h : other ≠ key) (entries : List (α × β)) :
    get? other (erase key entries) = get? other entries := by
  induction entries with
  | nil => rfl
  | cons e rest ih =>
      obtain ⟨k, v⟩ := e
      by_cases hk : k = key
      · subst hk
        simp [erase, get?, Ne.symm h, ih]
      · simp [erase, get?, hk, ih]

end Entries

end TreeSync
